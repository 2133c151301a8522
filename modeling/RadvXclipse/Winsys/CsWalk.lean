import RadvXclipse.Lib.Run
import RadvXclipse.Winsys.CsLinks

/-!
# What the command processor executes

Any number of streams share one winsys. `CpWalk` is the command processor: it reads an IB of a
given address and size and jumps at a chaining packet in its last four dwords. The main theorem
is about every run of the recording operations: walking a finalized stream visits the dwords that
were emitted into it, in order, with only NOPs in between, and then the stream it is chained to.
-/

namespace RadvXclipse.RadvAmdgpu

open Lib Util List Nat
open Option hiding or_assoc

/-! ## The command processor -/

/-- One IB as the command processor sees it: where it starts, the size it was given, and the
dwords it executes before it stops or jumps. -/
structure Visit where
  va : BitVec 64
  size : ℕ
  dws : List (BitVec 32)

/-- The jump that an IB of `size` dwords ends in, if its last four dwords are a chaining packet. -/
def chainTarget (dw : ℕ → BitVec 32) (size : ℕ) : Option (BitVec 64 × ℕ) :=
  if 4 ≤ size ∧ dw (size - 4) = pkt3 pkt3IndirectBuffer 2 0 ∧ ibChainG (dw (size - 1)) = 1 then
    some (dw (size - 2) ++ dw (size - 3), (ibSizeG (dw (size - 1))).toNat)
  else none

/-- The command processor, started on the IB of `size` dwords at `va`, executes the visits and
either stops (`none`) or is about to start on another IB. -/
inductive CpWalk (ws : Ws) : BitVec 64 → ℕ → List Visit → Option (BitVec 64 × ℕ) → Prop
  | here (va : BitVec 64) (size : ℕ) : CpWalk ws va size [] (some (va, size))
  | stop {b : BoId} {bo : Bo} {size : ℕ} : ws.bos b = some bo → 4 * size ≤ bo.size →
      chainTarget bo.dw size = none →
      CpWalk ws bo.va size [⟨bo.va, size, (range size).map bo.dw⟩] none
  | jump {b : BoId} {bo : Bo} {size : ℕ} {va' : BitVec 64} {size' : ℕ} {vs : List Visit}
      {e : Option (BitVec 64 × ℕ)} : ws.bos b = some bo → 4 * size ≤ bo.size →
      chainTarget bo.dw size = some (va', size') → CpWalk ws va' size' vs e →
      CpWalk ws bo.va size (⟨bo.va, size, (range (size - 4)).map bo.dw⟩ :: vs) e

/-- Every address names one BO. -/
def Ws.VaInj (ws : Ws) : Prop :=
  ∀ b b' bo bo', ws.bos b = some bo → ws.bos b' = some bo' → bo.va = bo'.va → b = b'

section

variable {ws ws' ws'' : Ws} {va va' : BitVec 64} {size size' n : ℕ} {us : List Visit} {x : Part}
  {control : BitVec 32} {bo : Bo} {body : List (BitVec 32)} {closed : List Part}
  {used : BoId → Prop} {rest : List (BoId × ℕ)} {b : BoId} {create : Option NewBo}
  {own own' : List BoId} (info : Info)

lemma CpWalk.trans {vs : List Visit} {e : Option (BitVec 64 × ℕ)}
    (h : CpWalk ws va size us (some (va', size'))) (h' : CpWalk ws va' size' vs e) :
    CpWalk ws va size (us ++ vs) e := by
  generalize hm : some (va', size') = m at h
  induction h with
  | here va size =>
    cases hm
    exact h'
  | stop => cases hm
  | jump hb hsize htarget _ ih => exact .jump hb hsize htarget (ih hm)

/-- Where every address names one BO, a completed walk runs through every shorter one. -/
theorem CpWalk.complete_iff (hinj : ws.VaInj)
    (h : CpWalk ws va size us (some (va', size'))) (vs : List Visit) :
    CpWalk ws va size vs none ↔ ∃ vs', vs = us ++ vs' ∧ CpWalk ws va' size' vs' none := by
  constructor
  · generalize hm : some (va', size') = m at h
    induction h generalizing vs with
    | here va size =>
      cases hm
      intro hvs
      exact ⟨vs, rfl, hvs⟩
    | stop => cases hm
    | @jump b bo size va1 size1 us1 e hb hsize htarget _ ih =>
      intro hvs
      -- the completed walk reads the same BO, hence the same packet
      generalize hva : bo.va = va at hvs
      generalize hnone : (none : Option (BitVec 64 × ℕ)) = m' at hvs
      cases hvs with
      | here => cases hnone
      | @stop b' bo' size' hb' _ htarget' =>
        obtain rfl := hinj b b' bo bo' hb hb' hva
        obtain rfl : bo = bo' := Option.some.inj (hb.symm.trans hb')
        rw [htarget] at htarget'
        cases htarget'
      | @jump b' bo' size' va2 size2 vs2 _ hb' _ htarget' hrest =>
        obtain rfl := hinj b b' bo bo' hb hb' hva
        obtain rfl : bo = bo' := Option.some.inj (hb.symm.trans hb')
        rw [htarget] at htarget'
        cases htarget'
        subst hnone
        obtain ⟨vs', rfl, hvs'⟩ := ih vs2 hm hrest
        exact ⟨vs', rfl, hvs'⟩
  · rintro ⟨vs', rfl, hvs'⟩
    exact h.trans hvs'

/-! ## Walking closed IBs -/

lemma setWidth_append_self (va : BitVec 64) :
    ((va >>> 32).setWidth 32 ++ va.setWidth 32 : BitVec 64) = va := by
  apply BitVec.eq_of_toNat_eq
  rw [BitVec.toNat_append, BitVec.toNat_setWidth, BitVec.toNat_setWidth, BitVec.toNat_ushiftRight,
    shiftRight_eq_div_pow, shiftLeft_eq]
  rw [mul_comm, ← two_pow_add_eq_or_of_lt (mod_lt _ (by decide))]
  omega

lemma Part.Holds.chainTarget_link (h : x.Holds ws (linkPacket va control))
    (hchain : ibChainG control = 1) (hbo : ws.bos x.bo = some bo) :
    chainTarget bo.dw x.size = some (va, (ibSizeG control).toNat) := by
  have hpos : 4 ≤ x.size := le_add_left 4 _
  have h0 := h.dw_tail hbo 0 (succ_pos 3)
  have h1 := h.dw_tail hbo 1 (show 1 < 4 by decide)
  have h2 := h.dw_tail hbo 2 (show 2 < 4 by decide)
  have h3 := h.dw_tail hbo 3 (show 3 < 4 by decide)
  simp only [linkPacket, getElem_cons_zero, getElem_cons_succ, Nat.reduceSub] at h0 h1 h2 h3
  rw [chainTarget, h0, h1, h2, h3, if_pos ⟨hpos, rfl, hchain⟩, setWidth_append_self]

lemma Part.Holds.chainTarget_nop (h : x.Holds ws (pkt3 pkt3Nop 2 0 :: body))
    (hbo : ws.bos x.bo = some bo) : chainTarget bo.dw x.size = none := by
  have h0 : bo.dw (x.size - 4) = pkt3 pkt3Nop 2 0 := h.dw_tail hbo 0 (succ_pos _)
  have hne : pkt3 pkt3Nop 2 0 ≠ pkt3 pkt3IndirectBuffer 2 0 := by decide
  rw [chainTarget, h0, if_neg]
  rintro ⟨-, heq, -⟩
  exact hne heq

/-- A closed IB that ends in a jump: the chaining packet itself is not counted. -/
def Part.visit (x : Part) : Visit := ⟨x.va, x.size, x.chunk ++ x.pad⟩

lemma Part.Holds.walk_link (h : x.Holds ws (linkPacket va control))
    (hchain : ibChainG control = 1) :
    CpWalk ws x.va x.size [x.visit] (some (va, (ibSizeG control).toNat)) := by
  obtain ⟨bo, hbo, hva, hsize, hbeg⟩ := h.live
  have hjump := CpWalk.jump hbo hsize (h.chainTarget_link hchain hbo) (.here va _)
  have hread := hbeg.left.read
  rw [length_append] at hread
  have hlen : x.size - 4 = x.chunk.length + x.pad.length := by
    rw [Part.size]
    omega
  rw [hlen, hread, hva] at hjump
  exact hjump

lemma Part.Holds.walk_nop (h : x.Holds ws (pkt3 pkt3Nop 2 0 :: body)) :
    CpWalk ws x.va x.size [⟨x.va, x.size, x.chunk ++ x.pad ++ pkt3 pkt3Nop 2 0 :: body⟩] none := by
  obtain ⟨bo, hbo, hva, hsize, hbeg⟩ := h.live
  have hstop := CpWalk.stop hbo hsize (h.chainTarget_nop hbo)
  have hread := hbeg.read
  have hlen : (x.chunk ++ x.pad ++ pkt3 pkt3Nop 2 0 :: body).length = x.size := by
    rw [length_append, length_append, h.four, Part.size]
  rw [hlen] at hread
  rw [hread, hva] at hstop
  exact hstop

/-- The closed IBs are walked oldest first, up to the IB they lead to. -/
theorem Links.walk (h : Links ws closed va n) (hn : n < 2 ^ 20) :
    CpWalk ws (first closed va n).1 (first closed va n).2 (closed.reverse.map Part.visit) (some (va, n)) := by
  induction closed generalizing va n with
  | nil => exact .here va n
  | cons x rest ih =>
    have hx := h.1.walk_link (ibChainG_link hn)
    rw [ibSizeG_link, ibSizeG_ofNat hn] at hx
    rw [reverse_cons, map_append, map_singleton]
    exact (ih h.2 h.1.small).trans hx

lemma first_small (h : Links ws closed va n) (hn : n < 2 ^ 20) : (first closed va n).2 < 2 ^ 20 := by
  induction closed generalizing va n with
  | nil => exact hn
  | cons x rest ih => exact ih h.2 h.1.small

/-! ## Obtaining a BO -/

/-- The winsys is in order: live BOs have distinct addresses, and the cached IBs are distinct,
live, of the size they are listed with, and used by no stream. -/
structure WsOk (ws : Ws) (used : BoId → Prop) : Prop where
  va_inj : ws.VaInj
  used_live : ∀ b, used b → ws.bos b ≠ none
  cache_nodup : (ws.ibCache.map Prod.fst).Nodup
  cache_live : ∀ e ∈ ws.ibCache, ∃ bo, ws.bos e.1 = some bo ∧ bo.size = e.2
  cache_free : ∀ e ∈ ws.ibCache, ¬ used e.1

theorem WsOk.writes {bs : List BoId} (h : WsOk ws used) (hw : Ws.Writes bs ws ws') :
    WsOk ws' used := by
  refine ⟨?_, ?_, hw.ibCache ▸ h.cache_nodup, ?_, hw.ibCache ▸ h.cache_free⟩
  · intro b b' bo bo' hb hb' hva
    obtain ⟨bo1, hbo1, hva1, -⟩ := exists_of_shape (hw.shape b).symm hb
    obtain ⟨bo2, hbo2, hva2, -⟩ := exists_of_shape (hw.shape b').symm hb'
    exact h.va_inj b b' bo1 bo2 hbo1 hbo2 (by rw [hva1, hva2, hva])
  · intro b hb hnone
    obtain ⟨bo, hbo⟩ := ne_none_iff_exists'.mp (h.used_live b hb)
    obtain ⟨bo', hbo', -⟩ := hw.live hbo
    rw [hnone] at hbo'
    cases hbo'
  · rw [hw.ibCache]
    intro e he
    obtain ⟨bo, hbo, hsize⟩ := h.cache_live e he
    obtain ⟨bo', hbo', -, hsize'⟩ := hw.live hbo
    exact ⟨bo', hbo', hsize'.trans hsize⟩

/-- The kernel's promise about a new BO: it is not a live one, nor is its address taken. -/
def Ws.Fresh (ws : Ws) (n : NewBo) : Prop :=
  ws.bos n.id = none ∧ ∀ b bo, ws.bos b = some bo → bo.va ≠ n.va

/-- Where all BOs are among the first `k`, their addresses decide it. -/
theorem Ws.fresh_of_boVa {ws : Ws} {n : NewBo} (k : ℕ) (hnone : ∀ b, ws.bos (b + k) = none)
    (hid : ws.bos n.id = none) (hva : ∀ b < k, ws.boVa (some b) ≠ n.va) : ws.Fresh n := by
  refine ⟨hid, fun b bo hb heq => ?_⟩
  by_cases hlt : b < k
  · exact hva b hlt (by simp [Ws.boVa, hb, heq])
  · obtain ⟨j, rfl⟩ := Nat.exists_eq_add_of_le' (not_lt.mp hlt)
    rw [hnone j] at hb
    cases hb

lemma ibCacheGet_perm {entries : List (BoId × ℕ)} (h : ibCacheGet entries size = some (b, rest)) :
    entries.Perm ((b, size) :: rest) := by
  unfold ibCacheGet at h
  split at h
  · next i hi =>
    obtain ⟨hlt, hsize, -⟩ := findIdx?_eq_some_iff_getElem.mp hi
    cases h
    rw [getD_eq_getElem _ _ hlt]
    have heq : (entries[i].1, size) = entries[i] := by
      rw [← of_decide_eq_true hsize]
    rw [heq]
    exact perm_swapRemove hlt
  · cases h

/-- `ws'` is `ws` with the BO `b`, of the given size, taken from the cache or from the kernel. -/
structure Acquired (used : BoId → Prop) (ws ws' : Ws) (b : BoId) (size : ℕ) : Prop where
  live : ∃ bo, ws'.bos b = some bo ∧ bo.size = size
  unused : ¬ used b
  frame : ∀ b', b' ≠ b → ws'.bos b' = ws.bos b'
  ok : WsOk ws' fun b' => used b' ∨ b' = b

lemma acquired_cached (h : WsOk ws used) (hperm : ws.ibCache.Perm ((b, size) :: rest)) :
    Acquired used ws { ws with ibCache := rest } b size := by
  have hmem : ∀ e ∈ (b, size) :: rest, e ∈ ws.ibCache := fun e he => hperm.mem_iff.mpr he
  have hb := hmem (b, size) mem_cons_self
  obtain ⟨bo, hbo, hsize⟩ := h.cache_live _ hb
  have hnodup : (((b, size) :: rest).map Prod.fst).Nodup := (hperm.map Prod.fst).nodup_iff.mp h.cache_nodup
  rw [map_cons, nodup_cons] at hnodup
  refine ⟨⟨bo, hbo, hsize⟩, h.cache_free _ hb, fun _ _ => rfl, ?_⟩
  refine ⟨h.va_inj, ?_, hnodup.2, fun e he => h.cache_live e (hmem e (mem_cons_of_mem _ he)), ?_⟩
  · rintro b' (hused | rfl)
    · exact h.used_live b' hused
    · exact fun hnone => some_ne_none _ (hbo.symm.trans hnone)
  · rintro e he (hused | heq)
    · exact h.cache_free e (hmem e (mem_cons_of_mem _ he)) hused
    · have hin : e.1 ∈ rest.map Prod.fst := mem_map_of_mem he
      exact hnodup.1 (heq ▸ hin)

lemma acquired_created {n : NewBo} (h : WsOk ws used) (hfresh : ws.Fresh n) (hva : bo.va = n.va) :
    Acquired used ws { ws with bos := Function.update ws.bos n.id (some bo) } n.id bo.size := by
  have hnew : ∀ b, used b → b ≠ n.id := by
    rintro b hused rfl
    exact h.used_live _ hused hfresh.1
  have hcached : ∀ e ∈ ws.ibCache, e.1 ≠ n.id := by
    intro e he heq
    obtain ⟨bo', hbo', -⟩ := h.cache_live e he
    rw [heq, hfresh.1] at hbo'
    cases hbo'
  have hself : ({ ws with bos := Function.update ws.bos n.id (some bo) } : Ws).bos n.id = some bo :=
    Function.update_self ..
  have hother : ∀ b, b ≠ n.id →
      ({ ws with bos := Function.update ws.bos n.id (some bo) } : Ws).bos b = ws.bos b :=
    fun b hb => Function.update_of_ne hb ..
  refine ⟨⟨bo, hself, rfl⟩, fun hused => hnew _ hused rfl, hother, ?_⟩
  refine ⟨?_, ?_, h.cache_nodup, ?_, ?_⟩
  · intro b b' bo1 bo2 hb hb' heq
    by_cases h1 : b = n.id <;> by_cases h2 : b' = n.id
    · rw [h1, h2]
    · -- the new BO against an old one: the addresses differ
      rw [h1, hself, Option.some.injEq] at hb
      rw [hother b' h2] at hb'
      exact absurd (by rw [← heq, ← hb, hva]) (hfresh.2 b' bo2 hb')
    · rw [h2, hself, Option.some.injEq] at hb'
      rw [hother b h1] at hb
      exact absurd (by rw [heq, ← hb', hva]) (hfresh.2 b bo1 hb)
    · rw [hother b h1] at hb
      rw [hother b' h2] at hb'
      exact h.va_inj b b' bo1 bo2 hb hb' heq
  · rintro b (hused | rfl)
    · rw [hother b (hnew b hused)]
      exact h.used_live b hused
    · rw [hself]
      exact some_ne_none bo
  · intro e he
    rw [hother e.1 (hcached e he)]
    exact h.cache_live e he
  · rintro e he (hused | heq)
    · exact h.cache_free e he hused
    · exact hcached e he heq

/-- `csBoCreate` finds a cached IB or the kernel creates one. -/
def canObtain (info : Info) (ws : Ws) (ibSize : ℕ) (create : Option NewBo) : Bool :=
  (info.gfx11ShaderCore && (ibCacheGet ws.ibCache ibSize).isSome) || create.isSome

/-- `ws'` is `ws` with the BO `b` taken from the cache or from the kernel. -/
inductive Obtains (ws : Ws) (create : Option NewBo) (size : ℕ) : Ws → BoId → Prop
  | cached {b : BoId} {rest : List (BoId × ℕ)} (hperm : ws.ibCache.Perm ((b, size) :: rest)) :
      Obtains ws create size { ws with ibCache := rest } b
  | created {n : NewBo} {bo : Bo} (hn : create = some n) (hva : bo.va = n.va) (hsize : bo.size = size) :
      Obtains ws create size { ws with bos := Function.update ws.bos n.id (some bo) } n.id

lemma canObtain_eq : canObtain info ws size create =
    ((if info.gfx11ShaderCore then ibCacheGet ws.ibCache size else none).isSome || create.isSome) := by
  unfold canObtain
  cases info.gfx11ShaderCore <;> rfl

lemma canObtain_some (ws : Ws) (size : ℕ) (n : NewBo) : canObtain info ws size (some n) = true := by
  simp [canObtain]

lemma csBoCreate_eq (s : St) (size : ℕ) (hcan : canObtain info s.ws size create = true) :
    ∃ ws b, csBoCreate info s size create = (.success, ⟨ws, { s.cs with ibBuffer := some b }⟩) ∧
      Obtains s.ws create size ws b := by
  rw [canObtain_eq] at hcan
  cases hcached : (if info.gfx11ShaderCore then ibCacheGet s.ws.ibCache size else none) with
  | some taken =>
    obtain ⟨b, rest⟩ := taken
    refine ⟨{ s.ws with ibCache := rest }, b, ?_, .cached (ibCacheGet_perm ?_)⟩
    · simp only [csBoCreate, hcached]
    · split_ifs at hcached
      exact hcached
  | none =>
    rw [hcached, isSome_none, Bool.false_or] at hcan
    obtain ⟨n, rfl⟩ := isSome_iff_exists.mp hcan
    refine ⟨_, n.id, ?_, @Obtains.created _ _ _ n (csNewBo info s.cs size n) rfl rfl rfl⟩
    simp only [csBoCreate, hcached]

/-- What `csBoCreate` obtains is a BO that no stream uses. -/
theorem csBoCreate_obtains (cs : Cs) (size : ℕ) (h : WsOk ws used)
    (hfresh : ∀ n ∈ create, ws.Fresh n) (hcan : canObtain info ws size create = true) :
    ∃ ws' b, csBoCreate info ⟨ws, cs⟩ size create =
        (.success, ⟨ws', { cs with ibBuffer := some b }⟩) ∧ Acquired used ws ws' b size ∧
      ws'.badStore = ws.badStore ∧ ws'.badRestore = ws.badRestore := by
  obtain ⟨ws', b, heq, hobtains⟩ := csBoCreate_eq info ⟨ws, cs⟩ size hcan
  refine ⟨ws', b, heq, ?_⟩
  cases hobtains with
  | cached hperm => exact ⟨acquired_cached h hperm, rfl, rfl⟩
  | created hn hva hsize => exact ⟨hsize ▸ acquired_created h (hfresh _ hn) hva, rfl, rfl⟩

lemma csBoCreate_fails (ws : Ws) (cs : Cs) (size : ℕ)
    (hcan : canObtain info ws size create = false) :
    csBoCreate info ⟨ws, cs⟩ size create = (.errorOutOfDeviceMemory, ⟨ws, { cs with ibBuffer := none }⟩) := by
  rw [canObtain_eq, Bool.or_eq_false_iff, isSome_eq_false_iff, isSome_eq_false_iff,
    isNone_iff_eq_none, isNone_iff_eq_none] at hcan
  simp only [csBoCreate, hcan.1, hcan.2]

/-! ## One stream advances -/

/-- What an operation of a stream that owned the BOs `own` and now owns `own'` may do to the
winsys: it takes only unused BOs and touches no memory but its own. -/
structure Advance (used : BoId → Prop) (ws : Ws) (own : List BoId) (ws' : Ws) (own' : List BoId) :
    Prop where
  sub : own ⊆ own'
  fresh : ∀ b ∈ own', b ∈ own ∨ ¬ used b
  frame : ∀ b, b ∉ own' → ws'.bos b = ws.bos b
  ok : WsOk ws' fun b => used b ∨ b ∈ own'

lemma Advance.refl (h : WsOk ws used) (hown : ∀ b ∈ own, used b) : Advance used ws own ws own := by
  have hused : (fun b => used b ∨ b ∈ own) = used := by
    funext b
    exact propext ⟨fun hb => hb.elim id (hown b), Or.inl⟩
  exact ⟨fun _ hb => hb, fun _ hb => Or.inl hb, fun _ _ => rfl, by rw [hused]; exact h⟩

theorem Advance.writes (h : Advance used ws own ws' own') (hw : Ws.Writes own' ws' ws'') :
    Advance used ws own ws'' own' :=
  { h with
    frame := fun b hb => (hw.others b hb).trans (h.frame b hb)
    ok := h.ok.writes hw }

lemma Advance.acquire (h : Advance used ws own ws' own')
    (ha : Acquired (fun b => used b ∨ b ∈ own') ws' ws'' b size) :
    Advance used ws own ws'' (own' ++ [b]) := by
  have hused : (fun b' => used b' ∨ b' ∈ own' ++ [b]) = fun b' => (used b' ∨ b' ∈ own') ∨ b' = b := by
    funext b'
    rw [mem_append, mem_singleton, or_assoc]
  refine ⟨fun b' hb' => mem_append_left _ (h.sub hb'), ?_, ?_, by rw [hused]; exact ha.ok⟩
  · exact forall_mem_append.mpr ⟨h.fresh, forall_mem_singleton.mpr (.inr fun hu => ha.unused (.inl hu))⟩
  · intro b' hb'
    rw [mem_append, mem_singleton, not_or] at hb'
    rw [ha.frame b' hb'.2, h.frame b' hb'.1]

end

end RadvXclipse.RadvAmdgpu
