import Mathlib.Algebra.Order.BigOperators.Group.List
import Mathlib.Data.List.Nodup
import RadvXclipse.Winsys.BoSystem

/-!
# Who owns a BO

The cache is a bounded array with an exact byte count, and every BO object is in one place: held by
a caller or a call under way, parked, or freed. Both are invariants of all interleavings.
-/

namespace RadvXclipse.BoCache

open Lib Util List Function Option Nat

/-! ## What the cache operations do -/

/-- Objects differ at most in what does not matter for the cache. -/
structure SameBos (s s' : Process) : Prop where
  nextBo : s'.nextBo = s.nextBo
  freed : s'.freed = s.freed
  dying : s'.dying = s.dying
  size : ∀ b, (s'.bo b).size = (s.bo b).size
  isVirtual : ∀ b, (s'.bo b).isVirtual = (s.bo b).isVirtual

lemma SameBos.refl (s : Process) : SameBos s s := ⟨rfl, rfl, rfl, fun _ => rfl, fun _ => rfl⟩

lemma SameBos.update {s s' : Process} (h : SameBos s s') (b : BoId) (bo : Bo)
    (hsize : bo.size = (s'.bo b).size) (hvirtual : bo.isVirtual = (s'.bo b).isVirtual) :
    SameBos s { s' with bo := update s'.bo b bo } := by
  refine ⟨h.nextBo, h.freed, h.dying, ?_, ?_⟩
  · apply (forall_update_iff _ fun c (x : Bo) => x.size = (s.bo c).size).mpr
    exact ⟨hsize.trans (h.size b), fun c _ => h.size c⟩
  · apply (forall_update_iff _ fun c (x : Bo) => x.isVirtual = (s.bo c).isVirtual).mpr
    exact ⟨hvirtual.trans (h.isVirtual b), fun c _ => h.isVirtual c⟩

/-- The BO was put at the end of the array. -/
structure Parks (s s' : Process) (ws : WsId) (b : BoId) : Prop where
  same : SameBos s s'
  cacheable : ibcacheCacheable (s.bo b) = true
  dying : s.dying ≠ some ws
  room : s.ibcache.length < ibcacheBuckets
  cap : add64 s.ibcacheBytes (s.bo b).size ≤ ibcacheCap
  bytes : s'.ibcacheBytes = add64 s.ibcacheBytes (s.bo b).size
  entry : ∃ e : Entry, e.bo = b ∧ e.ws = ws ∧ e.size = (s.bo b).size ∧ s'.ibcache = s.ibcache ++ [e]

lemma ibcachePark_cases (s : Process) (ws : WsId) (b : BoId) (alignment : ℕ) :
    ibcachePark s ws b alignment = (false, s) ∨
    ∃ s', ibcachePark s ws b alignment = (true, s') ∧ Parks s s' ws b := by
  simp only [ibcachePark]
  split_ifs with hcache hdying hfull hmap
  · exact .inl rfl
  · exact .inl rfl
  · exact .inl rfl
  · rw [not_or, not_le, not_lt] at hfull
    have hsame := (SameBos.refl s).update b { s.bo b with cpuMap := false } rfl rfl
    exact .inr ⟨_, rfl, { hsame with }, by simpa using hcache, hdying, hfull.1, hfull.2, rfl,
      ⟨_, rfl, rfl, rfl, rfl⟩⟩
  · rw [not_or, not_le, not_lt] at hfull
    exact .inr ⟨_, rfl, { SameBos.refl s with }, by simpa using hcache, hdying, hfull.1, hfull.2,
      rfl, ⟨_, rfl, rfl, rfl, rfl⟩⟩

/-- An entry that satisfies `p` left the array. -/
structure Takes (s s' : Process) (p : Entry → Bool) (e : Entry) : Prop where
  same : SameBos s s'
  holds : p e = true
  perm : s.ibcache.Perm (e :: s'.ibcache)
  bytes : s'.ibcacheBytes = sub64 s.ibcacheBytes e.size

section

variable {s s' : Process} {p : Entry → Bool} {e : Entry} {ws : WsId} {b : BoId}

lemma ibcacheTake_cases (s : Process) (p : Entry → Bool) :
    (ibcacheTake s p = (none, s) ∧ ∀ e ∈ s.ibcache, p e = false) ∨
    ∃ e s', ibcacheTake s p = (some e.bo, s') ∧ Takes s s' p e := by
  unfold ibcacheTake
  cases htake : swapTake p s.ibcache with
  | none => exact .inl ⟨rfl, swapTake_none htake⟩
  | some r =>
    obtain ⟨hp, hperm⟩ := swapTake_some htake
    exact .inr ⟨r.1, _, rfl, { SameBos.refl s with }, hp, hperm, rfl⟩

/-- `radv_amdgpu_winsys_bo_create` begins: it fails, goes on, or hands out a parked BO. -/
theorem create_cases (W : WsId → Winsys) (s : Sys) (ws : WsId) (r : Request) (sysfs : Option ℕ) :
    s.create W ws r sysfs = s ∨
    (∃ c : Call, c.ws = ws ∧ c.held = [] ∧ c.ret = none ∧ s.create W ws r sysfs = { s with calls := c :: s.calls }) ∨
    ∃ e proc, e.ws = ws ∧ Takes s.proc proc (fun _ => true) e ∧
      s.create W ws r sysfs = { s with proc := proc, handedOut := e.bo :: s.handedOut } := by
  unfold Sys.create
  split_ifs
  · exact .inr (.inl ⟨_, rfl, rfl, rfl, rfl⟩)
  · exact .inl rfl
  · unfold ibcacheReuse
    split_ifs
    · exact .inr (.inl ⟨_, rfl, rfl, rfl, rfl⟩)
    · rcases ibcacheTake_cases s.proc fun e => e.ws = ws ∧ e.size = r.size ∧ e.alignment = r.alignment ∧
        e.flags = r.flags ∧ e.domain = normaliseDomain (W ws) r.domain with ⟨heq, -⟩ | ⟨e, q, heq, ht⟩
      · simp only [heq]
        exact .inr (.inl ⟨_, rfl, rfl, rfl, rfl⟩)
      · have hws := ht.holds
        simp only [decide_eq_true_eq] at hws
        have hsame := ht.same.update e.bo { q.bo e.bo with priority := r.priority } rfl rfl
        simp only [heq]
        exact .inr (.inr ⟨e, _, hws.1, ⟨hsame, rfl, ht.perm, ht.bytes⟩, rfl⟩)
  · exact .inr (.inl ⟨_, rfl, rfl, rfl, rfl⟩)

/-! ## The array and its byte count -/

structure CacheOk (s : Process) : Prop where
  length : s.ibcache.length ≤ ibcacheBuckets
  bytes : s.ibcacheBytes = (s.ibcache.map Entry.size).sum
  cap : s.ibcacheBytes ≤ ibcacheCap

theorem CacheOk.parks (h : CacheOk s) (hp : Parks s s' ws b)
    (hsize : (s.bo b).size + ibcacheCap < 2 ^ 64) : CacheOk s' := by
  have hcap := h.cap
  have hadd : add64 s.ibcacheBytes (s.bo b).size = s.ibcacheBytes + (s.bo b).size := add64_of_lt (by omega)
  obtain ⟨e, -, -, hes, hcache⟩ := hp.entry
  refine ⟨?_, ?_, ?_⟩
  · rw [hcache, length_append]
    exact hp.room
  · rw [hp.bytes, hadd, hcache, map_append, List.sum_append_nat, ← h.bytes, map_singleton, sum_singleton, hes]
  · rw [hp.bytes]
    exact hp.cap

/-- A parked entry is counted in the bytes, so taking it does not underflow. -/
theorem CacheOk.size_le {s : Process} (h : CacheOk s) {e : Entry} (he : e ∈ s.ibcache) :
    e.size ≤ s.ibcacheBytes := by
  rw [h.bytes]
  exact single_le_sum (fun _ _ => zero_le _) _ (mem_map_of_mem he)

theorem CacheOk.takes (h : CacheOk s) (ht : Takes s s' p e) : CacheOk s' := by
  have hle : e.size ≤ s.ibcacheBytes := h.size_le (ht.perm.mem_iff.mpr mem_cons_self)
  have hcap := h.cap
  have hlt : ibcacheCap < 2 ^ 64 := by decide
  have hsub : sub64 s.ibcacheBytes e.size = s.ibcacheBytes - e.size := sub64_of_le hle (by omega)
  have hlen := ht.perm.length_eq
  have hsum := (ht.perm.map Entry.size).sum_eq
  rw [length_cons] at hlen
  rw [map_cons, sum_cons, ← h.bytes] at hsum
  refine ⟨?_, ?_, ?_⟩
  · exact le_trans (by omega) h.length
  · rw [ht.bytes, hsub]
    omega
  · rw [ht.bytes, hsub]
    omega

/-! ## Places -/

/-- How many callers and calls under way hold the BO. -/
def holdersIn (handedOut : List BoId) (calls : List Call) (b : BoId) : ℕ :=
  handedOut.count b + (calls.flatMap Call.held).count b

def Sys.holders (s : Sys) (b : BoId) : ℕ := holdersIn s.handedOut s.calls b

/-- How many entries of the cache hold the BO. -/
def Process.parked (s : Process) (b : BoId) : ℕ := (s.ibcache.map Entry.bo).count b

/-- How often the BO was freed. -/
def Process.destroyed (s : Process) (b : BoId) : ℕ := s.freed.count b

/-- Everything that refers to the BO. -/
def Sys.places (s : Sys) (b : BoId) : ℕ := s.holders b + s.proc.parked b + s.proc.destroyed b

theorem Parks.parked (h : Parks s s' ws b) (c : BoId) : s'.parked c = s.parked c + [b].count c := by
  obtain ⟨e, hb, -, -, hcache⟩ := h.entry
  rw [Process.parked, hcache, map_append, count_append, map_singleton, hb]
  rfl

theorem Takes.parked (h : Takes s s' p e) (c : BoId) : s.parked c = s'.parked c + [e.bo].count c := by
  rw [Process.parked, (h.perm.map Entry.bo).count_eq, map_cons, count_cons]
  rw [count_singleton]
  rfl

theorem SameBos.destroyed (h : SameBos s s') (b : BoId) : s'.destroyed b = s.destroyed b := by
  rw [Process.destroyed, h.freed]
  rfl

end

section Holders

variable {handedOut : List BoId} {calls : List Call}

lemma holdersIn_handOut (b c : BoId) :
    holdersIn (b :: handedOut) calls c = holdersIn handedOut calls c + [b].count c := by
  unfold holdersIn
  rw [count_cons, count_singleton]
  omega

lemma holdersIn_call (k : Call) (c : BoId) :
    holdersIn handedOut (k :: calls) c = holdersIn handedOut calls c + k.held.count c := by
  unfold holdersIn
  rw [flatMap_cons, count_append]
  omega

lemma holdersIn_takeBack {b : BoId} (h : b ∈ handedOut) (c : BoId) :
    holdersIn handedOut calls c = holdersIn (handedOut.erase b) calls c + [b].count c := by
  rw [← holdersIn_handOut]
  unfold holdersIn
  rw [(perm_cons_erase h).count_eq]

lemma holdersIn_return {k : Call} (h : k ∈ calls) (c : BoId) :
    holdersIn handedOut calls c = holdersIn handedOut (calls.erase k) c + k.held.count c := by
  rw [← holdersIn_call]
  unfold holdersIn
  rw [((perm_cons_erase h).flatMap_right Call.held).count_eq]

end Holders

/-- The invariant of all interleavings. -/
structure SysOk (maxSize : ℕ) (s : Sys) : Prop where
  cache : CacheOk s.proc
  places : ∀ b, s.places b = if b < s.proc.nextBo then 1 else 0
  size : ∀ b < s.proc.nextBo, (s.proc.bo b).isVirtual = false → (s.proc.bo b).size ≤ maxSize

section Steps

variable {W : WsId → Winsys} {maxSize : ℕ} {s s' : Sys}

section

variable (h : SysOk maxSize s)
include h

/-- A step that only moves BOs from one place to another. -/
theorem SysOk.keep (hcache : CacheOk s'.proc) (hnext : s'.proc.nextBo = s.proc.nextBo)
    (hplaces : ∀ b, s'.places b = s.places b)
    (hsize : ∀ b, (s'.proc.bo b).size = (s.proc.bo b).size)
    (hvirtual : ∀ b, (s'.proc.bo b).isVirtual = (s.proc.bo b).isVirtual) : SysOk maxSize s' := by
  refine ⟨hcache, fun b => ?_, fun b hb hv => ?_⟩
  · rw [hplaces, hnext]
    exact h.places b
  · rw [hnext] at hb
    rw [hvirtual] at hv
    rw [hsize]
    exact h.size b hb hv

/-- A step that does not touch the process. -/
theorem SysOk.move (hproc : s'.proc = s.proc) (hholders : ∀ b, s'.holders b = s.holders b) :
    SysOk maxSize s' := by
  refine h.keep ?_ ?_ (fun b => ?_) ?_ ?_
  · rw [hproc]
    exact h.cache
  · rw [hproc]
  · rw [Sys.places, Sys.places, hproc, hholders]
  · intro b
    rw [hproc]
  · intro b
    rw [hproc]

/-- The entry of the cache moves to a holder. -/
theorem SysOk.take {p : Entry → Bool} {e : Entry} (ht : Takes s.proc s'.proc p e)
    (hholders : ∀ b, s'.holders b = s.holders b + [e.bo].count b) : SysOk maxSize s' := by
  refine h.keep (h.cache.takes ht) ht.same.nextBo (fun b => ?_) ht.same.size ht.same.isVirtual
  rw [Sys.places, Sys.places, hholders, ht.parked b, ht.same.destroyed]
  omega

/-- A new object has one holder. -/
theorem SysOk.addBo {bo : Bo} (hproc : s'.proc = s.proc.addBo bo)
    (hsize : bo.isVirtual = false → bo.size ≤ maxSize)
    (hholders : ∀ b, s'.holders b = s.holders b + [s.proc.nextBo].count b) : SysOk maxSize s' := by
  have hcache := h.cache
  refine ⟨?_, fun b => ?_, fun b hb hv => ?_⟩
  · rw [hproc]
    exact ⟨hcache.length, hcache.bytes, hcache.cap⟩
  · have hplaces := h.places b
    rw [Sys.places, hproc, hholders]
    show s.holders b + [s.proc.nextBo].count b + s.proc.parked b + s.proc.destroyed b = _
    rw [Sys.places] at hplaces
    show _ = if b < s.proc.nextBo + 1 then 1 else 0
    by_cases hb : b = s.proc.nextBo
    · subst hb
      rw [if_neg (lt_irrefl _)] at hplaces
      rw [if_pos (lt_succ_self _), count_singleton_self]
      omega
    · rw [count_singleton, if_neg (by simpa using Ne.symm hb)]
      have hiff : b < s.proc.nextBo + 1 ↔ b < s.proc.nextBo :=
        ⟨fun hlt => Nat.lt_of_le_of_ne (le_of_lt_succ hlt) hb, lt_succ_of_lt⟩
      rw [if_congr hiff rfl rfl, ← hplaces]
      omega
  · rw [hproc] at hb hv ⊢
    by_cases hbn : b = s.proc.nextBo
    · subst hbn
      simp only [Process.addBo, update_self] at hv ⊢
      exact hsize hv
    · simp only [Process.addBo, update_of_ne hbn] at hb hv ⊢
      exact h.size b (Nat.lt_of_le_of_ne (le_of_lt_succ hb) hbn) hv

end

theorem SysOk.create (h : SysOk maxSize s) (ws : WsId) (r : Request) (sysfs : Option ℕ) :
    SysOk maxSize (s.create W ws r sysfs) := by
  rcases create_cases W s ws r sysfs with heq | ⟨c, -, hheld, -, heq⟩ | ⟨e, proc, -, ht, heq⟩
  · rw [heq]
    exact h
  · rw [heq]
    refine h.move rfl fun b => ?_
    show holdersIn s.handedOut (c :: s.calls) b = holdersIn s.handedOut s.calls b
    rw [holdersIn_call, hheld, count_nil, add_zero]
  · rw [heq]
    exact h.take ht fun b => holdersIn_handOut e.bo b

/-! ### The calls under way -/

lemma SysOk.ret (h : SysOk maxSize s) (ws : WsId) (ret : Option Point) : SysOk maxSize (s.ret ws ret) := by
  cases ret with
  | none => exact h
  | some p => exact h.move rfl fun _ => rfl

/-- The BO moves from a call to the freed ones. -/
theorem SysOk.free (h : SysOk maxSize s) {b : BoId} (hsame : s'.proc.bo = s.proc.bo)
    (hnext : s'.proc.nextBo = s.proc.nextBo) (hcache : s'.proc.ibcache = s.proc.ibcache)
    (hbytes : s'.proc.ibcacheBytes = s.proc.ibcacheBytes) (hfreed : s'.proc.freed = b :: s.proc.freed)
    (hholders : ∀ c, s.holders c = s'.holders c + [b].count c) : SysOk maxSize s' := by
  refine h.keep ⟨?_, ?_, ?_⟩ hnext (fun c => ?_) (fun c => ?_) fun c => ?_
  · rw [hcache]
    exact h.cache.length
  · rw [hcache, hbytes]
    exact h.cache.bytes
  · rw [hbytes]
    exact h.cache.cap
  · rw [Sys.places, Sys.places, hholders, Process.destroyed, hfreed, Process.parked, hcache,
      count_cons, count_singleton, Process.parked, Process.destroyed]
    omega
  · rw [hsame]
  · rw [hsame]

lemma boFree_fields (p : Process) (w : Winsys) (b : BoId) :
    (boFree p w b).bo = p.bo ∧ (boFree p w b).nextBo = p.nextBo ∧ (boFree p w b).ibcache = p.ibcache ∧
    (boFree p w b).ibcacheBytes = p.ibcacheBytes ∧ (boFree p w b).freed = b :: p.freed ∧
    (boFree p w b).dying = p.dying := by
  simp only [boFree]
  split_ifs <;> exact ⟨rfl, rfl, rfl, rfl, rfl, rfl⟩

section

variable (h : SysOk maxSize s)
include h

/-- The BO moves from a call to the cache. -/
theorem SysOk.park (hmax : maxSize + ibcacheCap < 2 ^ 64) {ws : WsId} {b : BoId}
    (hp : Parks s.proc s'.proc ws b) (hb : 0 < s.holders b)
    (hholders : ∀ c, s.holders c = s'.holders c + [b].count c) : SysOk maxSize s' := by
  -- the object exists and is a kernel BO, so its size is one the kernel can allocate
  have hlt : b < s.proc.nextBo := by
    by_contra hge
    have hplaces := h.places b
    rw [if_neg hge, Sys.places] at hplaces
    omega
  have hvirtual : (s.proc.bo b).isVirtual = false := by
    have hcacheable := hp.cacheable
    unfold ibcacheCacheable at hcacheable
    by_contra hv
    simp [hv] at hcacheable
  have hsize := h.size b hlt hvirtual
  refine h.keep (h.cache.parks hp (by omega)) hp.same.nextBo (fun c => ?_) hp.same.size hp.same.isVirtual
  rw [Sys.places, Sys.places, hholders, hp.parked, hp.same.destroyed]
  omega

lemma SysOk.advance (hmax : maxSize + ibcacheCap < 2 ^ 64) {c : Call} (hc : c ∈ s.calls)
    {ok : Bool} (hok : Call.canAnswer maxSize c ok = true) :
    SysOk maxSize ({ s with calls := s.calls.erase c }.advance W c ok) := by
  have hholders : ∀ b, s.holders b = holdersIn s.handedOut (s.calls.erase c) b + c.held.count b :=
    fun b => holdersIn_return hc b
  have hend : c.held = [] → SysOk maxSize { s with calls := s.calls.erase c } := by
    intro hnil
    refine h.move rfl fun b => ?_
    rw [hholders b, hnil]
    rfl
  cases c with
  | create ws r =>
    cases ok with
    | false => exact hend rfl
    | true =>
      have hsize : r.size ≤ maxSize := by simpa [Call.canAnswer] using hok
      exact (hend rfl).addBo rfl (fun _ => hsize) fun b => holdersIn_call _ b
  | createVirtual ws r =>
    cases ok with
    | false => exact hend rfl
    | true => exact (hend rfl).addBo rfl (fun hv => nomatch hv) fun b => holdersIn_handOut _ b
  | map ws b =>
    cases ok with
    | false => exact h.free (b := b) rfl rfl rfl rfl rfl hholders
    | true =>
      refine h.keep { h.cache with } rfl (fun c => ?_) (fun _ => rfl) fun _ => rfl
      show holdersIn (b :: s.handedOut) _ c + s.proc.parked c + s.proc.destroyed c = _
      rw [Sys.places, hholders c, holdersIn_handOut]
      rfl
  | destroy ws b ret =>
    have hb : 0 < s.holders b := by
      rw [hholders b]
      show 0 < _ + [b].count b
      rw [count_singleton_self]
      exact succ_pos _
    unfold Sys.advance
    rcases ibcachePark_cases s.proc ws b (s.proc.bo b).xclipseAlignment with heq | ⟨p, heq, hp⟩
    · -- refused: the call goes on
      simp only [heq]
      refine h.move rfl fun b' => ?_
      rw [hholders b']
      exact holdersIn_call (.free ws b ret) b'
    · simp only [heq]
      refine SysOk.ret ?_ ws ret
      exact h.park hmax hp hb hholders
  | free ws b ret =>
    refine SysOk.ret ?_ ws ret
    obtain ⟨hbo, hnext, hcache, hbytes, hfreed, -⟩ := boFree_fields s.proc (W ws) b
    exact h.free hbo hnext hcache hbytes hfreed hholders

/-! ### All steps -/

theorem SysOk.purge (ws : WsId) (last : Bool) (iter : ℕ) : SysOk maxSize (s.purge ws last iter) := by
  unfold Sys.purge
  rcases ibcacheTake_cases s.proc fun e => e.ws = ws with ⟨heq, -⟩ | ⟨e, p, heq, ht⟩
  · simp only [heq]
    exact h.move rfl fun _ => rfl
  · simp only [heq]
    exact h.take ht fun b => holdersIn_call _ b

theorem SysOk.step (hmax : maxSize + ibcacheCap < 2 ^ 64) {l : Label}
    (hstep : Step W maxSize s l s') : SysOk maxSize s' := by
  unfold Step at hstep
  -- a BO that a caller gives up is in the call that destroys it
  have hgive : ∀ {b : BoId} (k : Call), k.held = [b] → b ∈ s.handedOut → ∀ c,
      holdersIn (s.handedOut.erase b) (k :: s.calls) c = s.holders c := by
    intro b k hk hb c
    rw [holdersIn_call, hk]
    exact (holdersIn_takeBack hb c).symm
  cases l with
  | create ws r sysfs =>
    cases hstep
    exact h.create ws r sysfs
  | destroy ws b =>
    obtain ⟨hb, rfl⟩ := ite_some_none_eq_some.mp hstep
    exact h.move rfl fun c => hgive _ rfl hb c
  | advance c ok =>
    obtain ⟨hc, rfl⟩ := ite_some_none_eq_some.mp hstep
    exact h.advance hmax hc.1 hc.2
  | beginDestroy ws =>
    obtain ⟨-, rfl⟩ := ite_some_none_eq_some.mp hstep
    exact h.keep { h.cache with } rfl (fun _ => rfl) (fun _ => rfl) fun _ => rfl
  | purge ws =>
    simp only [Sys.step] at hstep
    split at hstep
    · cases hstep
      exact h.purge ws _ _
    · exact nomatch hstep
  | release ws b =>
    obtain ⟨hb, rfl⟩ := ite_some_none_eq_some.mp hstep
    exact h.move rfl fun c => hgive _ rfl hb.2 c
  | endDestroy ws =>
    obtain ⟨-, rfl⟩ := ite_some_none_eq_some.mp hstep
    exact h.move rfl fun _ => rfl
  | clearMarker ws =>
    obtain ⟨-, rfl⟩ := ite_some_none_eq_some.mp hstep
    exact h.keep { h.cache with } rfl (fun _ => rfl) (fun _ => rfl) fun _ => rfl

end

theorem SysOk.init (maxSize : ℕ) (tracker : ℕ → Tracker) : SysOk maxSize (.init tracker) := by
  refine ⟨⟨zero_le _, rfl, zero_le _⟩, fun b => ?_, fun b hb => absurd hb (Nat.not_lt_zero b)⟩
  show 0 = if b < 0 then 1 else 0
  rw [if_neg (Nat.not_lt_zero b)]

end Steps

/-! ## Every interleaving -/

/-- The cache is within its bounds and its byte count is exact, and every BO object is in one
place. -/
structure Owned (s : Sys) : Prop where
  length : s.proc.ibcache.length ≤ 64
  bytes : s.proc.ibcacheBytes = (s.proc.ibcache.map Entry.size).sum
  cap : s.proc.ibcacheBytes ≤ 64 * 1024 * 1024
  /-- taking an entry does not underflow the count -/
  size_le : ∀ e ∈ s.proc.ibcache, e.size ≤ s.proc.ibcacheBytes
  nodup : (s.proc.ibcache.map Entry.bo).Nodup
  /-- an object that was created is held once, parked once or destroyed once -/
  created : ∀ b < s.proc.nextBo, s.holders b + s.proc.parked b + s.proc.destroyed b = 1
  /-- there are no others -/
  uncreated : ∀ b, s.proc.nextBo ≤ b → s.holders b + s.proc.parked b + s.proc.destroyed b = 0

lemma SysOk.owned {maxSize : ℕ} {s : Sys} (h : SysOk maxSize s) : Owned s := by
  have hplaces := h.places
  unfold Sys.places at hplaces
  refine ⟨h.cache.length, h.cache.bytes, h.cache.cap, fun e he => h.cache.size_le he, ?_, ?_, ?_⟩
  · refine nodup_iff_count_le_one.mpr fun b => ?_
    have hb := hplaces b
    show s.proc.parked b ≤ 1
    split_ifs at hb <;> omega
  · intro b hb
    rw [hplaces, if_pos hb]
  · intro b hb
    rw [hplaces, if_neg (not_lt.mpr hb)]

/-- If the kernel allocates no BO of nearly `2 ^ 64` bytes, the cache and the BOs are in order
after any interleaving. -/
theorem owned_of_run {W : WsId → Winsys} {maxSize : ℕ} (hmax : maxSize + 64 * 1024 * 1024 < 2 ^ 64)
    {tracker : ℕ → Tracker} {labels : List Label} {s : Sys}
    (h : Run (Step W maxSize) (.init tracker) labels s) : Owned s := by
  have hok : SysOk maxSize s :=
    h.invariant (I := fun _ s => SysOk maxSize s) (.init maxSize tracker) fun _ _ _ _ hs hstep =>
      hs.step hmax hstep
  exact hok.owned

/-- A winsys without memory of its own. -/
def exampleWinsys : Winsys := ⟨true, 0, 4096, 0⟩

/-- A command buffer of one page. -/
def exampleRequest : Request :=
  ⟨4096, 4096, domainVram, flagNoInterprocessSharing ||| flagXclipseCacheable, 0, 0⟩

/-- A BO is created, parked and handed out again. -/
theorem owned_of_run_reuse : ∃ s,
    exec (Sys.step (fun _ => exampleWinsys) (2 ^ 40)) (.init fun _ => ⟨0, 0, 0⟩)
      [.create 0 exampleRequest none, .advance (.create 0 exampleRequest) true,
        .advance (.map 0 0) true, .destroy 0 0, .advance (.destroy 0 0 none) true,
        .create 0 exampleRequest none] = some s ∧
    (s.handedOut, s.proc.ibcache) = ([0], []) ∧ Owned s := by
  have heval : (exec (Sys.step (fun _ => exampleWinsys) (2 ^ 40)) (.init fun _ => ⟨0, 0, 0⟩)
      [.create 0 exampleRequest none, .advance (.create 0 exampleRequest) true,
        .advance (.map 0 0) true, .destroy 0 0, .advance (.destroy 0 0 none) true,
        .create 0 exampleRequest none]).map (fun s => (s.handedOut, s.proc.ibcache)) =
      some ([0], []) := by decide
  obtain ⟨s, hs, hplaces⟩ := map_eq_some_iff.mp heval
  exact ⟨s, hs, hplaces, owned_of_run (by decide) (run_of_exec hs)⟩

end RadvXclipse.BoCache
