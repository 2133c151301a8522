import RadvXclipse.Lib.Holders
import RadvXclipse.Winsys.CsSystem

/-!
# Who holds an IB

Finalizing moves the current IB of a stream into its array, growing takes another from the winsys
cache or creates it, and a reset takes one back and parks or destroys the rest. Whatever the order,
and however many streams there are, an IB that was obtained is in one place until it is destroyed:
the current IB of a stream, an entry of a stream's array, or an entry of the cache. Streams of every
kind take part, also those that do not chain.
-/

namespace RadvXclipse.RadvAmdgpu

open Lib Util List Function Option Sys

/-- `radv_amdgpu_cs_destroy` -/
def csDestroy (s : St) : Ws :=
  s.cs.ibBuffers.foldl (fun ws ib => ws.bufferDestroy (some ib.bo)) (s.ws.bufferDestroy s.cs.ibBuffer)

/-- The BOs in the cache. -/
def Ws.cached (ws : Ws) : List BoId := ws.ibCache.map Prod.fst

/-! ## Exchanges between a stream and the cache -/

/-- A stream that held `own` holds `own'` afterwards. Between them the stream and the cache hold
part of what they held before and of the `new` BOs, and what they no longer hold was destroyed. -/
structure Exchange (new : List BoId) (ws : Ws) (own : List BoId) (ws' : Ws) (own' : List BoId) :
    Prop where
  subperm : (own' ++ ws'.cached).Subperm (own ++ ws.cached ++ new)
  live : ∀ b, (ws'.bos b).isSome = true ↔ ((ws.bos b).isSome = true ∨ b ∈ new) ∧
    (b ∈ own ++ ws.cached ++ new → b ∈ own' ++ ws'.cached)
  room : ws.ibCache.length ≤ 64 → ws'.ibCache.length ≤ 64

namespace Exchange

variable {new : List BoId} {ws ws1 ws2 : Ws} {own own1 own2 : List BoId}

lemma trans (h : Exchange new ws own ws1 own1) (h' : Exchange [] ws1 own1 ws2 own2) :
    Exchange new ws own ws2 own2 := by
  have hsub' : (own2 ++ ws2.cached).Subperm (own1 ++ ws1.cached) := by
    simpa using h'.subperm
  refine ⟨hsub'.trans h.subperm, fun b => ?_, fun hroom => h'.room (h.room hroom)⟩
  have hdown : b ∈ own2 ++ ws2.cached → b ∈ own1 ++ ws1.cached := fun hb => hsub'.subset hb
  have hdown' : b ∈ own1 ++ ws1.cached → b ∈ own ++ ws.cached ++ new := fun hb => h.subperm.subset hb
  rw [h'.live b, h.live b, append_nil]
  simp only [not_mem_nil, or_false]
  constructor
  · rintro ⟨⟨hlive, hin⟩, hin'⟩
    exact ⟨hlive, fun hb => hin' (hin hb)⟩
  · rintro ⟨hlive, hin⟩
    exact ⟨⟨hlive, fun hb => hdown (hin hb)⟩, fun hb => hin (hdown' hb)⟩

lemma nodup (h : Exchange [] ws own ws1 own1) (hnodup : (own ++ ws.cached).Nodup) :
    (own1 ++ ws1.cached).Nodup := by
  obtain ⟨l, hperm, hl⟩ := h.subperm
  rw [append_nil] at hl
  exact hperm.nodup_iff.mp (hl.nodup hnodup)

/-- What was held changes hands, and nothing is destroyed. -/
theorem of_perm (hperm : (own1 ++ ws1.cached).Perm (own ++ ws.cached))
    (hlive : ∀ b, (ws1.bos b).isSome = (ws.bos b).isSome)
    (hroom : ws.ibCache.length ≤ 64 → ws1.ibCache.length ≤ 64) : Exchange [] ws own ws1 own1 := by
  refine ⟨?_, fun b => ?_, hroom⟩
  · rw [append_nil]
    exact hperm.subperm
  · rw [hlive b, append_nil, hperm.mem_iff]
    simp

theorem park {b : BoId} {size : ℕ} (hroom : ws.ibCache.length < 64) :
    Exchange [] ws (b :: own) { ws with ibCache := ws.ibCache ++ [(b, size)] } own := by
  refine .of_perm ?_ (fun _ => rfl) fun _ => ?_
  · rw [Ws.cached, map_append, ← append_assoc, cons_append]
    exact perm_append_singleton b _
  · rw [length_append, length_singleton]
    exact hroom

theorem destroy {b : BoId} (hb : b ∉ own ++ ws.cached) :
    Exchange [] ws (b :: own) (ws.bufferDestroy (some b)) own := by
  have hcached : (ws.bufferDestroy (some b)).cached = ws.cached := rfl
  refine ⟨?_, fun b' => ?_, id⟩
  · rw [hcached, append_nil, cons_append]
    exact (sublist_cons_self b _).subperm
  · rw [hcached, append_nil, cons_append, mem_cons]
    by_cases heq : b' = b
    · subst heq
      simp [Ws.bufferDestroy, hb]
    · simp [Ws.bufferDestroy, heq]

/-- A BO that did not exist joins the end of what the stream holds. -/
theorem create {n : BoId} (bo : Bo) :
    Exchange [n] ws own { ws with bos := update ws.bos n (some bo) } (own ++ [n]) := by
  have hcached : Ws.cached { ws with bos := update ws.bos n (some bo) } = ws.cached := rfl
  refine ⟨?_, fun b => ?_, id⟩
  · rw [hcached, append_assoc, append_assoc]
    exact (perm_append_comm.append_left own).subperm
  · rw [hcached]
    by_cases heq : b = n
    · subst heq
      simp
    · simp [heq]

end Exchange

/-- Only the contents of BOs differ; a store outside of them stays on record. -/
structure Ws.Alike (ws ws' : Ws) : Prop where
  shape : ∀ b, (ws'.bos b).map (fun bo => (bo.va, bo.size)) =
    (ws.bos b).map fun bo => (bo.va, bo.size)
  ibCache : ws'.ibCache = ws.ibCache
  badStore : ws.badStore = true → ws'.badStore = true

lemma Ws.Alike.refl (ws : Ws) : ws.Alike ws := ⟨fun _ => rfl, rfl, id⟩

lemma Ws.Alike.trans {ws ws1 ws2 : Ws} (h : ws.Alike ws1) (h' : ws1.Alike ws2) : ws.Alike ws2 :=
  ⟨fun b => (h'.shape b).trans (h.shape b), h'.ibCache.trans h.ibCache,
    fun hbad => h'.badStore (h.badStore hbad)⟩

theorem Ws.Alike.live {ws ws' : Ws} (h : ws.Alike ws') (b : BoId) :
    (ws'.bos b).isSome = (ws.bos b).isSome := by
  rw [← isSome_map (f := fun bo : Bo => (bo.va, bo.size)), h.shape b, isSome_map]

lemma Ws.Alike.cached {ws ws' : Ws} (h : ws.Alike ws') : ws'.cached = ws.cached :=
  congrArg (List.map Prod.fst) h.ibCache

lemma Ws.Alike.exchange {ws ws' : Ws} (h : ws.Alike ws') (own : List BoId) :
    Exchange [] ws own ws' own :=
  .of_perm (by rw [h.cached]) h.live fun hroom => h.ibCache ▸ hroom

lemma Ws.Alike.exchange_after {new own own2 : List BoId} {ws ws1 ws2 : Ws} (h : ws.Alike ws1)
    (h' : Exchange new ws1 own ws2 own2) : Exchange new ws own ws2 own2 := by
  refine ⟨h.cached ▸ h'.subperm, fun b => ?_, fun hroom => h'.room (h.ibCache ▸ hroom)⟩
  rw [← h.live b, ← h.cached]
  exact h'.live b

lemma Ws.alike_store (ws : Ws) (buf : Option BoId) (idx : ℕ) (v : BitVec 32) :
    ws.Alike (ws.store buf idx v) := by
  unfold Ws.store
  split
  · next b bo hbuf =>
    split_ifs
    · refine ⟨fun b' => ?_, rfl, id⟩
      dsimp only
      by_cases heq : b' = b
      · subst heq
        obtain ⟨b0, -, hb0⟩ := bind_eq_some_iff.mp hbuf
        obtain ⟨bo', hbo', heq⟩ := map_eq_some_iff.mp hb0
        obtain ⟨rfl, rfl⟩ := Prod.mk.inj heq
        rw [update_self, hbo']
        rfl
      · rw [update_of_ne heq]
    · exact ⟨fun _ => rfl, rfl, fun _ => rfl⟩
  · exact ⟨fun _ => rfl, rfl, fun _ => rfl⟩

/-- The operation writes, but neither the stream nor the cache change what they hold. -/
structure St.Alike (s s' : St) : Prop where
  ws : s.ws.Alike s'.ws
  ibBuffer : s'.cs.ibBuffer = s.cs.ibBuffer
  ibBuffers : s'.cs.ibBuffers = s.cs.ibBuffers

namespace St.Alike

lemma refl (s : St) : s.Alike s := ⟨.refl _, rfl, rfl⟩

lemma trans {s s1 s2 : St} (h : s.Alike s1) (h' : s1.Alike s2) : s.Alike s2 :=
  ⟨h.ws.trans h'.ws, h'.ibBuffer.trans h.ibBuffer, h'.ibBuffers.trans h.ibBuffers⟩

lemma owned {s s' : St} (h : s.Alike s') : s'.cs.owned = s.cs.owned := by
  rw [Cs.owned, h.ibBuffer, h.ibBuffers, Cs.owned]

lemma exchange {s s' : St} (h : s.Alike s') : Exchange [] s.ws s.cs.owned s'.ws s'.cs.owned := by
  rw [h.owned]
  exact h.ws.exchange _

end St.Alike

/-! ## The operations that only write -/

section Alike

variable (info : Info) (s : St)

lemma alike_radeonEmitUnchecked (v : BitVec 32) : s.Alike (radeonEmitUnchecked s v) :=
  ⟨Ws.alike_store .., rfl, rfl⟩

lemma alike_emitNopLoop (nop : BitVec 32) (n : ℕ) : s.Alike (emitNopLoop nop n s) := by
  induction n generalizing s with
  | zero => exact .refl s
  | succ n ih => exact (alike_radeonEmitUnchecked s nop).trans (ih _)

lemma alike_csEmitNops (numDw : ℕ) : s.Alike (csEmitNops info s numDw) := by
  unfold csEmitNops
  split_ifs
  · exact .refl s
  · exact (alike_radeonEmitUnchecked s _).trans ⟨.refl _, rfl, rfl⟩
  · exact alike_emitNopLoop s _ _

lemma alike_winsysCsPad (leaveDwSpace : ℕ) : s.Alike (winsysCsPad info s leaveDwSpace) := by
  simp only [winsysCsPad]
  split_ifs
  · exact .refl s
  · exact .refl s
  · exact alike_csEmitNops info s _
  · exact alike_csEmitNops info s _
  · exact .refl s

lemma alike_orSizePtr (v : BitVec 32) : s.Alike (s.orSizePtr v) := by
  unfold St.orSizePtr
  split
  · exact ⟨.refl _, rfl, rfl⟩
  · exact ⟨Ws.alike_store .., rfl, rfl⟩

lemma alike_csClose : s.Alike (csClose info s) := by
  unfold csClose
  split_ifs
  · exact ((alike_winsysCsPad info s 4).trans (alike_csEmitNops info _ 4)).trans (alike_orSizePtr _ _)
  · exact alike_winsysCsPad info s 0

lemma alike_csAddBuffer (b : Option BoId) : s.Alike (csAddBuffer s b) := by
  obtain ⟨l, hl⟩ := csAddBuffer_eq s b
  rw [hl]
  exact ⟨.refl _, rfl, rfl⟩

lemma alike_linkNewIb : s.Alike (linkNewIb s) :=
  ⟨(((Ws.alike_store ..).trans (Ws.alike_store ..)).trans (Ws.alike_store ..)).trans (Ws.alike_store ..), rfl, rfl⟩

end Alike

/-! ## Finalizing, growing, resetting and destroying -/

section

variable {s s' : Sys} {b : BoId} {n : NewBo} {t : St} {c : CsId} {ws0 : Ws} (info : Info)

/-- Finalizing moves the current IB to the end of the array. -/
theorem csFinalize_holds {s : St} (hb : s.cs.ibBuffer = some b) :
    s.ws.Alike (csFinalize info s).ws ∧ (csFinalize info s).cs.owned = s.cs.owned := by
  have hclose := alike_csClose info s
  refine ⟨hclose.ws, ?_⟩
  simp [csFinalize, csAddIbBuffer, Cs.owned, hclose.ibBuffer, hclose.ibBuffers, hb]

/-- An IB comes from the cache, or it is new. -/
theorem Obtains.exchange {ws ws' : Ws} {size : ℕ} (h : Obtains ws (some n) size ws' b) (own : List BoId) :
    ∃ new, (new = [] ∨ new = [n.id]) ∧ Exchange new ws own ws' (own ++ [b]) := by
  cases h with
  | cached hperm =>
    refine ⟨[], .inl rfl, .of_perm ?_ (fun _ => rfl) fun hroom => ?_⟩
    · have hfst : ws.cached.Perm (b :: _) := hperm.map Prod.fst
      rw [append_assoc]
      exact hfst.symm.append_left _
    · rw [hperm.length_eq] at hroom
      exact Nat.le_of_succ_le hroom
  | created hn =>
    cases hn
    exact ⟨[n.id], .inr rfl, .create _⟩

/-- After a successful creation the rest of a grow only writes. -/
theorem alike_growTail (ibSize : ℕ) {s : St} (hb : s.cs.ibBuffer = some b) :
    s.Alike (growTail ibSize .success true s) := by
  have hmapped : s.Alike { s with cs := { s.cs with ibMapped := s.cs.ibBuffer } } :=
    ⟨.refl _, rfl, rfl⟩
  have hadd := hmapped.trans (alike_csAddBuffer _ s.cs.ibBuffer)
  have hsome : s.cs.ibBuffer.isNone = false := by
    rw [hb]
    rfl
  simp only [growTail, ne_eq, not_true_eq_false, if_false, if_true, hsome, Bool.false_eq_true]
  split_ifs
  · exact (hadd.trans (alike_linkNewIb _)).trans ⟨.refl _, rfl, rfl⟩
  · exact hadd.trans ⟨.refl _, rfl, rfl⟩

/-- What a stream without a current IB holds when it gets one. -/
theorem owned_of_none {cs : Cs} (h : cs.ibBuffer = none) (b : BoId) :
    Cs.owned { cs with ibBuffer := some b } = cs.owned ++ [b] := by
  rw [Cs.owned, Cs.owned, h]
  simp

/-- A grow of a stream without an error, up to what the kernel gives. -/
theorem csGrow_eq {s : St} (minSize : ℕ) (n : NewBo) (hstatus : s.cs.status = .success) :
    let size := growIbSize info (csFinalize info s).cs minSize
    ∃ ws b, csGrow info s minSize (some n) true =
        growTail size .success true ⟨ws, { (csFinalize info s).cs with ibBuffer := some b }⟩ ∧
      Obtains (csFinalize info s).ws (some n) size ws b ∧
      St.Alike ⟨ws, { (csFinalize info s).cs with ibBuffer := some b }⟩
        (csGrow info s minSize (some n) true) := by
  intro size
  obtain ⟨ws, b, hcreate, hobtains⟩ :=
    csBoCreate_eq info (csFinalize info s) size (canObtain_some info _ size n)
  have heq : csGrow info s minSize (some n) true =
      growTail size .success true ⟨ws, { (csFinalize info s).cs with ibBuffer := some b }⟩ := by
    simp only [csGrow, hstatus, ne_eq, not_true_eq_false, if_false, size, hcreate]
  exact ⟨ws, b, heq, hobtains, heq ▸ alike_growTail size rfl⟩

lemma exchange_csGrow {s : St} (minSize : ℕ) (n : NewBo) (hb : s.cs.ibBuffer = some b) :
    ∃ new, (new = [] ∨ new = [n.id]) ∧
      Exchange new s.ws s.cs.owned (csGrow info s minSize (some n) true).ws
        (csGrow info s minSize (some n) true).cs.owned := by
  by_cases hstatus : s.cs.status = .success
  · obtain ⟨halike, howned⟩ := csFinalize_holds info hb
    obtain ⟨ws1, b1, -, hobtains, htail⟩ := csGrow_eq info minSize n hstatus
    obtain ⟨new, hnew, hex⟩ := hobtains.exchange (csFinalize info s).cs.owned
    refine ⟨new, hnew, ?_⟩
    rw [← howned]
    refine halike.exchange_after (Exchange.trans ?_ htail.exchange)
    rw [owned_of_none (show (csFinalize info s).cs.ibBuffer = none from rfl)]
    exact hex
  · refine ⟨[], .inl rfl, ?_⟩
    have halike : s.Alike (csGrow info s minSize (some n) true) := by
      rw [csGrow, if_pos hstatus]
      exact ⟨.refl _, rfl, rfl⟩
    exact halike.exchange

lemma exchange_csCreate {ws : Ws} {ip : IpType} {isSecondary : Bool}
    (h : csCreate info ws ip isSecondary (some n) true = some t) :
    ∃ new, (new = [] ∨ new = [n.id]) ∧ Exchange new ws [] t.ws t.cs.owned := by
  simp only [csCreate] at h
  generalize hcs : (Cs.mk ..) = cs at h
  obtain ⟨ws1, b, hcreate, hobtains⟩ := csBoCreate_eq info ⟨ws, cs⟩ _ (canObtain_some info ws _ n)
  obtain ⟨new, hnew, hex⟩ := hobtains.exchange cs.owned
  have hempty : cs.owned = [] := by
    rw [← hcs]
    rfl
  have hnone : cs.ibBuffer = none := by
    rw [← hcs]
  rw [hcreate] at h
  simp only [ne_eq, not_true_eq_false, if_false, Bool.not_true, Bool.false_eq_true, Option.some.injEq] at h
  have hmapped : St.Alike ⟨ws1, { cs with ibBuffer := some b }⟩ t := by
    rw [← h]
    refine St.Alike.trans ?_ (alike_csAddBuffer _ _)
    exact ⟨.refl _, rfl, rfl⟩
  refine ⟨new, hnew, Exchange.trans ?_ hmapped.exchange⟩
  rw [owned_of_none hnone]
  simpa only [hempty] using hex

/-- A reset parks what fits into the cache and destroys the rest. -/
theorem exchange_resetIbs (ibs : List Ib) (keep : List BoId) (ws : Ws)
    (h : (ibs.map Ib.bo ++ keep ++ ws.cached).Nodup) :
    Exchange [] ws (ibs.map Ib.bo ++ keep) (resetIbs info ibs ws) keep := by
  induction ibs generalizing ws with
  | nil => exact (Ws.Alike.refl ws).exchange keep
  | cons ib ibs ih =>
    have hib : ib.bo ∉ ibs.map Ib.bo ++ keep ++ ws.cached := (nodup_cons.mp h).1
    have hex : ∃ ws1, resetIbs info (ib :: ibs) ws = resetIbs info ibs ws1 ∧
        Exchange [] ws (ib.bo :: (ibs.map Ib.bo ++ keep)) ws1 (ibs.map Ib.bo ++ keep) := by
      simp only [resetIbs]
      split
      · next entries hparked =>
        have hput : ibCachePut ws.ibCache ib.bo (((ws.bos ib.bo).map Bo.size).getD 0) = some entries := by
          split_ifs at hparked
          exact hparked
        unfold ibCachePut at hput
        split_ifs at hput with hroom
        obtain rfl := Option.some.inj hput
        exact ⟨_, rfl, .park hroom⟩
      · exact ⟨_, rfl, .destroy hib⟩
    obtain ⟨ws1, heq, hex⟩ := hex
    rw [heq]
    exact hex.trans (ih ws1 (hex.nodup h))

lemma owned_restoreLastIb {s : St} (h : s.cs.ibBuffer = none) :
    s.ws.Alike (restoreLastIb s).ws ∧ (restoreLastIb s).cs.owned = s.cs.owned := by
  unfold restoreLastIb
  split
  · next ib hlast =>
    refine ⟨.refl _, ?_⟩
    obtain ⟨init, hinit⟩ := getLast?_eq_some_iff.mp hlast
    simp [Cs.owned, h, hinit]
  · exact ⟨⟨fun _ => rfl, rfl, id⟩, rfl⟩

lemma exchange_csReset {s : St} (h : (s.cs.owned ++ s.ws.cached).Nodup) :
    Exchange [] s.ws s.cs.owned (csReset info s).ws (csReset info s).cs.owned := by
  -- the stream with its last IB taken back, and its buffer list emptied
  have hstart : ∃ t : St, s.ws.Alike t.ws ∧ t.cs.owned = s.cs.owned ∧
      (csReset info s).ws = resetIbs info t.cs.ibBuffers t.ws ∧
      (csReset info s).cs.owned = t.cs.ibBuffer.toList := by
    simp only [csReset]
    generalize hu : (St.mk s.ws _ : St) = u
    have halike : s.Alike u := by
      rw [← hu]
      exact ⟨.refl _, rfl, rfl⟩
    generalize hv : (if s.cs.ibBuffer.isNone then restoreLastIb u else u) = v
    have hrestore : s.ws.Alike v.ws ∧ v.cs.owned = s.cs.owned := by
      rw [← hv]
      split_ifs with hnone
      · have hnone' : u.cs.ibBuffer = none :=
          halike.ibBuffer.trans (isNone_iff_eq_none.mp hnone)
        obtain ⟨hws, howned⟩ := owned_restoreLastIb hnone'
        exact ⟨halike.ws.trans hws, howned.trans halike.owned⟩
      · exact ⟨halike.ws, halike.owned⟩
    have hadd := alike_csAddBuffer v v.cs.ibBuffer
    exact ⟨_, hrestore.1.trans hadd.ws, hadd.owned.trans hrestore.2, rfl, by simp [Cs.owned]⟩
  obtain ⟨t, halike, howned, hws, hcs⟩ := hstart
  rw [hws, hcs, ← howned]
  refine halike.exchange_after (exchange_resetIbs info t.cs.ibBuffers t.cs.ibBuffer.toList t.ws ?_)
  rwa [← howned, ← halike.cached] at h

lemma exchange_destroyAll (own : List BoId) (ws : Ws) (h : (own ++ ws.cached).Nodup) :
    Exchange [] ws own (own.foldl (fun ws b => ws.bufferDestroy (some b)) ws) [] := by
  induction own generalizing ws with
  | nil => exact (Ws.Alike.refl ws).exchange []
  | cons b own ih =>
    have hex : Exchange [] ws (b :: own) (ws.bufferDestroy (some b)) own := .destroy (nodup_cons.mp h).1
    exact hex.trans (ih _ (hex.nodup h))

/-- Destroying a stream destroys what it holds, the current IB first. -/
theorem exchange_csDestroy {s : St} (h : (s.cs.owned ++ s.ws.cached).Nodup) :
    Exchange [] s.ws s.cs.owned (csDestroy s) [] := by
  have hswap : Exchange [] s.ws s.cs.owned s.ws
      (s.cs.ibBuffer.toList ++ s.cs.ibBuffers.map Ib.bo) :=
    .of_perm (perm_append_comm.append_right _) (fun _ => rfl) id
  have heq : csDestroy s = (s.cs.ibBuffer.toList ++ s.cs.ibBuffers.map Ib.bo).foldl
      (fun ws b => ws.bufferDestroy (some b)) s.ws := by
    rw [csDestroy, foldl_append, foldl_map]
    cases s.cs.ibBuffer <;> rfl
  rw [heq]
  exact hswap.trans (exchange_destroyAll _ _ (hswap.nodup h))

/-! ## The system -/

/-- The operations on streams. -/
inductive OwnerOp
  | create (c : CsId) (ip : IpType) (isSecondary : Bool) (new : NewBo)
  | emit (c : CsId) (needed : ℕ) (value : BitVec 32) (new : NewBo)
  | grow (c : CsId) (minSize : ℕ) (new : NewBo)
  | finalize (c : CsId)
  | reset (c : CsId)
  | destroy (c : CsId)

/-- One operation. Every allocation succeeds, and what `buffer_create` returns is not a BO that is
alive. A stream grows and is finalized only while it has an `ib_buffer`, which both dereference. -/
inductive OwnerStep (info : Info) : Sys → OwnerOp → Sys → Prop
  | create {s : Sys} {c : CsId} {ip : IpType} {isSecondary : Bool} {n : NewBo} {t : St} :
      s.cs c = none → s.ws.bos n.id = none →
      csCreate info s.ws ip isSecondary (some n) true = some t →
      OwnerStep info s (.create c ip isSecondary n) (s.put c t)
  | emit {s : Sys} {c : CsId} {cs : Cs} {needed : ℕ} {v : BitVec 32} {n : NewBo} :
      s.cs c = some cs → cs.ibBuffer ≠ none → s.ws.bos n.id = none →
      OwnerStep info s (.emit c needed v n) (s.put c
        (radeonEmitUnchecked (radeonCheckSpace info ⟨s.ws, cs⟩ needed (some n) true) v))
  | grow {s : Sys} {c : CsId} {cs : Cs} {minSize : ℕ} {n : NewBo} :
      s.cs c = some cs → cs.ibBuffer ≠ none → s.ws.bos n.id = none →
      OwnerStep info s (.grow c minSize n) (s.put c (csGrow info ⟨s.ws, cs⟩ minSize (some n) true))
  | finalize {s : Sys} {c : CsId} {cs : Cs} :
      s.cs c = some cs → cs.ibBuffer ≠ none →
      OwnerStep info s (.finalize c) (s.put c (csFinalize info ⟨s.ws, cs⟩))
  | reset {s : Sys} {c : CsId} {cs : Cs} :
      s.cs c = some cs → OwnerStep info s (.reset c) (s.put c (csReset info ⟨s.ws, cs⟩))
  | destroy {s : Sys} {c : CsId} {cs : Cs} :
      s.cs c = some cs →
      OwnerStep info s (.destroy c) ⟨csDestroy ⟨s.ws, cs⟩, update s.cs c none⟩

/-- What the streams hold, and what the cache holds. -/
def Sys.held (s : Sys) : Option CsId → List BoId
  | none => s.ws.cached
  | some c => s.own c

lemma Sys.own_put (s : Sys) (c : CsId) (t : St) : (s.put c t).own c = t.cs.owned := by
  simp [own, put]

/-- An exchange between stream `c` and the cache, which the other streams do not notice. -/
structure ExchangeBy (c : CsId) (s s' : Sys) : Prop where
  exchange : ∃ new : List BoId, new.Nodup ∧ (∀ b ∈ new, s.ws.bos b = none) ∧
    Exchange new s.ws (s.own c) s'.ws (s'.own c)
  other : ∀ d, d ≠ c → s'.cs d = s.cs d

theorem ExchangeBy.put (hfresh : s.ws.bos n.id = none)
    (h : ∃ new, (new = [] ∨ new = [n.id]) ∧ Exchange new s.ws (s.own c) t.ws t.cs.owned) :
    ExchangeBy c s (s.put c t) := by
  obtain ⟨new, hnew, hex⟩ := h
  refine ⟨⟨new, ?_, ?_, ?_⟩, fun d hd => update_of_ne hd ..⟩
  · rcases hnew with rfl | rfl <;> simp
  · rcases hnew with rfl | rfl <;> simp [hfresh]
  · rw [own_put]
    exact hex

lemma ExchangeBy.put_nil (h : Exchange [] s.ws (s.own c) t.ws t.cs.owned) : ExchangeBy c s (s.put c t) := by
  refine ⟨⟨[], nodup_nil, nofun, ?_⟩, fun d hd => update_of_ne hd ..⟩
  rw [own_put]
  exact h

lemma exchange_radeonCheckSpace {s : St} (needed : ℕ) (n : NewBo) (hb : s.cs.ibBuffer = some b) :
    ∃ new, (new = [] ∨ new = [n.id]) ∧
      Exchange new s.ws s.cs.owned (radeonCheckSpace info s needed (some n) true).ws
        (radeonCheckSpace info s needed (some n) true).cs.owned := by
  by_cases hspace : sub32 s.cs.maxDw s.cs.cdw < needed
  · simp only [radeonCheckSpace, if_pos hspace]
    exact exchange_csGrow info needed n hb
  · simp only [radeonCheckSpace, if_neg hspace]
    exact ⟨[], .inl rfl, (Ws.Alike.refl _).exchange _⟩

lemma OwnerStep.exchangeBy {info : Info} {op : OwnerOp} (h : OwnerStep info s op s')
    (hexcl : Exclusive s.held) : ∃ c, ExchangeBy c s s' := by
  have hnodup : ∀ {c cs}, s.cs c = some cs → (cs.owned ++ s.ws.cached).Nodup := by
    intro c cs hc
    rw [← own_eq hc]
    exact hexcl.nodup_append (i := some c) (k := none) (some_ne_none c)
  cases h with
  | @create c ip isSecondary n t hc hfresh hcreate =>
    refine ⟨c, .put hfresh ?_⟩
    rw [own, hc]
    exact exchange_csCreate info hcreate
  | @emit c cs needed v n hc hb hfresh =>
    obtain ⟨b, hb⟩ := ne_none_iff_exists'.mp hb
    refine ⟨c, .put hfresh ?_⟩
    rw [own_eq hc]
    obtain ⟨new, hnew, hex⟩ := exchange_radeonCheckSpace info (s := ⟨s.ws, cs⟩) needed n hb
    exact ⟨new, hnew, hex.trans (alike_radeonEmitUnchecked _ v).exchange⟩
  | @grow c cs minSize n hc hb hfresh =>
    obtain ⟨b, hb⟩ := ne_none_iff_exists'.mp hb
    refine ⟨c, .put hfresh ?_⟩
    rw [own_eq hc]
    exact exchange_csGrow info (s := ⟨s.ws, cs⟩) minSize n hb
  | @finalize c cs hc hb =>
    obtain ⟨b, hb⟩ := ne_none_iff_exists'.mp hb
    obtain ⟨halike, howned⟩ := csFinalize_holds info (s := ⟨s.ws, cs⟩) hb
    refine ⟨c, .put_nil ?_⟩
    rw [own_eq hc, howned]
    exact halike.exchange _
  | @reset c cs hc =>
    refine ⟨c, .put_nil ?_⟩
    rw [own_eq hc]
    exact exchange_csReset info (s := ⟨s.ws, cs⟩) (hnodup hc)
  | @destroy c cs hc =>
    refine ⟨c, ⟨[], nodup_nil, (fun _ h => by cases h), ?_⟩, fun d hd => update_of_ne hd ..⟩
    have hnone : own ⟨csDestroy ⟨s.ws, cs⟩, update s.cs c none⟩ c = [] := by
      simp [own]
    rw [own_eq hc, hnone]
    exact exchange_csDestroy (s := ⟨s.ws, cs⟩) (hnodup hc)

/-! ## The invariant -/

/-- Every BO obtained since `ws0` and not destroyed is held, and what is held is alive. -/
structure Owned (ws0 : Ws) (s : Sys) : Prop where
  exclusive : Exclusive s.held
  alive : ∀ i, ∀ b ∈ s.held i, (s.ws.bos b).isSome = true
  held : ∀ b, ws0.bos b = none → (s.ws.bos b).isSome = true → ∃ i, b ∈ s.held i
  room : s.ws.ibCache.length ≤ 64

lemma ExchangeBy.owned (h : ExchangeBy c s s') (hs : Owned ws0 s) : Owned ws0 s' := by
  obtain ⟨⟨new, hnew, hfresh, hex⟩, hother⟩ := h
  have hnot : ∀ b ∈ new, ∀ i, b ∉ s.held i := by
    intro b hb i hi
    have halive := hs.alive i b hi
    rw [hfresh b hb] at halive
    exact absurd halive (by decide)
  have hkeep : ∀ i, i ≠ some c → i ≠ none → s'.held i = s.held i := by
    rintro (_ | d) hd hnone
    · exact absurd rfl hnone
    · have hdc : d ≠ c := fun heq => hd (congrArg some heq)
      simp only [held, own, hother d hdc]
  -- a BO that neither `c` nor the cache holds does not take part
  have houtside : ∀ {i b}, i ≠ some c → i ≠ none → b ∈ s.held i →
      b ∉ s.own c ++ s.ws.cached ++ new := by
    intro i b hi hnone hb hmem
    simp only [mem_append] at hmem
    rcases hmem with (hc | hcached) | hn
    · exact hi (hs.exclusive.eq_of_mem hb (j := some c) hc)
    · exact hnone (hs.exclusive.eq_of_mem hb (j := none) hcached)
    · exact hnot b hn i hb
  refine ⟨?_, ?_, ?_, hex.room hs.room⟩
  · exact hs.exclusive.exchange (i := some c) (k := none) (some_ne_none c) hnew hnot hkeep hex.subperm
  · intro i b hb
    rw [hex.live b]
    by_cases hpart : i = some c ∨ i = none
    · have hafter : b ∈ s'.own c ++ s'.ws.cached := by
        rcases hpart with rfl | rfl
        · exact mem_append_left _ hb
        · exact mem_append_right _ hb
      refine ⟨?_, fun _ => hafter⟩
      have hbefore := hex.subperm.subset hafter
      simp only [mem_append] at hbefore
      rcases hbefore with (hc | hcached) | hn
      · exact .inl (hs.alive (some c) b hc)
      · exact .inl (hs.alive none b hcached)
      · exact .inr hn
    · rw [not_or] at hpart
      rw [hkeep i hpart.1 hpart.2] at hb
      exact ⟨.inl (hs.alive i b hb), fun hmem => absurd hmem (houtside hpart.1 hpart.2 hb)⟩
  · intro b hb0 hb
    obtain ⟨hsource, hstay⟩ := (hex.live b).mp hb
    by_cases hpart : b ∈ s.own c ++ s.ws.cached ++ new
    · rcases mem_append.mp (hstay hpart) with hc | hcached
      · exact ⟨some c, hc⟩
      · exact ⟨none, hcached⟩
    · rcases hsource with halive | hn
      · obtain ⟨i, hi⟩ := hs.held b hb0 halive
        refine ⟨i, ?_⟩
        rw [hkeep i ?_ ?_]
        · exact hi
        · rintro rfl
          exact hpart (mem_append_left _ (mem_append_left _ hi))
        · rintro rfl
          exact hpart (mem_append_left _ (mem_append_right _ hi))
      · exact absurd (mem_append_right _ hn) hpart

lemma Run.owned {info : Info} (hcache : ws0.ibCache = []) {ops : List OwnerOp}
    (h : Run (OwnerStep info) ⟨ws0, fun _ => none⟩ ops s) : Owned ws0 s := by
  refine h.invariant (I := fun _ s => Owned ws0 s) ?_ ?_
  · have hempty : ∀ i, held ⟨ws0, fun _ => none⟩ i = [] := by
      rintro (_ | c)
      · simp [held, Ws.cached, hcache]
      · simp [held, own]
    refine ⟨⟨fun i => ?_, fun hi => ?_⟩, fun i b hb => ?_, fun b hb0 hb => ?_, ?_⟩
    · rw [hempty i]
      exact nodup_nil
    · rw [hempty] at hi
      exact absurd hi (not_mem_nil)
    · rw [hempty] at hb
      exact absurd hb (not_mem_nil)
    · rw [hb0] at hb
      exact absurd hb (by decide)
    · rw [hcache]
      exact Nat.zero_le _
  · intro _ s a s' hs hstep
    obtain ⟨c, hex⟩ := hstep.exchangeBy hs.exclusive
    exact hex.owned hs

/-! ## Places -/

/-- Where an IB can be. -/
inductive IbPlace
  | current (c : CsId)
  | element (c : CsId) (i : ℕ)
  | cached (i : ℕ)

/-- The BO in a place. -/
def Sys.ibAt (s : Sys) : IbPlace → Option BoId
  | .current c => (s.cs c).bind Cs.ibBuffer
  | .element c i => (s.cs c).bind fun cs => cs.ibBuffers[i]?.map Ib.bo
  | .cached i => s.ws.ibCache[i]?.map Prod.fst

/-- Whose place it is. -/
def IbPlace.holder : IbPlace → Option CsId
  | .current c => some c
  | .element c _ => some c
  | .cached _ => none

/-- The position of a place in the list of its holder: the current IB comes last. -/
def Sys.position (s : Sys) : IbPlace → ℕ
  | .current c => ((s.cs c).map fun cs => cs.ibBuffers.length).getD 0
  | .element _ i => i
  | .cached i => i

variable {p : IbPlace}

lemma Sys.held_position (h : s.ibAt p = some b) : (s.held p.holder)[s.position p]? = some b := by
  cases p with
  | current c =>
    obtain ⟨cs, hc, hb⟩ := bind_eq_some_iff.mp h
    simp [IbPlace.holder, held, own, position, hc, Cs.owned, hb]
  | element c i =>
    obtain ⟨cs, hc, hb⟩ := bind_eq_some_iff.mp h
    have hget : (cs.ibBuffers.map Ib.bo)[i]? = some b := by rw [getElem?_map]; exact hb
    have hi : i < (cs.ibBuffers.map Ib.bo).length := (List.getElem?_eq_some_iff.mp hget).1
    simp only [IbPlace.holder, held, own, position, hc, map_some, getD_some, Cs.owned]
    rw [getElem?_append_left hi]
    exact hget
  | cached i =>
    simp only [IbPlace.holder, held, position, Ws.cached, getElem?_map]
    exact h

lemma Sys.place_eq {q : IbPlace} (hp : s.ibAt p = some b) (hq : s.ibAt q = some b)
    (hholder : p.holder = q.holder) (hposition : s.position p = s.position q) : p = q := by
  -- an entry of the array lies before the position of the current IB
  have hbefore : ∀ {c i}, s.ibAt (.element c i) = some b → i < s.position (.current c) := by
    intro c i h
    obtain ⟨cs, hc, hb⟩ := bind_eq_some_iff.mp h
    obtain ⟨ib, hib, -⟩ := map_eq_some_iff.mp hb
    simp only [position, hc, map_some, getD_some]
    exact (List.getElem?_eq_some_iff.mp hib).1
  cases p with
  | current c =>
    cases q with
    | current d => exact congrArg _ (Option.some.inj hholder)
    | element d i =>
      obtain rfl := Option.some.inj hholder
      have hlt := hbefore hq
      rw [hposition] at hlt
      exact absurd hlt (lt_irrefl i)
    | cached i => exact absurd hholder (some_ne_none c)
  | element c i =>
    cases q with
    | current d =>
      obtain rfl := Option.some.inj hholder
      have hlt := hbefore hp
      rw [← hposition] at hlt
      exact absurd hlt (lt_irrefl i)
    | element d j =>
      obtain rfl := Option.some.inj hholder
      exact congrArg _ hposition
    | cached j => exact absurd hholder (some_ne_none c)
  | cached i =>
    cases q with
    | current d => exact absurd hholder.symm (some_ne_none d)
    | element d j => exact absurd hholder.symm (some_ne_none d)
    | cached j => exact congrArg _ hposition

lemma Sys.exists_place {i : Option CsId} (h : b ∈ s.held i) : ∃ p, s.ibAt p = some b := by
  cases i with
  | none =>
    obtain ⟨i, hi⟩ := mem_iff_getElem?.mp h
    rw [held, Ws.cached, getElem?_map] at hi
    exact ⟨.cached i, hi⟩
  | some c =>
    cases hc : s.cs c with
    | none => simp [held, own, hc] at h
    | some cs =>
      rw [held, own_eq hc, Cs.owned] at h
      rcases mem_append.mp h with harray | hcurrent
      · obtain ⟨i, hi⟩ := mem_iff_getElem?.mp harray
        exact ⟨.element c i, by simpa [ibAt, hc] using hi⟩
      · exact ⟨.current c, by simpa [ibAt, hc] using hcurrent⟩

end

/-- Whatever the streams did, a BO that was obtained for an IB is in exactly one place unless it
was destroyed, no BO is in two places, a BO in a place was not destroyed, and the cache holds at
most its 64 entries. -/
theorem placed_of_run {info : Info} {ws0 : Ws} (hcache : ws0.ibCache = []) {ops : List OwnerOp}
    {s : Sys} (h : Run (OwnerStep info) ⟨ws0, fun _ => none⟩ ops s) :
    (∀ b, ws0.bos b = none → s.ws.bos b ≠ none → ∃! p, s.ibAt p = some b) ∧
      (∀ p q b, s.ibAt p = some b → s.ibAt q = some b → p = q) ∧
      (∀ p b, s.ibAt p = some b → s.ws.bos b ≠ none) ∧ s.ws.ibCache.length ≤ 64 := by
  have howned := Run.owned hcache h
  have hunique : ∀ p q b, s.ibAt p = some b → s.ibAt q = some b → p = q := by
    intro p q b hp hq
    obtain ⟨hholder, hposition⟩ := howned.exclusive.position_eq (s.held_position hp) (s.held_position hq)
    exact s.place_eq hp hq hholder hposition
  refine ⟨fun b hb0 hb => ?_, hunique, fun p b hp => ?_, howned.room⟩
  · obtain ⟨i, hi⟩ := howned.held b hb0 (isSome_iff_ne_none.mpr hb)
    obtain ⟨p, hp⟩ := s.exists_place hi
    exact ⟨p, hp, fun q hq => hunique q p b hq hp⟩
  · have hmem : b ∈ s.held p.holder := mem_of_getElem? (s.held_position hp)
    exact isSome_iff_ne_none.mp (howned.alive _ b hmem)

/-- The first stream after a grow, finalized, and after a reset. -/
def exampleFull : St := csGrow exampleInfo exampleFirst 1 (some (exampleNewBo 1)) true

def exampleDone : St := csFinalize exampleInfo exampleFull

def exampleReset : St := csReset exampleInfo exampleDone

/-- A stream that is created then. -/
def exampleReused : St :=
  (csCreate exampleInfo exampleReset.ws .gfx false (some (exampleNewBo 2)) true).get rfl

/-- What the steps of the two streams ask for and lead to. -/
theorem exampleOwners : ∃ first full done reset reused : St,
    csCreate exampleInfo emptyWs .gfx false (some (exampleNewBo 0)) true = some first ∧
    csGrow exampleInfo first 1 (some (exampleNewBo 1)) true = full ∧
    csFinalize exampleInfo full = done ∧ csReset exampleInfo done = reset ∧
    csCreate exampleInfo reset.ws .gfx false (some (exampleNewBo 2)) true = some reused ∧
    (first.cs.ibBuffer = some 0 ∧ full.cs.ibBuffer = some 1) ∧
    (first.ws.bos 1 = none ∧ reset.ws.bos 2 = none) ∧
    reused.cs.ibBuffer = some 0 ∧ (csDestroy ⟨reused.ws, reset.cs⟩).bos 0 ≠ none ∧
    (csDestroy ⟨reused.ws, reset.cs⟩).bos 1 = none :=
  ⟨exampleFirst, exampleFull, exampleDone, exampleReset, exampleReused, rfl, rfl, rfl, rfl, rfl,
    ⟨rfl, rfl⟩, ⟨rfl, rfl⟩, rfl, some_ne_none _, rfl⟩

/-- A stream grows, is finalized and reset, which puts its first IB into the cache; a second stream
takes that IB from there, and the first one is destroyed. -/
theorem placed_of_run_reused : ∃ ops s,
    Run (OwnerStep exampleInfo) ⟨emptyWs, fun _ => none⟩ ops s ∧ s.ibAt (.current 1) = some 0 ∧
    s.ws.bos 1 = none ∧ ∃! p, s.ibAt p = some 0 := by
  obtain ⟨first, full, done, reset, reused, hfirst, hfull, hdone, hreset, hreused, ⟨hbuf1, hbuf2⟩,
    ⟨hnew1, hnew2⟩, hcurrent, halive, hgone⟩ := exampleOwners
  let s0 : Sys := ⟨emptyWs, fun _ => none⟩
  let s1 := s0.put 0 first
  let s2 := s1.put 0 full
  let s3 := s2.put 0 done
  let s4 := s3.put 0 reset
  let s5 := s4.put 1 reused
  have h1 : OwnerStep exampleInfo s0 (.create 0 .gfx false (exampleNewBo 0)) s1 :=
    .create rfl rfl hfirst
  have h2 : OwnerStep exampleInfo s1 (.grow 0 1 (exampleNewBo 1)) (s1.put 0 full) :=
    hfull ▸ .grow rfl (by simp [hbuf1]) hnew1
  have h3 : OwnerStep exampleInfo s2 (.finalize 0) (s2.put 0 done) :=
    hdone ▸ .finalize rfl (by simp [hbuf2])
  have h4 : OwnerStep exampleInfo s3 (.reset 0) (s3.put 0 reset) := hreset ▸ .reset rfl
  have h5 : OwnerStep exampleInfo s4 (.create 1 .gfx false (exampleNewBo 2)) s5 :=
    .create rfl hnew2 hreused
  have h6 : OwnerStep exampleInfo s5 (.destroy 0) _ := .destroy rfl
  have hrun := (((((Run.nil.snoc h1).snoc h2).snoc h3).snoc h4).snoc h5).snoc h6
  exact ⟨_, _, hrun, hcurrent, hgone, (placed_of_run rfl hrun).1 0 rfl halive⟩

end RadvXclipse.RadvAmdgpu
