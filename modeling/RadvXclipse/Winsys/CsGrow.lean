import RadvXclipse.Winsys.CsSystem

/-!
# When growing a stream is safe

`radv_amdgpu_cs_grow` does not return when the BO cannot be created or mapped: it restores the
previous IB and falls through into the code for the new one, with `cdw` already zero and with the
size that was not obtained. This file follows one stream of any queue, with or without `chain_ib`,
through every outcome of the creation and of the mapping, and says exactly when a call leaves the
stream coherent.
-/

namespace RadvXclipse.RadvAmdgpu

open Lib Util List Option Nat

/-! ## The largest IB -/

/-- `max_dw` of the largest IB that `radv_amdgpu_cs_grow` asks for. -/
def maxIbDw (info : Info) (ip : IpType) : ℕ := align ibSizeMax (info.ibAlignment ip) / 4 - 4

lemma align_mono (info : Info) (ip : IpType) {v w : ℕ} (h : v ≤ w) (hw : w ≤ 2 ^ 20) :
    align v (info.ibAlignment ip) ≤ align w (info.ibAlignment ip) := by
  obtain ⟨k, -, hk, hpot⟩ := info.ibAlignment_pot ip
  have hpos := Nat.two_pow_pos k
  have hmono := alignUp_mono hpos h
  have hle : alignUp w (2 ^ k) ≤ 2 ^ 21 := alignUp_le_of_dvd hpos (pow_dvd_pow 2 hk) (by omega)
  rw [hpot, align_two_pow (by omega), align_two_pow (by omega), mod_eq_of_lt (by omega),
    mod_eq_of_lt (by omega)]
  exact hmono

/-- A grow never gives more than the largest IB, and gives enough for what fits into that. -/
theorem growIbSize_room (info : Info) (cs : Cs) (minSize : ℕ) :
    growIbSize info cs minSize / 4 - 4 ≤ maxIbDw info cs.hwIp ∧
      (minSize ≤ maxIbDw info cs.hwIp → minSize ≤ growIbSize info cs minSize / 4 - 4) ∧
      (minSize < 2 ^ 20 → maxIbDw info cs.hwIp < minSize →
        growIbSize info cs minSize / 4 - 4 = maxIbDw info cs.hwIp) := by
  have hpos : 0 < ibSizeMax ∧ ibSizeMax ≤ 2 ^ 20 := by decide
  have hgecap := align_ibBytes info cs.hwIp hpos.1 hpos.2
  have hmax : maxIbDw info cs.hwIp + 4 ≤ 2 ^ 19 := hgecap.1.dwords.2.2
  rw [growIbSize, maxIbDw] at *
  generalize hsize : min (max ((minSize * 4 + 16) % 2 ^ 64) _) ibSizeMax = size
  have hmono := align_mono info cs.hwIp (show size ≤ ibSizeMax by omega) hpos.2
  -- either the request decides or the largest size does
  have hcases : minSize < 2 ^ 20 → minSize ≤ align size (info.ibAlignment cs.hwIp) / 4 - 4 ∨
      size = ibSizeMax := by
    intro hmin
    have hge := (align_ibBytes info cs.hwIp (show 0 < size by omega) (by omega)).2
    omega
  refine ⟨by omega, fun h => ?_, fun hmin h => ?_⟩
  · rcases hcases (by omega) with hfit | rfl
    · exact hfit
    · exact h
  · rcases hcases hmin with hfit | rfl
    · omega
    · rfl

lemma le_maxIbDw (info : Info) (ip : IpType) : 2 ^ 17 ≤ maxIbDw info ip := by
  have hge := (align_ibBytes info ip (show 0 < ibSizeMax by decide) (by decide)).2
  have hcap : ibSizeMax = 0xFFFFF := rfl
  rw [maxIbDw]
  omega

lemma maxIbDw_le (info : Info) (ip : IpType) : maxIbDw info ip + 4 ≤ 2 ^ 19 :=
  (align_ibBytes info ip (show 0 < ibSizeMax by decide) (by decide)).1.dwords.2.2

/-! ## What a grow does to the limits -/

section

variable {s : St} (info : Info)

lemma emitNopLoop_cs (nop : BitVec 32) (n : ℕ) (s : St) :
    (emitNopLoop nop n s).cs = { s.cs with cdw := s.cs.cdw + n } := by
  induction n generalizing s with
  | zero => rfl
  | succ n ih =>
    rw [emitNopLoop, ih]
    simp only [radeonEmitUnchecked, add_assoc, add_comm 1 n]

lemma csEmitNops_cs (s : St) (n : ℕ) : (csEmitNops info s n).cs = { s.cs with cdw := s.cs.cdw + n } := by
  unfold csEmitNops
  split_ifs with hzero hlarge
  · rw [hzero]
    rfl
  · simp only [csEmitPkt3Nop, radeonEmitUnchecked, Cs.mk.injEq, and_true]
    omega
  · exact emitNopLoop_cs _ n s

lemma winsysCsPad_cs (s : St) (leaveDwSpace : ℕ) :
    (winsysCsPad info s leaveDwSpace).cs =
      { s.cs with cdw := s.cs.cdw + padCount s.cs.hwIp s.cs.cdw leaveDwSpace } := by
  simp only [winsysCsPad, padCount, and_ipTypeDwPaddingMinus1]
  split_ifs <;> simp [csEmitNops_cs]

/-- Closing an IB only moves `cdw` on and adds to a size. -/
theorem csClose_cs (s : St) : ∃ cdw size, s.cs.cdw ≤ cdw ∧
    (csClose info s).cs = { s.cs with cdw := cdw, ibSize := size } := by
  have hsize : ∀ (t : St) v, ∃ size, (t.orSizePtr v).cs = { t.cs with ibSize := size } := by
    intro t v
    unfold St.orSizePtr
    split
    · exact ⟨_, rfl⟩
    · exact ⟨t.cs.ibSize, rfl⟩
  unfold csClose
  split_ifs
  · have hpad : (csEmitNops info (winsysCsPad info s 4) 4).cs =
        { s.cs with cdw := s.cs.cdw + padCount s.cs.hwIp s.cs.cdw 4 + 4 } := by
      rw [csEmitNops_cs, winsysCsPad_cs]
    obtain ⟨size, heq⟩ := hsize _ _
    refine ⟨s.cs.cdw + padCount s.cs.hwIp s.cs.cdw 4 + 4, size, by omega, heq.trans ?_⟩
    simp only [hpad]
  · exact ⟨_, s.cs.ibSize, Nat.le_add_right .., winsysCsPad_cs info s 0⟩

variable (minSize : ℕ)

lemma growIbSize_csFinalize :
    growIbSize info (csFinalize info s).cs minSize = growIbSize info s.cs minSize := by
  obtain ⟨cdw, size, -, hcs⟩ := csClose_cs info s
  simp only [growIbSize, csFinalize, csAddIbBuffer, hcs]

lemma csGrow_maxDw (hstatus : s.cs.status = .success) (create : Option NewBo) (mapOk : Bool) :
    (csGrow info s minSize create mapOk).cs.maxDw = growIbSize info s.cs minSize / 4 - 4 := by
  simp only [csGrow, hstatus, ne_eq, not_true_eq_false, if_false, growIbSize_csFinalize]
  rfl

end

/-! ## A coherent stream -/

/-- `*ib_size_ptr` is the stream's own size or a dword inside one of its closed IBs. -/
def PtrOk (ws : Ws) (cs : Cs) : Prop :=
  match cs.ibSizePtr with
  | .ibSize => True
  | .dword b idx => b ∈ cs.ibBuffers.map Ib.bo ∧ ∃ bo, ws.bos b = some bo ∧ 4 * idx + 4 ≤ bo.size

/-- The current IB lives in BO `b`, which has room for `maxDw + 4` dwords. -/
structure IbOk (ws : Ws) (cs : Cs) (b : BoId) : Prop where
  buf : cs.buf = some b
  live : ∃ bo, ws.bos b = some bo ∧ 4 * (cs.maxDw + 4) ≤ bo.size ∧ bo.size ≤ 2 ^ 21
  dvd : 64 ∣ cs.maxDw + 4
  ip : cs.chainIb = true → cs.hwIp = .gfx ∨ cs.hwIp = .compute

/-- The winsys is in order, the stream owns each of its BOs once, and nothing undefined has
happened. -/
structure Orderly (s : St) : Prop where
  ws : WsOk s.ws fun b => b ∈ s.cs.owned
  nodup : s.cs.owned.Nodup
  badStore : s.ws.badStore = false
  badRestore : s.ws.badRestore = false

/-- The stream is being recorded into BO `b`. -/
structure Recorded (s : St) (b : BoId) : Prop extends Orderly s, IbOk s.ws s.cs b where
  ibBuffer : s.cs.ibBuffer = some b
  fits : s.cs.cdw ≤ s.cs.maxDw
  ptr : s.cs.chainIb = true → PtrOk s.ws s.cs

/-- The stream is finalized; its last IB is still mapped. -/
structure Closed (s : St) (ib : Ib) : Prop extends Orderly s, IbOk s.ws s.cs ib.bo where
  ibBuffer : s.cs.ibBuffer = none
  last : s.cs.ibBuffers.getLast? = some ib
  fits : s.cs.cdw ≤ s.cs.maxDw + 4
  room : s.cs.chainIb = true → 4 ≤ s.cs.cdw
  chained : s.cs.chainIb = false → s.cs.chainedTo = none

/-! ## Finalizing, on any queue -/

section

variable {ws ws' : Ws} {cs cs' : Cs} {bs : List BoId} {s : St} {b : BoId} {bo : Bo} {ib : Ib}
  {minSize : ℕ} {create : Option NewBo}

lemma Recorded.owned_eq (h : Recorded s b) : s.cs.owned = s.cs.ibBuffers.map Ib.bo ++ [b] := by
  rw [Cs.owned, h.ibBuffer]
  rfl

theorem PtrOk.writes (h : PtrOk ws cs) (hw : Ws.Writes bs ws ws')
    (hptr : cs'.ibSizePtr = cs.ibSizePtr) (hibs : cs'.ibBuffers = cs.ibBuffers) :
    PtrOk ws' cs' := by
  rw [PtrOk, hptr, hibs]
  cases hsp : cs.ibSizePtr with
  | ibSize => trivial
  | dword b idx =>
    rw [PtrOk, hsp] at h
    obtain ⟨hmem, bo, hbo, hidx⟩ := h
    obtain ⟨bo', hbo', -, hsize⟩ := hw.live hbo
    exact ⟨hmem, bo', hbo', by rw [hsize]; exact hidx⟩

lemma PtrOk.orSizePtr (h : PtrOk ws cs) (v : BitVec 32) :
    ∃ ws' size, St.orSizePtr ⟨ws, cs⟩ v = ⟨ws', { cs with ibSize := size }⟩ ∧
      Ws.Writes (cs.ibBuffers.map Ib.bo) ws ws' := by
  cases hptr : cs.ibSizePtr with
  | ibSize =>
    refine ⟨ws, cs.ibSize ||| v, ?_, .refl _ _⟩
    rw [St.orSizePtr]
    simp only [hptr]
  | dword b idx =>
    rw [PtrOk, hptr] at h
    obtain ⟨hmem, bo, hbo, hidx⟩ := h
    refine ⟨_, cs.ibSize, by rw [St.orSizePtr_dword hptr v, ← hptr], ?_⟩
    rw [Ws.store_live hbo _ _ hidx]
    exact (Ws.writes_setDw hbo _).mono (by simpa using hmem)

/-- `csClose` pads the current IB within its BO and patches the size of the link to it. -/
theorem csClose_recorded (info : Info) (h : Recorded s b) :
    ∃ ws' cdw size, csClose info s = ⟨ws', { s.cs with cdw := cdw, ibSize := size }⟩ ∧
      s.cs.cdw ≤ cdw ∧ cdw ≤ s.cs.maxDw + 4 ∧ (s.cs.chainIb = true → 4 ≤ cdw) ∧
      Ws.Writes s.cs.owned s.ws ws' := by
  obtain ⟨ws, cs⟩ := s
  obtain ⟨bo, hbo, hsize, hle⟩ := h.live
  have hfits := h.fits
  have hdvd := h.dvd
  have hbuf := h.buf
  have hown := h.owned_eq
  simp only at hbo hsize hfits hdvd hbuf hown ⊢
  by_cases hchain : cs.chainIb = true
  · obtain ⟨f, pad, body, heq, -, -, hpad, -⟩ :=
      chainPadding info hbo hbuf (h.ip hchain) hdvd hfits hsize
    have hwrites := Ws.writes_setDw hbo f
    -- padding the current IB does not move the dword that the size goes to
    have hptr : PtrOk (ws.setDw b bo f) { cs with cdw := cs.cdw + pad.length + 4 } :=
      (h.ptr hchain).writes hwrites rfl rfl
    obtain ⟨ws', size, heq3, hwrites'⟩ := hptr.orSizePtr (BitVec.ofNat 32 (cs.cdw + pad.length + 4))
    refine ⟨ws', cs.cdw + pad.length + 4, size, ?_, by omega, hpad, fun _ => by omega, ?_⟩
    · simp only [csClose, if_pos hchain, heq]
      exact heq3
    · rw [hown]
      exact (hwrites.mono (by simp)).trans (hwrites'.mono (by simp))
  · have hpad := padCount_fits cs.hwIp hdvd (succ_pos _)
      (show cs.cdw + 0 ≤ cs.maxDw + 4 by omega)
    obtain ⟨f1, pad, heq1, -, -, -⟩ := winsysCsPad_pads info ws bo.dw 0 hbuf
      (show 4 * (cs.cdw + padCount cs.hwIp cs.cdw 0) ≤ bo.size by omega)
    rw [Ws.setDw_dw hbo] at heq1
    refine ⟨ws.setDw b bo f1, cs.cdw + padCount cs.hwIp cs.cdw 0, cs.ibSize, ?_, by omega, hpad,
      fun hc => absurd hc hchain, ?_⟩
    · simp only [csClose, if_neg hchain]
      exact heq1
    · rw [hown]
      exact (Ws.writes_setDw hbo f1).mono (by simp)

theorem IbOk.writes (h : IbOk ws cs b) (hw : Ws.Writes bs ws ws') (hbuf : cs'.buf = cs.buf)
    (hmax : cs'.maxDw = cs.maxDw) (hip : cs'.hwIp = cs.hwIp) (hchain : cs'.chainIb = cs.chainIb) :
    IbOk ws' cs' b := by
  obtain ⟨bo, hbo, hsize, hle⟩ := h.live
  obtain ⟨bo', hbo', -, hsize'⟩ := hw.live hbo
  refine ⟨hbuf.trans h.buf, ⟨bo', hbo', ?_, hsize' ▸ hle⟩, hmax ▸ h.dvd, ?_⟩
  · rw [hmax, hsize']
    exact hsize
  · rw [hchain, hip]
    exact h.ip

theorem Orderly.writes (h : Orderly ⟨ws, cs⟩) (hw : Ws.Writes bs ws ws')
    (hown : cs'.owned = cs.owned) : Orderly ⟨ws', cs'⟩ := by
  refine ⟨?_, ?_, hw.badStore.trans h.badStore, hw.badRestore.trans h.badRestore⟩
  · simp only [hown]
    exact h.ws.writes hw
  · simp only [hown]
    exact h.nodup

/-- The stream after `csFinalize` has closed its IB as `ib`. -/
def Cs.finalized (cs : Cs) (cdw : ℕ) (size : BitVec 32) (ib : Ib) : Cs :=
  { cs with
    cdw := cdw, ibSize := size, ibBuffers := cs.ibBuffers ++ [ib], ibBuffer := none,
    chainedTo := none }

/-- Finalizing a coherent stream keeps it coherent. -/
theorem csFinalize_recorded (info : Info) (h : Recorded s b) :
    ∃ ws' cdw size ib, csFinalize info s = ⟨ws', s.cs.finalized cdw size ib⟩ ∧
      Closed ⟨ws', s.cs.finalized cdw size ib⟩ ib ∧ ib.bo = b ∧ s.cs.cdw ≤ cdw ∧
      Ws.Writes s.cs.owned s.ws ws' := by
  obtain ⟨ws', cdw, size, heq, hlow, hcdw, hroom, hwrites⟩ := csClose_recorded info h
  let cs1 : Cs := { s.cs with cdw := cdw, ibSize := size }
  let ib : Ib := ⟨b, ws'.boVa cs1.ibBuffer,
    if cs1.chainIb then (ibSizeG (St.readSizePtr ⟨ws', cs1⟩)).toNat else cs1.cdw⟩
  have hfin : csFinalize info s = ⟨ws', s.cs.finalized cdw size ib⟩ := by
    simp only [csFinalize, heq, csAddIbBuffer, h.ibBuffer, getD_some, Cs.finalized, cs1, ib]
  have hown : (s.cs.finalized cdw size ib).owned = s.cs.owned := by
    simp only [Cs.owned, Cs.finalized, ib, h.ibBuffer, map_append, map_singleton,
      toList_none, toList_some, append_nil]
  refine ⟨ws', cdw, size, ib, hfin, ?_, rfl, hlow, hwrites⟩
  exact
    { toOrderly := h.toOrderly.writes hwrites hown
      toIbOk := h.toIbOk.writes hwrites rfl rfl rfl rfl
      ibBuffer := rfl
      last := getLast?_concat ..
      fits := hcdw
      room := hroom
      chained := fun _ => rfl }

/-! ## The outcomes of a grow -/

/-- The link to the new IB stays inside the finalized one. -/
theorem Ws.storeLink_writes (hbo : ws.bos b = some bo) {cdw : ℕ} (hlow : 4 ≤ cdw)
    (hhigh : 4 * cdw ≤ bo.size) (hsize : bo.size ≤ 2 ^ 21) (va : BitVec 64) (control : BitVec 32) :
    Ws.Writes [b] ws (ws.storeLink (some b) cdw va control) := by
  have hsub : ∀ k, k ≤ 4 → sub32 cdw k = cdw - k := by
    intro k hk
    exact sub32_of_le (by omega) (by omega)
  simp only [Ws.storeLink, hsub 4 (by decide), hsub 3 (by decide), hsub 2 (by decide), hsub 1 (by decide)]
  rw [Ws.store_live hbo _ _ (by omega), Ws.setDw_store _ _ _ _ _ (by omega),
    Ws.setDw_store _ _ _ _ _ (by omega), Ws.setDw_store _ _ _ _ _ (by omega)]
  exact Ws.writes_setDw hbo _

lemma Ws.store_badStore (h : ws.badStore = true) (buf : Option BoId) (idx : ℕ) (v : BitVec 32) :
    (ws.store buf idx v).badStore = true := by
  unfold Ws.store
  split
  · split_ifs
    · exact h
    · rfl
  · rfl

/-- A link stored while `cdw` is zero wraps around and misses the IB. -/
theorem Ws.storeLink_zero_badStore (hbo : ws.bos b = some bo) (hsize : bo.size ≤ 2 ^ 21)
    (va : BitVec 64) (control : BitVec 32) :
    (ws.storeLink (some b) 0 va control).badStore = true := by
  have hbad : (ws.store (some b) (sub32 0 4) (pkt3 pkt3IndirectBuffer 2 0)).badStore = true := by
    have hidx : ¬ 4 * sub32 0 4 + 4 ≤ bo.size := by
      simp only [sub32]
      omega
    simp [Ws.store, hbo, hidx]
  exact Ws.store_badStore (Ws.store_badStore (Ws.store_badStore hbad ..) ..) ..

/-- Both succeed: the stream goes on in the new IB. -/
theorem growTail_success {n : ℕ} (hib : IbOk ws cs ib.bo) (hlast : cs.ibBuffers.getLast? = some ib)
    (hfits : cs.cdw ≤ cs.maxDw + 4) (hroom : cs.chainIb = true → 4 ≤ cs.cdw)
    (hbo : ws.bos b = some bo) (hsize : bo.size = n) (hn : IbBytes n) :
    ∃ ws' cs', growTail n .success true ⟨ws, { cs with ibBuffer := some b }⟩ = ⟨ws', cs'⟩ ∧
      IbOk ws' cs' b ∧ cs'.ibBuffer = some b ∧ cs'.ibBuffers = cs.ibBuffers ∧ cs'.cdw = 0 ∧
      (cs'.chainIb = true → PtrOk ws' cs') ∧ Ws.Writes [ib.bo] ws ws' := by
  obtain ⟨bo0, hbo0, hsize0, hle0⟩ := hib.live
  obtain ⟨hdw, hdvd, -⟩ := hn.dwords
  obtain ⟨l, hflat, hlink⟩ := growTail_eq n ws cs b
  have hbytes := hn.le
  have hmem : ib.bo ∈ cs.ibBuffers.map Ib.bo := mem_map_of_mem (mem_of_getLast? hlast)
  by_cases hchain : cs.chainIb = true
  · have hcdw := hroom hchain
    have hwrites := Ws.storeLink_writes hbo0 hcdw (by omega) hle0 (ws.boVa (some b)) ibChainValid
    have hptr : sub32 cs.cdw 1 = cs.cdw - 1 := sub32_of_le (by omega) (by omega)
    refine ⟨_, _, hlink ib.bo _ hchain hib.buf rfl, ?_, rfl, rfl, rfl, fun _ => ?_, hwrites⟩
    · obtain ⟨bo', hbo', -, hsize'⟩ := hwrites.live hbo
      exact ⟨rfl, ⟨bo', hbo', by simp only [Cs.grown]; omega, by omega⟩, hdvd, hib.ip⟩
    · obtain ⟨bo', hbo', -, hsize'⟩ := hwrites.live hbo0
      exact ⟨hmem, bo', hbo', by omega⟩
  · refine ⟨_, _, hflat (Bool.not_eq_true _ ▸ hchain), ?_, rfl, rfl, rfl,
      fun hc => absurd hc hchain, .refl _ _⟩
    exact ⟨rfl, ⟨bo, hbo, by simp only [Cs.grown]; omega, by omega⟩, hdvd, hib.ip⟩

/-- The stream after a failed creation, with its last IB restored and mapped again. -/
def Cs.restored (cs : Cs) (ib : Ib) : Cs :=
  { cs with
    ibBuffer := some ib.bo, ibMapped := some ib.bo, ibBuffers := cs.ibBuffers.dropLast, cdw := 0,
    status := .errorOutOfDeviceMemory }

/-- Only the creation fails: the previous IB is restored, and the code for a new one runs. -/
theorem growTail_restored (ws : Ws) (n : ℕ) (hlast : cs.ibBuffers.getLast? = some ib) :
    growTail n .errorOutOfDeviceMemory true ⟨ws, { cs with ibBuffer := none }⟩ =
      let s := if cs.chainIb then linkNewIb ⟨ws, cs.restored ib⟩ else ⟨ws, cs.restored ib⟩
      { s with cs := { s.cs with
        buf := s.cs.ibMapped, cdw := 0, reservedDw := 0, maxDw := n / 4 - 4 } } := by
  have hadd : csAddBuffer ⟨ws, cs.restored ib⟩ (some ib.bo) = ⟨ws, cs.restored ib⟩ := by
    unfold csAddBuffer
    split <;> simp [Cs.restored]
  have hne : VkResult.errorOutOfDeviceMemory ≠ .success := by decide
  simp only [growTail, if_pos hne, restoreLastIb, hlast, if_true, isNone_some, Bool.false_eq_true, if_false]
  simp only [Cs.restored] at hadd ⊢
  rw [hadd]

/-- Whenever the mapping fails, `base.buf` ends up `NULL`. -/
theorem growTail_unmapped (n : ℕ) (result : VkResult) (s : St) :
    (growTail n result false s).cs.buf = none := by
  have hrestore : ∀ u : St, (restoreLastIb u).cs.ibMapped = u.cs.ibMapped := by
    intro u
    unfold restoreLastIb
    split <;> rfl
  have hadd : ∀ (u : St) b, (csAddBuffer u b).cs.ibMapped = u.cs.ibMapped := by
    intro u b
    obtain ⟨l, hl⟩ := csAddBuffer_eq u b
    rw [hl]
  simp only [growTail, Bool.false_eq_true, if_false, isNone_none, if_true]
  split_ifs <;> simp [linkNewIb, hadd, hrestore]

/-! ## When a grow is safe -/

/-- The size in bytes of a BO. -/
def Ws.boSize (ws : Ws) (b : Option BoId) : ℕ := ((b.bind ws.bos).map Bo.size).getD 0

/-- The outcomes under which a grow is safe: it returns at once, or both the creation and the
mapping succeed, or the stream does not chain, the mapping succeeds and the size that was not
obtained is no larger than that of the IB it falls back to. -/
def GrowOk (info : Info) (s : St) (minSize : ℕ) (create : Option NewBo) (mapOk : Bool) : Prop :=
  s.cs.status ≠ .success ∨ mapOk = true ∧
    (canObtain info s.ws (growIbSize info s.cs minSize) create = true ∨
      s.cs.chainIb = false ∧ growIbSize info s.cs minSize ≤ s.ws.boSize s.cs.ibBuffer)

/-- What a grow should leave behind: no store outside the IB, no underflow of `num_ib_buffers`, and
`base.buf` the mapping of a live BO that the stream holds as `ib_buffer` and nowhere else, with
room for `max_dw + 4` dwords. -/
def GrowSafe (t : St) : Prop :=
  t.ws.badStore = false ∧ t.ws.badRestore = false ∧
    ∃ b bo, t.cs.buf = some b ∧ t.cs.ibBuffer = some b ∧ t.ws.bos b = some bo ∧
      b ∉ t.cs.ibBuffers.map Ib.bo ∧ b ∉ t.ws.ibCache.map Prod.fst ∧
      4 * (t.cs.maxDw + 4) ≤ bo.size

lemma Recorded.growSafe (h : Recorded s b) : GrowSafe s := by
  obtain ⟨bo, hbo, hsize, -⟩ := h.live
  have hown := h.owned_eq
  have hnodup := h.nodup
  rw [hown, nodup_append] at hnodup
  refine ⟨h.badStore, h.badRestore, b, bo, h.buf, h.ibBuffer, hbo, ?_, ?_, hsize⟩
  · intro hmem
    exact hnodup.2.2 b hmem b (mem_singleton_self b) rfl
  · intro hmem
    obtain ⟨e, he, heq⟩ := mem_map.mp hmem
    refine h.ws.cache_free e he ?_
    rw [heq, hown]
    simp

lemma Recorded.boSize_eq (h : Recorded s b) (hbo : s.ws.bos b = some bo) :
    s.ws.boSize s.cs.ibBuffer = bo.size := by
  rw [Ws.boSize, h.ibBuffer, bind_some, hbo]
  rfl

variable (info : Info)

lemma growIbSize_finalized (cs : Cs) (cdw : ℕ) (size : BitVec 32) (ib : Ib) (minSize : ℕ) :
    growIbSize info (cs.finalized cdw size ib) minSize = growIbSize info cs minSize := rfl

lemma IbOk.growIbSize (h : IbOk ws cs b) (info : Info) (minSize : ℕ) :
    IbBytes (growIbSize info cs minSize) := by
  obtain ⟨bo, -, hsize, hle⟩ := h.live
  have hdvd := h.dvd
  exact growIbSize_ibBytes info cs minSize (by omega) (by omega)

section

variable {ws2 : Ws} {size : ℕ} (h : Closed ⟨ws, cs⟩ ib)
  (hacq : Acquired (fun b => b ∈ cs.owned) ws ws2 b size)
include h hacq

/-- The IB that was closed is untouched by the acquisition of another BO. -/
theorem Closed.ibOk_acquired : IbOk ws2 cs ib.bo := by
  obtain ⟨bo0, hbo0, hrest⟩ := h.live
  have hne : ib.bo ≠ b := by
    rintro rfl
    exact hacq.unused (mem_append_left _ (mem_map_of_mem (mem_of_getLast? h.last)))
  exact ⟨h.buf, ⟨bo0, by rw [hacq.frame _ hne]; exact hbo0, hrest⟩, h.dvd, h.ip⟩

/-- A closed stream that goes on in a BO it has just acquired is recorded again. -/
theorem Closed.resume (hbad : ws2.badStore = ws.badStore) (hbad' : ws2.badRestore = ws.badRestore)
    {ws3 : Ws} (hw : Ws.Writes bs ws2 ws3) (hib : IbOk ws3 cs' b) (hbuf : cs'.ibBuffer = some b)
    (hibs : cs'.ibBuffers = cs.ibBuffers) (hcdw : cs'.cdw = 0)
    (hptr : cs'.chainIb = true → PtrOk ws3 cs') : Recorded ⟨ws3, cs'⟩ b := by
  have hown : cs'.owned = cs.owned ++ [b] := by
    rw [Cs.owned, hbuf, hibs, Cs.owned, h.ibBuffer]
    simp
  refine
    { ws := ?_
      nodup := ?_
      badStore := by rw [hw.badStore, hbad]; exact h.badStore
      badRestore := by rw [hw.badRestore, hbad']; exact h.badRestore
      toIbOk := hib
      ibBuffer := hbuf
      fits := by simp only [hcdw]; exact zero_le _
      ptr := hptr }
  · have hused : (fun b' => b' ∈ cs'.owned) = fun b' => b' ∈ cs.owned ∨ b' = b := by
      funext b'
      rw [hown, mem_append, mem_singleton]
    rw [hused]
    exact hacq.ok.writes hw
  · simp only [hown]
    rw [nodup_append]
    refine ⟨h.nodup, by simp, fun x hx y hy => ?_⟩
    rw [mem_singleton] at hy
    rintro rfl
    exact hacq.unused (hy ▸ hx)

end

section

variable (h : Recorded s b)
include h

/-- A grow that obtains and maps a new IB. -/
theorem csGrow_obtained (hfresh : ∀ n ∈ create, s.ws.Fresh n) (hstatus : s.cs.status = .success)
    (hcan : canObtain info s.ws (growIbSize info s.cs minSize) create = true) :
    ∃ b', Recorded (csGrow info s minSize create true) b' := by
  obtain ⟨ws1, cdw, size, ib, heq1, hclosed, -, -, hw1⟩ := csFinalize_recorded info h
  have hn := hclosed.toIbOk.growIbSize info minSize
  obtain ⟨ws2, b', heq2, hacq, hbad, hbad'⟩ := csBoCreate_obtains info
    (s.cs.finalized cdw size ib) (growIbSize info s.cs minSize) hclosed.ws
    (fun n hmem => (hfresh n hmem).writes hw1) (by rw [canObtain, hw1.ibCache]; exact hcan)
  obtain ⟨bo, hbo, hsize⟩ := hacq.live
  obtain ⟨ws3, cs3, heq3, hib3, hibBuffer, hibBuffers, hcdw, hptr, hw3⟩ :=
    growTail_success (hclosed.ibOk_acquired hacq) hclosed.last hclosed.fits hclosed.room hbo hsize hn
  have hgrow : csGrow info s minSize create true = ⟨ws3, cs3⟩ := by
    simp only [csGrow, hstatus, ne_eq, not_true_eq_false, if_false, heq1, growIbSize_finalized, heq2]
    exact heq3
  rw [hgrow]
  exact ⟨b', hclosed.resume hacq hbad hbad' hw3 hib3 hibBuffer hibBuffers hcdw hptr⟩

section

variable (hstatus : s.cs.status = .success)
  (hcan : canObtain info s.ws (growIbSize info s.cs minSize) create = false)
include hstatus hcan

/-- The state in which a grow fails to create a BO but maps the restored one. -/
theorem csGrow_restored :
    ∃ ws1 cdw size ib, Closed ⟨ws1, s.cs.finalized cdw size ib⟩ ib ∧ ib.bo = b ∧
      Ws.Writes s.cs.owned s.ws ws1 ∧ csGrow info s minSize create true =
        let t : St := ⟨ws1, (s.cs.finalized cdw size ib).restored ib⟩
        let u := if s.cs.chainIb then linkNewIb t else t
        { u with cs := { u.cs with
          buf := u.cs.ibMapped, cdw := 0, reservedDw := 0,
          maxDw := growIbSize info s.cs minSize / 4 - 4 } } := by
  obtain ⟨ws1, cdw, size, ib, heq1, hclosed, hib, -, hw1⟩ := csFinalize_recorded info h
  refine ⟨ws1, cdw, size, ib, hclosed, hib, hw1, ?_⟩
  have hfail := csBoCreate_fails info ws1 (s.cs.finalized cdw size ib)
    (growIbSize info s.cs minSize) (by rw [canObtain, hw1.ibCache]; exact hcan)
  simp only [csGrow, hstatus, ne_eq, not_true_eq_false, if_false, heq1, growIbSize_finalized, hfail]
  exact growTail_restored ws1 _ hclosed.last

/-- The restored IB keeps the stream coherent if it is as large as what was asked for. -/
theorem csGrow_kept
    (hchain : s.cs.chainIb = false) (hle : growIbSize info s.cs minSize ≤ s.ws.boSize s.cs.ibBuffer) :
    Recorded (csGrow info s minSize create true) b := by
  obtain ⟨ws1, cdw, size, ib, hclosed, rfl, hw1, hgrow⟩ := csGrow_restored info h hstatus hcan
  obtain ⟨hdw, hdvd, -⟩ := (h.toIbOk.growIbSize info minSize).dwords
  obtain ⟨bo, hbo, -, hsize⟩ := h.live
  obtain ⟨bo1, hbo1, -, hsize1⟩ := hw1.live hbo
  have hbytes := h.boSize_eq hbo
  rw [hgrow]
  simp only [hchain, Bool.false_eq_true, if_false]
  have hown : ((s.cs.finalized cdw size ib).restored ib).owned = s.cs.owned := by
    rw [h.owned_eq, Cs.owned]
    simp only [Cs.restored, Cs.finalized, dropLast_concat]
    rfl
  have horder : Orderly ⟨ws1, (s.cs.finalized cdw size ib).restored ib⟩ := h.toOrderly.writes hw1 hown
  exact
    { horder with
      buf := rfl
      live := ⟨bo1, hbo1, by simp only; omega, by omega⟩
      dvd := hdvd
      ip := hclosed.ip
      ibBuffer := rfl
      fits := zero_le _
      ptr := fun hc => absurd (hchain.symm.trans hc) (by decide) }

end

/-- Under `GrowOk` the stream stays coherent. -/
theorem csGrow_recorded {mapOk : Bool} (hfresh : ∀ n ∈ create, s.ws.Fresh n)
    (hok : GrowOk info s minSize create mapOk) :
    ∃ b', Recorded (csGrow info s minSize create mapOk) b' := by
  by_cases hstatus : s.cs.status = .success
  · rcases hok with hne | ⟨rfl, hok⟩
    · exact absurd hstatus hne
    cases hcan : canObtain info s.ws _ create with
    | true => exact csGrow_obtained info h hfresh hstatus hcan
    | false =>
      rcases hok with htrue | ⟨hchain, hle⟩
      · rw [hcan] at htrue
        cases htrue
      · exact ⟨b, csGrow_kept info h hstatus hcan hchain hle⟩
  · -- the call only rewinds the IB
    refine ⟨b, ?_⟩
    rw [csGrow, if_pos hstatus]
    exact { h with fits := zero_le _ }

/-- A grow of a coherent stream is safe under exactly the outcomes of `GrowOk`. -/
theorem csGrow_safe_iff (minSize : ℕ) (mapOk : Bool) (hfresh : ∀ n ∈ create, s.ws.Fresh n) :
    GrowSafe (csGrow info s minSize create mapOk) ↔ GrowOk info s minSize create mapOk := by
  constructor
  · intro hsafe
    by_contra hnot
    simp only [GrowOk, not_or, not_and, ne_eq, not_not] at hnot
    obtain ⟨hstatus, hnot⟩ := hnot
    cases mapOk with
    | false =>
      obtain ⟨-, -, b', bo', hbuf, -⟩ := hsafe
      have hnone : (csGrow info s minSize create false).cs.buf = none := by
        simp only [csGrow, hstatus, ne_eq, not_true_eq_false, if_false]
        exact growTail_unmapped ..
      rw [hnone] at hbuf
      cases hbuf
    | true =>
      obtain ⟨hcan, hsize⟩ := hnot rfl
      rw [Bool.not_eq_true] at hcan
      obtain ⟨ws1, cdw, size, ib, hclosed, rfl, hw1, hgrow⟩ := csGrow_restored info h hstatus hcan
      rw [hgrow] at hsafe
      cases hchain : s.cs.chainIb with
      | true =>
        -- the link is stored at `cdw - 4` with `cdw` zero
        obtain ⟨bo1, hbo1, -, hle1⟩ := hclosed.live
        simp only [hchain, if_true] at hsafe
        have hbad : (linkNewIb ⟨ws1, (s.cs.finalized cdw size ib).restored ib⟩).ws.badStore = true := by
          have hbuf : ((s.cs.finalized cdw size ib).restored ib).buf = some ib.bo := hclosed.buf
          simp only [linkNewIb, hbuf]
          exact Ws.storeLink_zero_badStore hbo1 hle1 _ _
        exact absurd (hbad.symm.trans hsafe.1) (by decide)
      | false =>
        -- `max_dw` is that of the IB that was not obtained
        simp only [hchain, Bool.false_eq_true, if_false] at hsafe
        obtain ⟨-, -, b', bo', hbuf, -, hbo', -, -, hroom⟩ := hsafe
        obtain rfl : ib.bo = b' := Option.some.inj hbuf
        obtain ⟨bo, hbo, -⟩ := h.live
        obtain ⟨bo1, hbo1, -, hsize1⟩ := hw1.live hbo
        obtain rfl : bo1 = bo' := Option.some.inj (hbo1.symm.trans hbo')
        obtain ⟨hdw, -, -⟩ := (h.toIbOk.growIbSize info minSize).dwords
        have hlt := hsize hchain
        rw [h.boSize_eq hbo] at hlt
        simp only at hroom
        omega
  · intro hok
    obtain ⟨b', hrec⟩ := csGrow_recorded info h hfresh hok
    exact hrec.growSafe

end

end

end RadvXclipse.RadvAmdgpu
