import RadvXclipse.Lib.Fold
import RadvXclipse.CmdBuffer.DecodeOrder

/-!
# Recordings

Between two commands no decode window is open. The invariant `Inv` says that a pending decode flush
is then never without flush bits, on the queues where that matters. It is kept by every command that
meets the condition `Meets`, and after a command that does not meet it the next draw, or the next
fill by CP DMA, is not ordered after the decode.
-/

namespace RadvXclipse.CmdBuffer

open Lib List Nat

/-- All work on such a queue flushes first: dispatches always do, and CP DMA invalidates L2 as it
does not use it. -/
def AlwaysFlushes (d : Device) (qf : Queue) : Prop :=
  qf = .compute ∧ d.cpDmaUseL2 = false ∧ 9 ≤ d.gfxLevel

/-- Between two commands, with `n` pipeline statistics queries. -/
structure Inv (d : Device) (qf : Queue) (n : ℕ) (s : State) : Prop where
  good : Good s
  active : s.bcDecodeActive = 0
  stat : s.numPipelineStat = n
  transfer : qf = .transfer → s.bcDecodePending = false
  bits : AlwaysFlushes d qf ∨ (s.bcDecodePending = true → s.flushBits ≠ 0)

section

variable {d : Device} {qf : Queue} {n : ℕ} {s : State}

/-! ## Operations -/

/-- Between two commands, with no flush pending. -/
structure Clear (n : ℕ) (s : State) : Prop where
  good : Good s
  active : s.bcDecodeActive = 0
  stat : s.numPipelineStat = n
  pending : s.bcDecodePending = false

lemma Clear.inv (h : Clear n s) : Inv d qf n s :=
  ⟨h.good, h.active, h.stat, fun _ => h.pending, .inr fun hp => absurd hp (by rw [h.pending]; decide)⟩

lemma Clear.ite {p : Prop} [Decidable p] {a b : State} (ha : Clear n a) (hb : Clear n b) :
    Clear n (if p then a else b) := by
  split
  · exact ha
  · exact hb

lemma Clear.emit (h : Clear n s) {e : Event} (he : e ≠ .deferred) : Clear n (s.emit e) :=
  ⟨h.good.emit he fun _ _ => h.pending, h.active, h.stat, h.pending⟩

lemma Clear.emitCpDma (h : Clear n s) (k : ℕ) : Clear n (s.emitCpDma k) := by
  induction k generalizing s with
  | zero => exact h
  | succ k ih => exact ih (h.emit (by simp))

section

variable (h : Inv d qf n s)
include h

lemma Inv.clear (hp : s.bcDecodePending = false) : Clear n s := ⟨h.good, h.active, h.stat, hp⟩

lemma Inv.emitCacheFlush : Clear n (emitCacheFlush d qf s) := by
  have hd := drained_emitCacheFlush d qf s
  exact ⟨hd.good h.good, hd.active.trans h.active, hd.stat.trans h.stat, by rw [hd.pending, if_pos h.active]⟩

lemma Inv.emitCacheFlushIfBits (hbits : s.bcDecodePending = true → s.flushBits ≠ 0) :
    Clear n (emitCacheFlushIfBits d qf s) := by
  unfold CmdBuffer.emitCacheFlushIfBits
  split
  · exact h.emitCacheFlush
  · next hzero =>
    refine h.clear ?_
    cases hp : s.bcDecodePending with
    | false => rfl
    | true => exact absurd (hbits hp) hzero

lemma Inv.orFlush (bits : Flags) : Inv d qf n (s.orFlush bits) := by
  refine ⟨h.good.orFlush bits, h.active, h.stat, h.transfer, ?_⟩
  rcases h.bits with hq | hbits
  · exact .inl hq
  · exact .inr fun hp => or_ne_zero_left (hbits hp)

/-- CP DMA that does not use L2 invalidates it, so that there are bits for the flush. -/
theorem Inv.emitCacheFlush_invL2 {p : Prop} [Decidable p]
    (hbits : ¬ p → s.bcDecodePending = true → s.flushBits ≠ 0) :
    Clear n (CmdBuffer.emitCacheFlushIfBits d qf (if p then s.orFlush invL2 else s)) := by
  split
  · exact (h.orFlush invL2).emitCacheFlushIfBits fun _ => or_ne_zero_right (by decide)
  · next hp => exact h.emitCacheFlushIfBits (hbits hp)

lemma Inv.computeDispatch : Inv d qf n (computeDispatch d qf s) := by
  unfold CmdBuffer.computeDispatch
  split
  · exact (h.emitCacheFlush.emit (by simp)).inv
  · next hq => exact ((h.clear (h.transfer (not_not.mp hq))).emit (by simp)).inv

lemma Inv.cpDmaCopyMemory (srcVa size : ℕ) : Inv d qf n (cpDmaCopyMemory d qf s srcVa size) := by
  have hflush := h.emitCacheFlush_invL2 (p := ¬ d.cpDmaUseL2 = true) fun hl2 => by
    rcases h.bits with hq | hbits
    · exact absurd (by rw [hq.2.1]; decide) hl2
    · exact hbits
  rw [ite_not] at hflush
  have h1 := fun k => hflush.emitCpDma k
  have h2 := fun k => (h1 k).emitCpDma 1
  unfold CmdBuffer.cpDmaCopyMemory
  dsimp only
  generalize (if d.hasCpDmaUnalignedCopyPerfIssue = true ∧ srcVa % 32 ≠ 0 then min (32 - srcVa % 32) size else 0) = skipped
  generalize (size - skipped + d.cpDmaMaxByteCount - 1) / d.cpDmaMaxByteCount = k
  have h3 := Clear.ite (p := skipped ≠ 0) (h2 k) (h1 k)
  exact (Clear.ite (h3.emitCpDma 1) h3).inv

lemma Inv.cpDmaFillMemory (size : ℕ) (b : Bool) : Inv d qf n (cpDmaFillMemory d qf s size b) := by
  unfold CmdBuffer.cpDmaFillMemory
  split
  · exact h
  · have hflush := h.emitCacheFlush_invL2
      (p := (9 ≤ d.gfxLevel ∨ ¬ b = true) ∧ ¬ d.cpDmaUseL2 = true) fun hl2 => by
      rcases h.bits with hq | hbits
      · exact absurd ⟨.inl hq.2.2, by rw [hq.2.1]; decide⟩ hl2
      · exact hbits
    exact (hflush.emitCpDma _).inv

lemma Inv.runOp {o : Op} (ho : o.allowed qf = true) : Inv d qf n (runOp d qf s o) := by
  cases o with
  | addFlushBits bits => exact h.orFlush bits
  | draw bits =>
    have hq : qf = .general := by simpa [Op.allowed] using ho
    have hor := h.orFlush bits
    rcases hor.bits with hc | hbits
    · exact absurd hc.1 (by rw [hq]; decide)
    · exact ((hor.emitCacheFlushIfBits hbits).emit (by simp)).inv
  | dispatch => exact h.computeDispatch
  | traceRays => exact (h.emitCacheFlush.emit (by simp)).inv
  | cpDmaCopy srcVa size => exact h.cpDmaCopyMemory srcVa size
  | cpDmaFill size b => exact h.cpDmaFillMemory size b
  | cacheFlush => exact h.emitCacheFlush.inv

end

section

variable {regions : List (List Op)} {f : State → State} {dst : Image} {t : State}

lemma Inv.copyRegions (h : Inv d qf n s) (hr : ∀ ops ∈ regions, ∀ o ∈ ops, o.allowed qf = true) :
    Inv d qf n (copyRegions d qf s regions) := by
  apply foldl_invariant h
  intro ops hops t ht
  apply foldl_invariant ht
  intro o ho u hu
  exact hu.runOp (hr ops hops o ho)

/-! ## Queries -/

lemma Inv.setBits (h : Inv d qf n s) {bits : Flags} (hbits : bits ≠ 0) :
    Inv d qf n { s with flushBits := bits } :=
  ⟨⟨h.good.safe, h.good.flushed⟩, h.active, h.stat, h.transfer, .inr fun _ => hbits⟩

lemma Inv.suspendQueries (h : Inv d qf n s) : Inv d qf n (suspendQueries s) := by
  unfold CmdBuffer.suspendQueries
  split
  · exact h.setBits (or_ne_zero_right (by decide))
  · exact h

/-- After a meta operation there are bits if a pipeline statistics query goes on. -/
theorem inv_resumeQueries (hg : Good s) (ha : s.bcDecodeActive = 0) (hn : s.numPipelineStat = n)
    (ht : qf = .transfer → s.bcDecodePending = false)
    (hbits : 0 < n ∨ AlwaysFlushes d qf ∨ (s.bcDecodePending = true → s.flushBits ≠ 0)) :
    Inv d qf n (resumeQueries s) := by
  unfold CmdBuffer.resumeQueries
  split
  · exact ⟨⟨hg.safe, hg.flushed⟩, ha, hn, ht, .inr fun _ => or_ne_zero_right (by decide)⟩
  · next hzero =>
    refine ⟨hg, ha, hn, ht, ?_⟩
    rcases hbits with hpos | hbits
    · exact absurd (hn ▸ hpos) hzero
    · exact hbits

lemma Inv.resumeQueries (h : Inv d qf n s) : Inv d qf n (resumeQueries s) :=
  inv_resumeQueries h.good h.active h.stat h.transfer (.inr h.bits)

lemma Inv.updateHwPipelinestat (h : Inv d qf n s) : Inv d qf n (updateHwPipelinestat s) := by
  unfold CmdBuffer.updateHwPipelinestat
  split
  · exact h.setBits (or_ne_zero_right (by decide))
  · split
    · exact h.setBits (or_ne_zero_right (by decide))
    · exact h

/-! ## Decodes -/

lemma window_repeatDecode {P : State → Prop} (hf : ∀ t, P t → Window t (f t) ∧ P (f t)) (k : ℕ)
    (h : P s) : Window s (repeatDecode f s k) := by
  induction k generalizing s with
  | zero => exact .refl s
  | succ k ih => exact (hf s h).1.trans (ih (hf s h).2)

/-- The last decode leaves no flush bits. -/
theorem flushBits_repeatDecode (hf : ∀ t, (f t).flushBits = 0) {k : ℕ} (hk : 0 < k) :
    (repeatDecode f s k).flushBits = 0 := by
  induction k generalizing s with
  | zero => omega
  | succ k ih =>
    cases k with
    | zero => exact hf s
    | succ k => exact ih (succ_pos k)

lemma flushBits_computeDispatch (hq : qf ≠ .transfer) (s : State) :
    (computeDispatch d qf s).flushBits = 0 := by
  unfold computeDispatch
  rw [if_pos hq]
  exact (drained_emitCacheFlush d qf s).bits

lemma flushBits_bcDecode (hq : qf ≠ .transfer) (s : State) : (bcDecode d qf s).flushBits = 0 :=
  flushBits_computeDispatch hq _

lemma flushBits_decodeRegion (hq : qf ≠ .transfer) (i : Image) (s : State) :
    (decodeRegion d qf i s).flushBits = 0 := by
  unfold decodeRegion metaDecodeBc
  split
  · split
    · exact flushBits_bcDecode hq _
    · exact flushBits_bcDecode hq s
  · exact flushBits_computeDispatch hq s

lemma good_metaDecodeBcFlush (hg : Good s) (i : Image) : Good (metaDecodeBcFlush d s i) := by
  constructor
  · exact safe_append hg.safe fun ho => absurd ho (by simp [Event.ordered])
  · intro hp
    exact absurd hp (by simp [metaDecodeBcFlush, State.emit, State.orFlush])

/-- The image gives no bits to flush after a compute shader has written it. -/
def Image.silent (d : Device) (i : Image) : Prop := i.usageStorage = true ∧ i.isL2Coherent d = true

lemma srcAccessFlush_eq_zero_iff (d : Device) (i : Image) :
    srcAccessFlush d computeShaderWrite (some i) = 0 ↔ i.silent d := by
  unfold srcAccessFlush computeShaderWrite Image.silent Flags.only
  cases hs : i.usageStorage <;> cases hc : i.isL2Coherent d <;> cases hd : i.depthOrStencil <;>
    simp [hs, hc, hd, invL2, syncAndInvDb, syncAndInvCb]

lemma decodes_iff (i : Image) (qf : Queue) :
    i.decodes qf = true ↔ i.emulation ≠ .native ∧ qf ≠ .transfer := by
  simp [Image.decodes]

section Copy

variable {dst : Image} (hdec : dst.decodes qf = true) (orderBits : Flags) {regions : List (List Op)}
  (hr : regions ≠ [])
include hdec hr

/-- The body of a copy from a buffer, in its window: all but the last step leaves the pending flush
alone and no bits. -/
theorem copyBufferToImageBody_eq (ha : 0 < s.bcDecodeActive) :
    ∃ t, Window s t ∧ t.flushBits = 0 ∧
      copyBufferToImageBody d qf dst orderBits regions s =
        if dst.emulation = .bc then metaDecodeBcFlush d t dst else t := by
  have hq := ((decodes_iff dst qf).mp hdec).2
  have hactive : ∀ {t}, Window s t → 0 < t.bcDecodeActive := fun ht => by rw [ht.active]; exact ha
  unfold copyBufferToImageBody
  rw [if_pos hdec]
  have h1 := window_ite (p := dst.bcAlias = true ∧ qf ≠ .transfer) (.refl s)
    (window_copyRegions d qf ha regions)
  have h2 := window_ite (p := dst.bcAlias = true) h1
    (h1.trans (window_orFlush _ (syncCs ||| syncPs ||| orderBits)))
  have hbody : ∃ f, (if dst.bcAlias then bcDecode d qf else decodeRegion d qf dst) = f ∧
      (∀ t, 0 < t.bcDecodeActive → Window t (f t)) ∧ ∀ t, (f t).flushBits = 0 := by
    split
    · exact ⟨_, rfl, fun t _ => window_bcDecode d qf t, flushBits_bcDecode hq⟩
    · exact ⟨_, rfl, fun t ht => window_decodeRegion d qf ht dst, flushBits_decodeRegion hq dst⟩
  obtain ⟨f, hf, hw, hzero⟩ := hbody
  rw [hf]
  have hkeeps : ∀ t, 0 < t.bcDecodeActive → Window t (f t) ∧ 0 < (f t).bcDecodeActive :=
    fun t ht => ⟨hw t ht, by rw [(hw t ht).active]; exact ht⟩
  exact ⟨_, h2.trans (window_repeatDecode hkeeps regions.length (hactive h2)),
    flushBits_repeatDecode hzero (length_pos_iff.mpr hr), rfl⟩

/-- A copy from a buffer, up to the end of the meta operation. -/
theorem copyBufferToImage_eq (s : State) :
    ∃ t, Window (suspendQueries s) t ∧ t.flushBits = 0 ∧
      copyBufferToImage d qf s dst orderBits regions =
        resumeQueries (if dst.emulation = .bc then
          { metaDecodeBcFlush d { t with bcDecodeActive := t.bcDecodeActive + 1 } dst with
            bcDecodeActive := t.bcDecodeActive } else t) := by
  rcases @copyBufferToImageBody_eq d qf
    { suspendQueries s with bcDecodeActive := (suspendQueries s).bcDecodeActive + 1 } dst hdec
      orderBits regions hr
    (succ_pos _) with ⟨t, hw, hzero, heq⟩
  have hact : t.bcDecodeActive = (suspendQueries s).bcDecodeActive + 1 := hw.active
  refine ⟨{ t with bcDecodeActive := t.bcDecodeActive - 1 }, ⟨?_, hw.pending, ?_, hw.stat⟩, hzero, ?_⟩
  · intro hg
    have hg' := hw.good ⟨hg.safe, hg.flushed⟩
    exact ⟨hg'.safe, hg'.flushed⟩
  · show t.bcDecodeActive - 1 = _
    omega
  · unfold copyBufferToImage
    dsimp only
    rw [if_pos hdec, State.window, heq]
    congr 1
    have hsucc : t.bcDecodeActive - 1 + 1 = t.bcDecodeActive := by omega
    rw [hsucc]
    split
    · rfl
    · rfl

/-- A copy that is not from a buffer, up to the end of the meta operation. -/
theorem copyToImage_bc_eq (hbc : dst.emulation = .bc) (skipDecode : Bool) (s : State) :
    ∃ t, Window (copyRegions d qf (suspendQueries s) regions) t ∧
      (skipDecode = true ↔ t.flushBits ≠ 0) ∧
      copyToImage d qf s dst skipDecode orderBits regions = resumeQueries (metaDecodeBcFlush d t dst) := by
  have hq := ((decodes_iff dst qf).mp hdec).2
  have hor := window_orFlush (copyRegions d qf (suspendQueries s) regions) (syncCs ||| syncPs ||| orderBits)
  have hbits : ((copyRegions d qf (suspendQueries s) regions).orFlush (syncCs ||| syncPs ||| orderBits)).flushBits ≠ 0 :=
    or_ne_zero_right (or_ne_zero_left (by decide))
  cases skipDecode with
  | true =>
    have hid : ∀ (k : ℕ) (u : State), repeatDecode id u k = u := by
      intro k
      induction k with
      | zero => exact fun _ => rfl
      | succ k ih => exact ih
    refine ⟨_, hor, iff_of_true rfl hbits, ?_⟩
    unfold copyToImage
    simp only [hdec, hbc, and_self, if_true, hid]
  | false =>
    have hf : ∀ t : State, True → Window t (decodeRegion d qf dst t) ∧ True := by
      intro t _
      unfold decodeRegion
      rw [if_pos hbc]
      exact ⟨window_metaDecodeBc d qf t dst, trivial⟩
    refine ⟨_, hor.trans (window_repeatDecode hf regions.length trivial), ?_, ?_⟩
    · refine iff_of_false Bool.false_ne_true (not_not_intro ?_)
      exact flushBits_repeatDecode (flushBits_decodeRegion hq dst) (length_pos_iff.mpr hr)
    · unfold copyToImage
      simp only [hdec, hbc, Bool.false_eq_true, and_false, if_false, if_true]

end Copy

/-- ASTC and ETC decodes outside a window drain the flush by themselves. -/
theorem Inv.repeatDecode (h : Inv d qf n s) (hbc : dst.emulation ≠ .bc) (k : ℕ) :
    Inv d qf n (repeatDecode (decodeRegion d qf dst) s k) := by
  induction k generalizing s with
  | zero => exact h
  | succ k ih =>
    apply ih
    unfold decodeRegion
    rw [if_neg hbc]
    exact h.computeDispatch

/-! ## Commands -/

/-- The commands that leave no pending flush without bits. The first three cases hold for any
command: there are no decodes, all work flushes, or a query leaves bits at the end of every copy. -/
def Meets (d : Device) (qf : Queue) (s : State) (c : Cmd) : Prop :=
  qf = .transfer ∨ AlwaysFlushes d qf ∨ 0 < s.numPipelineStat ∨
    match c with
    | .copyBufferToImage dst _ _ =>
      match dst.emulation with
      | .native => True
      | .bc => ¬ dst.silent d
      | .astc | .etc => s.bcDecodePending = false
    | .copyMemoryToImage dst _ _ => dst.emulation = .bc → ¬ dst.silent d
    | .copyImage srcAlias dst _ _ => dst.emulation = .bc → ¬ dst.silent d ∨ (dst.bcAlias && srcAlias) = true
    | _ => True

/-- What a command that does not meet the condition leaves behind. -/
structure Broken (s : State) : Prop where
  pending : s.bcDecodePending = true
  bits : s.flushBits = 0
  active : s.bcDecodeActive = 0

lemma Broken.resumeQueries (h : Broken s) (hn : s.numPipelineStat = 0) : Broken (resumeQueries s) := by
  unfold CmdBuffer.resumeQueries
  rw [if_neg (by omega)]
  exact h

lemma suspendQueries_pending (s : State) : (suspendQueries s).bcDecodePending = s.bcDecodePending := by
  unfold suspendQueries
  split
  · rfl
  · rfl

lemma valid_regions
    (h : (!regions.isEmpty && regions.all fun ops => ops.all fun o => o.allowed qf) = true) :
    regions ≠ [] ∧ ∀ ops ∈ regions, ∀ o ∈ ops, o.allowed qf = true := by
  simpa using h

lemma Inv.copyBufferToImage_of_not_decodes (h : Inv d qf n s) (hdec : ¬ dst.decodes qf = true)
    (orderBits : Flags) (hr : ∀ ops ∈ regions, ∀ o ∈ ops, o.allowed qf = true) :
    Inv d qf n (copyBufferToImage d qf s dst orderBits regions) := by
  have hcopy : Inv d qf n (if dst.bcAlias = true ∧ qf ≠ .transfer then CmdBuffer.suspendQueries s
      else CmdBuffer.copyRegions d qf (CmdBuffer.suspendQueries s) regions) := by
    split
    · exact h.suspendQueries
    · exact h.suspendQueries.copyRegions hr
  unfold CmdBuffer.copyBufferToImage copyBufferToImageBody
  dsimp only
  rw [if_neg hdec, if_neg hdec]
  exact hcopy.resumeQueries

lemma Inv.copyToImage_of_not_bc (h : Inv d qf n s)
    (hbc : dst.decodes qf = true → dst.emulation ≠ .bc) (skipDecode : Bool) (orderBits : Flags)
    (hr : ∀ ops ∈ regions, ∀ o ∈ ops, o.allowed qf = true) :
    Inv d qf n (copyToImage d qf s dst skipDecode orderBits regions) := by
  have hcopy := h.suspendQueries.copyRegions hr
  unfold CmdBuffer.copyToImage
  dsimp only
  split
  · next hdec =>
    have hne := hbc hdec
    have hdecode := (hcopy.orFlush (syncCs ||| syncPs ||| orderBits)).repeatDecode hne regions.length
    rw [if_neg hne, if_neg fun hand => hne hand.1]
    exact hdecode.resumeQueries
  · exact hcopy.resumeQueries

/-- The end of a copy that has decoded a BC image: it keeps the invariant if there are bits to
flush, and only then. -/
theorem Inv.decodeFlush (h : Inv d qf n s) (hw : Window s t) (hq : qf ≠ .transfer) (k : ℕ)
    {p : Prop} (hp : p ↔ AlwaysFlushes d qf ∨ 0 < n ∨ ¬ dst.silent d ∨ t.flushBits ≠ 0) :
    let s' := CmdBuffer.resumeQueries { metaDecodeBcFlush d { t with bcDecodeActive := k } dst with
      bcDecodeActive := t.bcDecodeActive }
    (p → Inv d qf n s') ∧ (¬ p → Broken s') := by
  rw [hp]
  constructor
  · intro hmeets
    have hgood : Good { t with bcDecodeActive := k } := ⟨(hw.good h.good).safe, (hw.good h.good).flushed⟩
    have hflush := good_metaDecodeBcFlush (d := d) hgood dst
    refine inv_resumeQueries ⟨hflush.safe, hflush.flushed⟩ (hw.active.trans h.active) (hw.stat.trans h.stat)
      (fun h => absurd h hq) ?_
    rcases hmeets with h | h | h | h
    · exact .inr (.inl h)
    · exact .inl h
    · exact .inr (.inr fun _ => or_ne_zero_right fun hzero => h ((srcAccessFlush_eq_zero_iff d dst).mp hzero))
    · exact .inr (.inr fun _ => or_ne_zero_left h)
  · intro hm
    simp only [not_or, not_not] at hm
    have hbits : t.flushBits ||| srcAccessFlush d computeShaderWrite (some dst) = 0 := by
      rw [hm.2.2.2, (srcAccessFlush_eq_zero_iff d dst).mpr hm.2.2.1]
      rfl
    exact Broken.resumeQueries ⟨rfl, hbits,
      hw.active.trans h.active⟩ (hw.stat.trans (h.stat.trans (by omega)))

/-- A copy from a buffer keeps the invariant if it meets the condition, and only then. -/
theorem Inv.copyBufferToImage (h : Inv d qf n s) {orderBits : Flags}
    (hv : (Cmd.copyBufferToImage dst orderBits regions).valid qf = true) :
    (Meets d qf s (.copyBufferToImage dst orderBits regions) →
      Inv d qf n (copyBufferToImage d qf s dst orderBits regions)) ∧
    (¬ Meets d qf s (.copyBufferToImage dst orderBits regions) →
      Broken (copyBufferToImage d qf s dst orderBits regions)) := by
  obtain ⟨hne, hr⟩ := valid_regions hv
  have hs := h.suspendQueries
  by_cases hdec : dst.decodes qf = true
  · obtain ⟨hnative, hq⟩ := (decodes_iff dst qf).mp hdec
    obtain ⟨t, hw, hzero, heq⟩ := @copyBufferToImage_eq d qf dst hdec orderBits regions hne s
    have hpending : t.bcDecodePending = s.bcDecodePending := hw.pending.trans (suspendQueries_pending s)
    rw [heq]
    unfold Meets
    by_cases hbc : dst.emulation = .bc
    · rw [if_pos hbc]
      refine hs.decodeFlush hw hq _ ?_
      simp only [hbc, hq, h.stat, hzero, ne_eq, not_true_eq_false, or_false, false_or]
    · -- a decode in the window does not drain the flush, so it must not have been pending
      rw [if_neg hbc]
      have hcond : (match dst.emulation with
          | .native => True
          | .bc => ¬ dst.silent d
          | .astc | .etc => s.bcDecodePending = false) ↔ s.bcDecodePending = false := by
        cases hemu : dst.emulation with
        | native => exact absurd hemu hnative
        | bc => exact absurd hemu hbc
        | astc => exact Iff.rfl
        | etc => exact Iff.rfl
      simp only [hcond]
      constructor
      · intro hm
        apply inv_resumeQueries (hw.good hs.good) (hw.active.trans hs.active) (hw.stat.trans hs.stat)
        · exact fun ht => absurd ht hq
        · rcases hm with hm | hm | hm | hm
          · exact absurd hm hq
          · exact .inr (.inl hm)
          · exact .inl (h.stat ▸ hm)
          · exact .inr (.inr fun hp => absurd (hpending.symm.trans hp) (by rw [hm]; decide))
      · intro hm
        simp only [not_or] at hm
        have hbroken : Broken t :=
          ⟨hpending.trans (by simpa using hm.2.2.2), hzero, hw.active.trans hs.active⟩
        exact hbroken.resumeQueries (hw.stat.trans (hs.stat.trans (h.stat.symm.trans (by omega))))
  · refine ⟨fun _ => h.copyBufferToImage_of_not_decodes hdec orderBits hr, fun hm => absurd ?_ hm⟩
    rw [decodes_iff] at hdec
    unfold Meets
    by_cases hq : qf = .transfer
    · exact .inl hq
    · have hnative : dst.emulation = .native := by
        by_contra hn
        exact hdec ⟨hn, hq⟩
      simp only [hnative]
      exact .inr (.inr (.inr trivial))

end

lemma Inv.copyToImage (h : Inv d qf n s) {dst : Image} {skipDecode : Bool} {orderBits : Flags}
    {regions : List (List Op)}
    (hv : (!regions.isEmpty && regions.all fun ops => ops.all fun o => o.allowed qf) = true)
    {p : Prop} (hp : p ↔ (dst.emulation = .bc → ¬ dst.silent d ∨ skipDecode = true)) :
    (qf = .transfer ∨ AlwaysFlushes d qf ∨ 0 < s.numPipelineStat ∨ p →
      Inv d qf n (copyToImage d qf s dst skipDecode orderBits regions)) ∧
    (¬ (qf = .transfer ∨ AlwaysFlushes d qf ∨ 0 < s.numPipelineStat ∨ p) →
      Broken (copyToImage d qf s dst skipDecode orderBits regions)) := by
  obtain ⟨hne, hr⟩ := valid_regions hv
  by_cases hbc : dst.decodes qf = true → dst.emulation ≠ .bc
  · refine ⟨fun _ => h.copyToImage_of_not_bc hbc skipDecode orderBits hr, fun hm => absurd ?_ hm⟩
    by_cases hq : qf = .transfer
    · exact .inl hq
    · refine .inr (.inr (.inr (hp.mpr fun hemu => ?_)))
      exact absurd hemu (hbc ((decodes_iff dst qf).mpr ⟨by rw [hemu]; decide, hq⟩))
  · simp only [Classical.not_imp, not_not] at hbc
    obtain ⟨hdec, hbc⟩ := hbc
    have hq := ((decodes_iff dst qf).mp hdec).2
    have hs := h.suspendQueries.copyRegions hr
    obtain ⟨t, hw, hbits, heq⟩ := copyToImage_bc_eq (d := d) hdec orderBits hne hbc skipDecode s
    rw [heq]
    refine hs.decodeFlush hw hq t.bcDecodeActive ?_
    simp only [hp, hbc, hq, h.stat, hbits, true_implies, false_or]

/-- One command: it keeps the invariant if it meets the condition, and only then. -/
theorem Inv.runCmd (h : Inv d qf n s) {c : Cmd} (hv : c.valid qf = true) :
    (Meets d qf s c → ∃ n', Inv d qf n' (runCmd d qf s c)) ∧
    (¬ Meets d qf s c → Broken (runCmd d qf s c)) := by
  have htrivial : ∀ {q : Prop}, ¬ (qf = .transfer ∨ AlwaysFlushes d qf ∨ 0 < s.numPipelineStat ∨ True) → q :=
    fun hm => absurd (.inr (.inr (.inr trivial))) hm
  cases c with
  | op o => exact ⟨fun _ => ⟨n, h.runOp hv⟩, fun hm => htrivial hm⟩
  | beginQuery =>
    have hinc : Inv d qf (n + 1) { s with numPipelineStat := s.numPipelineStat + 1 } :=
      ⟨⟨h.good.safe, h.good.flushed⟩, h.active, congrArg (· + 1) h.stat, h.transfer, h.bits⟩
    exact ⟨fun _ => ⟨n + 1, hinc.updateHwPipelinestat⟩, fun hm => htrivial hm⟩
  | endQuery =>
    have hdec : Inv d qf (n - 1) { s with numPipelineStat := s.numPipelineStat - 1 } :=
      ⟨⟨h.good.safe, h.good.flushed⟩, h.active, congrArg (· - 1) h.stat, h.transfer, h.bits⟩
    exact ⟨fun _ => ⟨n - 1, hdec.updateHwPipelinestat⟩, fun hm => htrivial hm⟩
  | copyBufferToImage dst orderBits regions =>
    exact ⟨fun hm => ⟨n, (h.copyBufferToImage hv).1 hm⟩, (h.copyBufferToImage hv).2⟩
  | copyMemoryToImage dst orderBits regions =>
    have hcopy := @Inv.copyToImage d qf n s h dst false orderBits regions hv
      (dst.emulation = .bc → ¬ dst.silent d) (by simp)
    exact ⟨fun hm => ⟨n, hcopy.1 hm⟩, hcopy.2⟩
  | copyImage srcAlias dst orderBits regions =>
    have hcopy := @Inv.copyToImage d qf n s h dst (dst.bcAlias && srcAlias) orderBits regions hv _ Iff.rfl
    exact ⟨fun hm => ⟨n, hcopy.1 hm⟩, hcopy.2⟩
  | endCommandBuffer bits =>
    refine ⟨fun _ => ⟨n, ?_⟩, fun hm => htrivial hm⟩
    unfold CmdBuffer.runCmd
    dsimp only
    split
    · exact ((h.orFlush (bits ||| syncCpDma)).emitCacheFlush.emit (by simp)).inv
    · next hq => exact ((h.clear (h.transfer (not_not.mp hq))).emit (by simp)).inv

/-- CP DMA packets only append to the log. -/
theorem log_emitCpDma (s : State) (k : ℕ) : ∃ after, (s.emitCpDma k).log = s.log ++ after := by
  induction k generalizing s with
  | zero => exact ⟨[], (append_nil _).symm⟩
  | succ k ih =>
    obtain ⟨after, hafter⟩ := ih (s.emit .cpDma)
    exact ⟨⟨.cpDma, s.bcDecodePending, s.bcDecodeActive⟩ :: after, by
      show ((s.emit .cpDma).emitCpDma k).log = _
      rw [hafter]
      simp [State.emit]⟩

/-- After a command that does not meet the condition there is work that comes before the flush. -/
theorem Broken.not_safe (h : Broken s) (hq : qf ≠ .transfer) (hflush : ¬ AlwaysFlushes d qf) :
    ∃ o : Op, o.allowed qf = true ∧ ¬ Safe (CmdBuffer.runOp d qf s o).log := by
  have hunsafe : ∀ e : Event, e.ordered = true → ∀ k, ¬ Safe ((s.emit e).emitCpDma k).log := by
    intro e he k hsafe
    obtain ⟨after, hlog⟩ := log_emitCpDma (s.emit e) k
    rw [hlog] at hsafe
    have hentry :=
      hsafe s.log after ⟨e, s.bcDecodePending, s.bcDecodeActive⟩ (by simp [State.emit]) he h.active
    exact Bool.noConfusion (h.pending.symm.trans hentry.1)
  cases qf with
  | transfer => exact absurd rfl hq
  | general =>
    refine ⟨.draw 0, rfl, ?_⟩
    have hrun : CmdBuffer.runOp d .general s (.draw 0) = s.emit .draw := by
      have hor : s.orFlush 0 = s := by
        simp [State.orFlush]
      unfold CmdBuffer.runOp emitCacheFlushIfBits
      dsimp only
      rw [hor, if_neg (by simpa using h.bits)]
    rw [hrun]
    exact hunsafe .draw rfl 0
  | compute =>
    refine ⟨.cpDmaFill 4 true, rfl, ?_⟩
    have hl2 : ¬ ((9 ≤ d.gfxLevel ∨ ¬ true = true) ∧ ¬ d.cpDmaUseL2 = true) := by
      intro ⟨hgfx, hcp⟩
      exact hflush ⟨rfl, by simpa using hcp, by simpa using hgfx⟩
    have hpackets : 0 < (4 + d.cpDmaMaxByteCount - 1) / d.cpDmaMaxByteCount :=
      Nat.div_pos (by have := d.cpDmaMaxByteCount_pos; omega) d.cpDmaMaxByteCount_pos
    have hrun : CmdBuffer.runOp d .compute s (.cpDmaFill 4 true) =
        (s.emit .cpDma).emitCpDma ((4 + d.cpDmaMaxByteCount - 1) / d.cpDmaMaxByteCount - 1) := by
      show CmdBuffer.cpDmaFillMemory d .compute s 4 true = _
      unfold CmdBuffer.cpDmaFillMemory
      dsimp only
      rw [if_neg (by decide), if_neg hl2]
      unfold emitCacheFlushIfBits
      rw [if_neg (by simpa using h.bits)]
      obtain ⟨k, hk⟩ := exists_eq_succ_of_ne_zero (Nat.pos_iff_ne_zero.mp hpackets)
      rw [hk]
      rfl
    rw [hrun]
    exact hunsafe .cpDma rfl _

/-! ## Runs -/

lemma inv_of_run {l : List Cmd} (h : Run (only (Meets d qf) (Step d qf)) State.init l s) :
    ∃ n, Inv d qf n s := by
  apply Run.invariant (I := fun _ s => ∃ n, Inv d qf n s) h
  · exact ⟨0, Clear.inv ⟨⟨safe_nil, fun _ => flushed_nil⟩, rfl, rfl, rfl⟩⟩
  · intro _ t c _ ⟨n, ht⟩ ⟨hm, hv, hrun⟩
    rw [hrun]
    exact (ht.runCmd hv).1 hm

/-- In every recording whose commands meet the condition, draws, dispatches, CP DMA operations and
the end of the command buffer come after the flushes of all decodes. The condition cannot be
weakened: after a command that does not meet it, some operation comes before the flush. -/
theorem ordered_of_run {l : List Cmd} (h : Run (only (Meets d qf) (Step d qf)) State.init l s) :
    Safe s.log ∧ ∀ c : Cmd, c.valid qf = true →
      ((∀ o : Op, o.allowed qf = true → Safe (CmdBuffer.runOp d qf (CmdBuffer.runCmd d qf s c) o).log) ↔
        Meets d qf s c) := by
  obtain ⟨n, hinv⟩ := inv_of_run h
  refine ⟨hinv.good.safe, fun c hv => ⟨?_, ?_⟩⟩
  · intro hsafe
    by_contra hm
    rcases ((hinv.runCmd hv).2 hm).not_safe (fun hq => hm (.inl hq)) (fun hq => hm (.inr (.inl hq)))
      with ⟨o, ho, hunsafe⟩
    exact hunsafe (hsafe o ho)
  · intro hm o ho
    obtain ⟨n', hn'⟩ := (hinv.runCmd hv).1 hm
    exact (hn'.runOp ho).good.safe

end

/-- A device with L2-coherent images and CP DMA through L2. -/
def exampleDevice : Device := ⟨11, true, false, 64, by decide, false⟩

/-- A sampled BC image with one plane. -/
def exampleBcImage (usageStorage : Bool) : Image :=
  ⟨.bc, usageStorage, false, false, false, 1, [2 ^ 32 - 1], false, false, false, false⟩

/-- An image of an emulated ETC2 format. -/
def exampleEtcImage : Image := ⟨.etc, true, false, false, false, 1, [2 ^ 32 - 1], false, false, false, false⟩

/-- A copy to a sampled BC image and a draw: the flush comes first, and a copy to an ETC2 image can
follow. -/
theorem ordered_of_run_copy_draw :
    let s := runCmd exampleDevice .general
      (runCmd exampleDevice .general State.init (.copyBufferToImage (exampleBcImage false) 0 [[.dispatch]]))
      (.op (.draw 0))
    Safe s.log ∧ ∀ o : Op, o.allowed .general = true →
      Safe (runOp exampleDevice .general
        (runCmd exampleDevice .general s (.copyBufferToImage exampleEtcImage 0 [[.dispatch]])) o).log := by
  intro s
  have hcopy : Meets exampleDevice .general State.init
    (.copyBufferToImage (exampleBcImage false) 0 [[.dispatch]]) :=
    .inr (.inr (.inr fun hsilent => Bool.noConfusion hsilent.1))
  have hrun : Run (only (Meets exampleDevice .general) (Step exampleDevice .general)) State.init
      ([] ++ [_] ++ [.op (.draw 0)]) s :=
    .snoc (.snoc .nil ⟨hcopy, rfl, rfl⟩) ⟨.inr (.inr (.inr trivial)), rfl, rfl⟩
  have hsafe := ordered_of_run hrun
  exact ⟨hsafe.1, (hsafe.2 _ rfl).mpr (.inr (.inr (.inr rfl)))⟩

/-- Two recordings with a draw before the flush. In the first the bits of a BC copy are used up in
the decode window of a copy to an ETC2 image; in the second the BC image has storage usage and the
copy leaves no bits. -/
theorem draw_before_flush :
    (∃ e ∈ (([Cmd.copyBufferToImage (exampleBcImage false) 0 [[.dispatch]],
        .copyBufferToImage exampleEtcImage 0 [[.dispatch]], .op (.draw 0)].foldl
          (runCmd exampleDevice .general) State.init).log),
      e.event = .draw ∧ e.active = 0 ∧ e.pending = true) ∧
    ∃ e ∈ (([Cmd.copyBufferToImage (exampleBcImage true) 0 [[.dispatch]], .op (.draw 0)].foldl
        (runCmd exampleDevice .general) State.init).log),
      e.event = .draw ∧ e.active = 0 ∧ e.pending = true := by
  decide

end RadvXclipse.CmdBuffer
