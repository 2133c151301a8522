import RadvXclipse.Lib.Run
import RadvXclipse.CmdBuffer.CacheFlush

/-!
# Decodes are ordered before later work

Draws and CP DMA operations call `radv_emit_cache_flush` only if there are flush bits. So outside a
decode window a pending decode flush must come with flush bits. That holds as long as every command
that leaves a flush pending also leaves flush bits behind; two kinds of copies do not.
-/

namespace RadvXclipse.CmdBuffer

open Lib List

/-! ## The property -/

/-- An event that has to come after all decodes before it. -/
def Event.ordered : Event → Bool
  | .draw | .dispatch | .cpDma | .endCommandBuffer => true
  | _ => false

/-- The flush bits of a decode are among the bits. -/
def Flags.CoverDecode (bits : Flags) : Prop := decodeBits &&& bits = decodeBits

/-- Every deferred flush in the log has been emitted after it was deferred. -/
def Flushed (log : List Entry) : Prop :=
  ∀ before after e, log = before ++ e :: after → e.event = .deferred →
    ∃ f ∈ after, ∃ bits, f.event = .cacheFlush bits ∧ bits.CoverDecode

/-- Outside the decode windows, draws, dispatches, CP DMA operations and the end of the command
buffer find no pending decode flush, as it has been emitted before. -/
def Safe (log : List Entry) : Prop :=
  ∀ before after e, log = before ++ e :: after → e.event.ordered = true → e.active = 0 →
    e.pending = false ∧ Flushed before

/-! ## Logs -/

lemma flushed_nil : Flushed [] := by
  intro before after e h
  exact absurd h (by simp)

lemma safe_nil : Safe [] := by
  intro before after e h
  exact absurd h (by simp)

/-- A log with one entry more is split in its old part or at the new entry. -/
theorem append_singleton_split {α : Type} {l before after : List α} {a e : α}
    (h : l ++ [a] = before ++ e :: after) :
    (before = l ∧ e = a ∧ after = []) ∨ ∃ rest, after = rest ++ [a] ∧ l = before ++ e :: rest := by
  rcases eq_nil_or_concat after with rfl | ⟨rest, b, rfl⟩
  · have h' := append_inj' h rfl
    exact .inl ⟨h'.1.symm, (List.cons.inj h'.2).1.symm, rfl⟩
  · rw [concat_eq_append, ← cons_append, ← append_assoc] at h
    have h' := append_inj' h rfl
    rw [concat_eq_append, ← (List.cons.inj h'.2).1]
    exact .inr ⟨rest, rfl, h'.1⟩

variable {log : List Entry}

lemma flushed_append {a : Entry} (h : Flushed log) (ha : a.event ≠ .deferred) :
    Flushed (log ++ [a]) := by
  intro before after e heq he
  rcases append_singleton_split heq with ⟨-, rfl, -⟩ | ⟨rest, rfl, hlog⟩
  · exact absurd he ha
  · obtain ⟨f, hf, hbits⟩ := h before rest e hlog he
    exact ⟨f, mem_append_left _ hf, hbits⟩

variable {bits : Flags}

/-- A flush with the bits of a decode covers all that has been deferred. -/
theorem flushed_append_flush {a : Entry} (ha : a.event = .cacheFlush bits)
    (hbits : bits.CoverDecode) : Flushed (log ++ [a]) := by
  intro before after e heq he
  rcases append_singleton_split heq with ⟨-, rfl, -⟩ | ⟨rest, rfl, -⟩
  · rw [ha] at he
    exact absurd he (by simp)
  · exact ⟨a, by simp, bits, ha, hbits⟩

lemma safe_append {a : Entry} (h : Safe log)
    (ha : a.event.ordered = true → a.active = 0 → a.pending = false ∧ Flushed log) : Safe (log ++ [a]) := by
  intro before after e heq he hactive
  rcases append_singleton_split heq with ⟨rfl, rfl, -⟩ | ⟨rest, rfl, hlog⟩
  · exact ha he hactive
  · exact h before rest e hlog he hactive

/-! ## Flush bits -/

lemma CoverDecode.or_left {a b : Flags} (h : a.CoverDecode) : (a ||| b).CoverDecode := by
  unfold Flags.CoverDecode at *
  rw [BitVec.and_or_distrib_left, h]
  ext i hi
  simp only [BitVec.getElem_or, BitVec.getElem_and]
  cases decodeBits[i] <;> simp

theorem CoverDecode.and {a b : Flags} (ha : a.CoverDecode) (hb : b.CoverDecode) : (a &&& b).CoverDecode := by
  unfold Flags.CoverDecode at *
  rw [← BitVec.and_assoc, ha, hb]

lemma coverDecode_or_decodeBits (a : Flags) : (a ||| decodeBits).CoverDecode := by
  rw [BitVec.or_comm]
  exact CoverDecode.or_left (show decodeBits &&& decodeBits = decodeBits by decide)

lemma or_ne_zero_left {a b : Flags} (h : a ≠ 0) : a ||| b ≠ 0 := fun h' => h (BitVec.or_eq_zero_iff.mp h').1

lemma or_ne_zero_right {a b : Flags} (h : b ≠ 0) : a ||| b ≠ 0 := fun h' => h (BitVec.or_eq_zero_iff.mp h').2

section

variable (d : Device) (qf : Queue)

/-! ## One state -/

/-- What holds of the log in every state, in a decode window or not. -/
structure Good (s : State) : Prop where
  safe : Safe s.log
  flushed : s.bcDecodePending = false → Flushed s.log

variable {d qf} {s : State}

theorem Good.emit (h : Good s) {e : Event} (he : e ≠ .deferred)
    (hpending : e.ordered = true → s.bcDecodeActive = 0 → s.bcDecodePending = false) : Good (s.emit e) := by
  constructor
  · apply safe_append h.safe
    intro ho ha
    exact ⟨hpending ho ha, h.flushed (hpending ho ha)⟩
  · intro hp
    exact flushed_append (h.flushed hp) he

lemma Good.orFlush (h : Good s) (bits : Flags) : Good (s.orFlush bits) := ⟨h.safe, h.flushed⟩

/-- What `radv_emit_cache_flush` does to the state. -/
structure Drained (s s' : State) : Prop where
  good : Good s → Good s'
  bits : s'.flushBits = 0
  pending : s'.bcDecodePending = (if s.bcDecodeActive = 0 then false else s.bcDecodePending)
  active : s'.bcDecodeActive = s.bcDecodeActive
  stat : s'.numPipelineStat = s.numPipelineStat

variable (d : Device)

lemma coverDecode_emittedBits (h : bits.CoverDecode) : (emittedBits d bits).CoverDecode := by
  have hmask : (bits &&& ~~~syncCpDma).CoverDecode :=
    CoverDecode.and h (show decodeBits &&& ~~~syncCpDma = decodeBits by decide)
  unfold emittedBits
  dsimp only
  split
  · exact CoverDecode.or_left hmask
  · exact hmask

lemma CoverDecode.ne_zero (h : bits.CoverDecode) : bits ≠ 0 := by
  intro hzero
  rw [hzero] at h
  exact absurd h (show ¬ decodeBits &&& 0 = decodeBits by decide)

variable (qf : Queue)

lemma maskBits_log (s : State) :
    (s.maskBits qf).log = s.log ∧ (s.maskBits qf).bcDecodePending = s.bcDecodePending ∧
      (s.maskBits qf).bcDecodeActive = s.bcDecodeActive ∧
      (s.maskBits qf).numPipelineStat = s.numPipelineStat := by
  unfold State.maskBits
  split
  · exact ⟨rfl, rfl, rfl, rfl⟩
  · exact ⟨rfl, rfl, rfl, rfl⟩

lemma maskBits_coverDecode {s : State} (h : s.flushBits.CoverDecode) :
    (s.maskBits qf).flushBits.CoverDecode := by
  unfold State.maskBits
  split
  · exact CoverDecode.and h (show decodeBits &&& allCompute = decodeBits by decide)
  · exact h

lemma drained_emitCacheFlush (s : State) : Drained s (emitCacheFlush d qf s) := by
  obtain ⟨hlog, hpending, hactive, hstat⟩ := maskBits_log qf s.drain
  have hmasked := @maskBits_coverDecode qf s.drain
  unfold emitCacheFlush
  dsimp only
  generalize s.drain.maskBits qf = m at hlog hpending hactive hstat hmasked ⊢
  by_cases hp : s.bcDecodePending = true ∧ s.bcDecodeActive = 0
  · -- the deferred flush is part of what is emitted now
    have hdrain : s.drain = { s with bcDecodePending := false, flushBits := s.flushBits ||| decodeBits } :=
      if_pos hp
    rw [hdrain] at hlog hpending hactive hstat hmasked
    have hcover := hmasked (coverDecode_or_decodeBits _)
    rw [if_neg (CoverDecode.ne_zero hcover)]
    refine ⟨fun hgood => ⟨?_, fun _ => ?_⟩, rfl, ?_, hactive, hstat⟩
    · show Safe (m.log ++ [_])
      rw [hlog]
      exact safe_append hgood.safe fun ho => absurd ho (by simp [Event.ordered])
    · exact flushed_append_flush rfl (coverDecode_emittedBits d hcover)
    · rw [if_pos hp.2]
      exact hpending
  · have hdrain : s.drain = s := if_neg hp
    rw [hdrain] at hlog hpending hactive hstat
    have hvalue : s.bcDecodePending = (if s.bcDecodeActive = 0 then false else s.bcDecodePending) := by
      by_cases ha : s.bcDecodeActive = 0
      · rw [if_pos ha]
        simpa [ha] using hp
      · rw [if_neg ha]
    have hmask : Good s → Good m := by
      intro hgood
      exact ⟨by rw [hlog]; exact hgood.safe, by rw [hlog, hpending]; exact hgood.flushed⟩
    split
    · next hzero => exact ⟨hmask, hzero, hpending.trans hvalue, hactive, hstat⟩
    · refine ⟨?_, rfl, hpending.trans hvalue, hactive, hstat⟩
      intro hgood
      have hemit := (hmask hgood).emit (e := .cacheFlush (emittedBits d m.flushBits)) (by simp)
        fun ho => absurd ho (by simp [Event.ordered])
      exact ⟨hemit.safe, hemit.flushed⟩

/-! ## In a decode window -/

/-- Steps that leave the pending flush alone. -/
structure Window (s s' : State) : Prop where
  good : Good s → Good s'
  pending : s'.bcDecodePending = s.bcDecodePending
  active : s'.bcDecodeActive = s.bcDecodeActive
  stat : s'.numPipelineStat = s.numPipelineStat

lemma Window.refl (s : State) : Window s s := ⟨id, rfl, rfl, rfl⟩

lemma Window.trans {s t u : State} (h : Window s t) (h' : Window t u) : Window s u :=
  ⟨fun hg => h'.good (h.good hg), h'.pending.trans h.pending, h'.active.trans h.active, h'.stat.trans h.stat⟩

lemma window_orFlush (s : State) (bits : Flags) : Window s (s.orFlush bits) :=
  ⟨fun h => h.orFlush bits, rfl, rfl, rfl⟩

lemma window_emit {e : Event} (he : e ≠ .deferred) (h : 0 < s.bcDecodeActive) : Window s (s.emit e) :=
  ⟨fun hg => hg.emit he fun _ hzero => absurd hzero (by omega), rfl, rfl, rfl⟩

section

variable (h : 0 < s.bcDecodeActive)
include h

lemma window_emitCacheFlush : Window s (emitCacheFlush d qf s) := by
  have hd := drained_emitCacheFlush d qf s
  refine ⟨hd.good, ?_, hd.active, hd.stat⟩
  rw [hd.pending, if_neg (by omega)]

lemma window_emitCacheFlushIfBits : Window s (emitCacheFlushIfBits d qf s) := by
  unfold emitCacheFlushIfBits
  split
  · exact window_emitCacheFlush d qf h
  · exact .refl s

lemma window_computeDispatch : Window s (computeDispatch d qf s) := by
  unfold computeDispatch
  split
  · have hf := window_emitCacheFlush d qf h
    exact hf.trans (window_emit (by simp) (by rw [hf.active]; exact h))
  · exact window_emit (by simp) h

end

lemma window_emitCpDma (n : ℕ) (h : 0 < s.bcDecodeActive) : Window s (s.emitCpDma n) := by
  induction n generalizing s with
  | zero => exact .refl s
  | succ n ih =>
    have he : Window s (s.emit .cpDma) := window_emit (by simp) h
    exact he.trans (ih (by rw [he.active]; exact h))

lemma window_ite {p : Prop} [Decidable p] {a b : State} (ha : Window s a) (hb : Window s b) :
    Window s (if p then a else b) := by
  split
  · exact ha
  · exact hb

section

variable (h : 0 < s.bcDecodeActive)
include h

lemma window_cpDmaCopyMemory (srcVa size : ℕ) : Window s (cpDmaCopyMemory d qf s srcVa size) := by
  have hactive : ∀ {t}, Window s t → 0 < t.bcDecodeActive := fun ht => by rw [ht.active]; exact h
  have h1 : Window s (if d.cpDmaUseL2 then s else s.orFlush invL2) :=
    window_ite (.refl s) (window_orFlush s _)
  have h2 := h1.trans (window_emitCacheFlushIfBits d qf (hactive h1))
  have h3 := fun n => h2.trans (window_emitCpDma n (hactive h2))
  have h4 := fun n => (h3 n).trans (window_emitCpDma 1 (hactive (h3 n)))
  unfold cpDmaCopyMemory
  dsimp only
  generalize (if d.hasCpDmaUnalignedCopyPerfIssue = true ∧ srcVa % 32 ≠ 0 then min (32 - srcVa % 32) size else 0) = skipped
  generalize (size - skipped + d.cpDmaMaxByteCount - 1) / d.cpDmaMaxByteCount = n
  have h5 := window_ite (p := skipped ≠ 0) (h4 n) (h3 n)
  exact window_ite (h5.trans (window_emitCpDma 1 (hactive h5))) h5

lemma window_cpDmaFillMemory (size : ℕ) (b : Bool) : Window s (cpDmaFillMemory d qf s size b) := by
  have hactive : ∀ {t}, Window s t → 0 < t.bcDecodeActive := fun ht => by rw [ht.active]; exact h
  unfold cpDmaFillMemory
  split
  · exact .refl s
  · have h1 := window_ite (p := (9 ≤ d.gfxLevel ∨ ¬ b = true) ∧ ¬ d.cpDmaUseL2 = true)
      (window_orFlush s invL2) (.refl s)
    have h2 := h1.trans (window_emitCacheFlushIfBits d qf (hactive h1))
    exact h2.trans (window_emitCpDma _ (hactive h2))

lemma window_runOp (o : Op) : Window s (runOp d qf s o) := by
  cases o with
  | addFlushBits bits => exact window_orFlush s bits
  | draw bits =>
    have h1 := window_orFlush s bits
    have h2 := h1.trans (window_emitCacheFlushIfBits d qf (by rw [h1.active]; exact h))
    exact h2.trans (window_emit (by simp) (by rw [h2.active]; exact h))
  | dispatch => exact window_computeDispatch d qf h
  | traceRays =>
    have h1 := window_emitCacheFlush d qf h
    exact h1.trans (window_emit (by simp) (by rw [h1.active]; exact h))
  | cpDmaCopy srcVa size => exact window_cpDmaCopyMemory d qf h srcVa size
  | cpDmaFill size b => exact window_cpDmaFillMemory d qf h size b
  | cacheFlush => exact window_emitCacheFlush d qf h

end

lemma window_foldl {α : Type} {f : State → α → State}
    (hf : ∀ t a, 0 < t.bcDecodeActive → Window t (f t a)) (l : List α) (h : 0 < s.bcDecodeActive) :
    Window s (l.foldl f s) := by
  induction l generalizing s with
  | nil => exact .refl s
  | cons a l ih =>
    have ha := hf s a h
    exact ha.trans (ih (by rw [ha.active]; exact h))

lemma window_copyRegions (h : 0 < s.bcDecodeActive) (regions : List (List Op)) :
    Window s (copyRegions d qf s regions) :=
  window_foldl (fun _ ops ht => window_foldl (fun _ o hu => window_runOp d qf hu o) ops ht) regions h

/-- A nested window. -/
theorem window_window {f : State → State} (hf : ∀ t, 0 < t.bcDecodeActive → Window t (f t)) (s : State) :
    Window s (s.window f) := by
  have h := hf { s with bcDecodeActive := s.bcDecodeActive + 1 } (Nat.succ_pos _)
  refine ⟨?_, h.pending, ?_, h.stat⟩
  · intro hg
    have hg' := h.good ⟨hg.safe, hg.flushed⟩
    exact ⟨hg'.safe, hg'.flushed⟩
  · show (f _).bcDecodeActive - 1 = _
    rw [h.active]
    exact Nat.add_sub_cancel _ 1

lemma window_bcDecode (s : State) : Window s (bcDecode d qf s) :=
  window_window (fun _ ht => window_computeDispatch d qf ht) s

lemma window_metaDecodeBc (s : State) (i : Image) : Window s (metaDecodeBc d qf s i) := by
  have h := window_bcDecode d qf s
  exact window_ite (h.trans (window_bcDecode d qf _)) h

lemma window_decodeRegion (h : 0 < s.bcDecodeActive) (i : Image) :
    Window s (decodeRegion d qf i s) :=
  window_ite (window_metaDecodeBc d qf s i) (window_computeDispatch d qf h)

end

end RadvXclipse.CmdBuffer
