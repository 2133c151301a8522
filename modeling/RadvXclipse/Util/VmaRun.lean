import RadvXclipse.Lib.Run
import RadvXclipse.Util.VmaPlace

/-!
# Runs of the heap of virtual addresses

The callers of the heap: what they have allocated and not freed yet is `live`. Holes and live ranges
tile the range the heap was made for, and the holes are the maximal intervals that are left, so that
they depend on the live ranges alone.
-/

namespace RadvXclipse.Util.Vma

open Lib List Option

structure Sys where
  heap : Heap
  live : List Span
  /-- the arguments of the last `util_vma_heap_init` -/
  range : Span

inductive Label
  | init (range : Span)
  | alloc (size alignment : ℕ)
  | allocAddr (s : Span)
  | free (s : Span)
  /-- the user of the heap writes `alloc_high` -/
  | setAllocHigh (b : Bool)

/-- The range a heap can be made for: it may be empty and may end at the end of the address
space. -/
structure InitOk (range : Span) : Prop where
  start_pos : 0 < range.offset
  stop_le : range.stop ≤ 2 ^ 64

instance (range : Span) : Decidable (InitOk range) :=
  decidable_of_iff (0 < range.offset ∧ range.stop ≤ 2 ^ 64) ⟨fun h => ⟨h.1, h.2⟩, fun h => ⟨h.1, h.2⟩⟩

instance (s : Span) : Decidable (Valid s) :=
  decidable_of_iff (0 < s.offset ∧ 0 < s.size ∧ s.stop ≤ 2 ^ 64)
    ⟨fun h => ⟨h.1, h.2.1, h.2.2⟩, fun h => ⟨h.1, h.2, h.3⟩⟩

/-- `util_vma_heap_init`. -/
def Sys.init (range : Span) : Sys := ⟨heapInit range.offset range.size, [], range⟩

/-- `util_vma_heap_alloc`. -/
def Sys.alloc (s : Sys) (size alignment : ℕ) : Sys :=
  match heapAlloc s.heap size alignment with
  | (0, heap) => { s with heap := heap }
  | (offset, heap) => { s with heap := heap, live := ⟨offset, size⟩ :: s.live }

/-- `util_vma_heap_alloc_addr`. -/
def Sys.allocAddr (s : Sys) (r : Span) : Sys :=
  match heapAllocAddr s.heap r.offset r.size with
  | (true, heap) => { s with heap := heap, live := r :: s.live }
  | (false, heap) => { s with heap := heap }

/-- `util_vma_heap_free`. -/
def Sys.free (s : Sys) (r : Span) : Sys :=
  { s with heap := heapFree s.heap r.offset r.size, live := s.live.erase r }

/-- The calls, where their assertions on the arguments hold and only live ranges are freed. -/
def Sys.step (s : Sys) : Label → Option Sys
  | .init range => if InitOk range then some (Sys.init range) else none
  | .alloc size alignment => if 0 < size ∧ 0 < alignment then some (s.alloc size alignment) else none
  | .allocAddr r => if Valid r then some (s.allocAddr r) else none
  | .free r => if r ∈ s.live then some (s.free r) else none
  | .setAllocHigh b => some { s with heap := { s.heap with allocHigh := b } }

def Step (s : Sys) (l : Label) (s' : Sys) : Prop := s.step l = some s'

/-- The representation invariant of the heap. -/
structure Sound (s : Sys) : Prop where
  initOk : InitOk s.range
  /-- from high to low, not empty, not adjacent -/
  canonical : Canonical s.heap.holes
  live_size : ∀ r ∈ s.live, 0 < r.size
  live_apart : s.live.Pairwise Span.Apart
  holes_apart : ∀ x, Covers s.heap.holes x → ¬ Covers s.live x
  tile : ∀ x, s.range.Has x ↔ Covers s.heap.holes x ∨ Covers s.live x
  freeSize_eq : s.heap.freeSize = total s.heap.holes
  nospan : s.heap.nospanShift = 0

section Sound

variable {s : Sys} (h : Sound s)
include h

theorem Sound.bounds {x : ℕ} (hx : Covers s.heap.holes x ∨ Covers s.live x) : 0 < x ∧ x < 2 ^ 64 := by
  have hin := (h.tile x).mpr hx
  exact ⟨lt_of_lt_of_le h.initOk.start_pos hin.1, lt_of_lt_of_le hin.2 h.initOk.stop_le⟩

variable {r : Span}

/-- A range that is not empty and covered is valid. -/
theorem Sound.valid (hsize : 0 < r.size)
    (hcov : ∀ x, r.Has x → Covers s.heap.holes x ∨ Covers s.live x) : Valid r := by
  have hfirst := h.bounds (hcov _ (Span.has_offset hsize))
  have hlast := h.bounds (hcov _ (Span.has_last hsize))
  exact ⟨hfirst.1, hsize, by omega⟩

lemma Sound.holes_valid : ∀ r ∈ s.heap.holes, Valid r :=
  fun r hr => h.valid (h.canonical.pos r hr) fun _ hx => .inl ⟨r, hr, hx⟩

lemma Sound.live_valid : ∀ r ∈ s.live, Valid r :=
  fun r hr => h.valid (h.live_size r hr) fun _ hx => .inr ⟨r, hr, hx⟩

/-- A live range is in the range of the heap. -/
theorem Sound.inside (hr : r ∈ s.live) : s.range.offset ≤ r.offset ∧ r.stop ≤ s.range.stop := by
  have hpos := h.live_size r hr
  have hfirst := (h.tile _).mpr (.inr ⟨r, hr, Span.has_offset hpos⟩)
  have hlast := (h.tile _).mpr (.inr ⟨r, hr, Span.has_last hpos⟩)
  exact ⟨hfirst.1, Nat.le_of_pred_lt hlast.2⟩

lemma Sound.total_lt : total s.heap.holes < 2 ^ 64 := by
  have hle := h.canonical.total_le 1 (2 ^ 64) fun x hx => h.bounds (.inl hx)
  omega

/-- A range has been taken out of a hole. -/
theorem Sound.carve {holes : List Hole} (hr : 0 < r.size) (hc : Carved r s.heap.holes holes) :
    Sound { s with
      heap := { s.heap with holes := holes, freeSize := sub64 s.heap.freeSize r.size }
      live := r :: s.live } := by
  have hv := h.holes_valid
  have hcov := hc.covers h.canonical hv hr
  have htotal := hc.total hv hr
  have hlt := h.total_lt
  have hin : ∀ x, r.Has x → Covers s.heap.holes x := fun x hx => hc.covers_of_has hx
  refine ⟨h.initOk, hc.canonical h.canonical hv hr, ?_, ?_, ?_, ?_, ?_, h.nospan⟩
  · exact forall_mem_cons.mpr ⟨hr, h.live_size⟩
  · apply pairwise_cons.mpr ⟨?_, h.live_apart⟩
    intro t ht x hx htx
    exact h.holes_apart x (hin x hx) ⟨t, ht, htx⟩
  · intro x hx hlive
    rcases covers_cons.mp hlive with hx' | hx'
    · exact ((hcov x).mp hx).2 hx'
    · exact h.holes_apart x ((hcov x).mp hx).1 hx'
  · intro x
    have htile := h.tile x
    rw [hcov, covers_cons]
    tauto
  · show sub64 s.heap.freeSize r.size = total holes
    rw [h.freeSize_eq, sub64_of_le (by omega) hlt]
    omega

lemma Sound.alloc {size alignment : ℕ} (hsize : 0 < size) (ha : 0 < alignment) :
    Sound (s.alloc size alignment) := by
  unfold Sys.alloc
  rcases heapAlloc_extreme h.canonical h.holes_valid hsize h.nospan ha with
    ⟨heq, -⟩ | ⟨hi, t, lo, o, hholes, hcand, hext, heq⟩
  · rw [heq]
    exact h
  · rw [heq]
    cases o with
    | zero => exact absurd rfl hext.1.1
    | succ o => exact h.carve hsize ⟨hi, t, lo, hholes, hcand.2, rfl⟩

lemma Sound.allocAddr (hr : Valid r) : Sound (s.allocAddr r) := by
  unfold Sys.allocAddr heapAllocAddr
  cases hloop : allocAddrLoop r.offset r.size s.heap.holes with
  | none => exact h
  | some holes => exact h.carve hr.size_pos (allocAddrLoop_carved h.holes_valid hr hloop)

theorem Sound.free (hr : r ∈ s.live) : Sound (s.free r) := by
  have hperm := perm_cons_erase hr
  have hlive : ∀ x, Covers s.live x ↔ r.Has x ∨ Covers (s.live.erase r) x :=
    fun x => (Covers.perm hperm).trans covers_cons
  have hapart := (pairwise_cons.mp ((hperm.pairwise_iff Span.Apart.symm).mp h.live_apart)).1
  have hrest : ∀ x, r.Has x → ¬ Covers (s.live.erase r) x := by
    intro x hx ⟨t, ht, htx⟩
    exact hapart t ht x hx htx
  have hfree := freed_heapFree (h.live_valid r hr) h.canonical h.holes_valid
    fun x hx hcov => h.holes_apart x hcov ⟨r, hr, hx⟩
  have hbound := hfree.canonical.total_le 1 (2 ^ 64) fun x hx => by
    rcases (hfree.covers x).mp hx with hx | hx
    · exact h.bounds (.inl hx)
    · exact h.bounds (.inr ⟨r, hr, hx⟩)
  refine ⟨h.initOk, hfree.canonical, ?_, ?_, ?_, ?_, ?_, h.nospan⟩
  · exact fun t ht => h.live_size t (mem_of_mem_erase ht)
  · exact h.live_apart.sublist erase_sublist
  · intro x hx hx'
    rcases (hfree.covers x).mp hx with hx | hx
    · exact h.holes_apart x hx ((hlive x).mpr (.inr hx'))
    · exact hrest x hx hx'
  · intro x
    have htile := h.tile x
    have hcov := hfree.covers x
    have hlive' := hlive x
    show s.range.Has x ↔ Covers (heapFree s.heap r.offset r.size).holes x ∨ Covers (s.live.erase r) x
    tauto
  · have htotal := hfree.total
    show add64 s.heap.freeSize r.size = total (heapFree s.heap r.offset r.size).holes
    rw [h.freeSize_eq, add64_of_lt (by omega), htotal]

end Sound

lemma sound_init {range : Span} (h : InitOk range) : Sound (Sys.init range) := by
  have hpos := h.start_pos
  have htop := h.stop_le
  simp only [Span.stop] at htop
  have hlive : ∀ x, ¬ Covers (Sys.init range).live x := covers_nil
  by_cases hsize : range.size > 0
  · have hholes : (Sys.init range).heap.holes = [range] := by
      simp [Sys.init, heapInit, hsize, heapFree, freeHoles]
    have hfree : (Sys.init range).heap.freeSize = range.size := by
      simp only [Sys.init, heapInit, hsize, if_true, heapFree]
      rw [add64_of_lt (by omega), zero_add]
    refine ⟨h, ?_, forall_mem_nil _, .nil, fun x _ => hlive x, ?_, ?_, rfl⟩
    · rw [hholes]
      exact ⟨fun t ht => mem_singleton.mp ht ▸ hsize, pairwise_singleton _ _⟩
    · intro x
      rw [hholes, or_iff_left (hlive x), covers_cons, or_iff_left (covers_nil x)]
      rfl
    · rw [hfree, hholes, total_cons, total_nil]
      omega
  · have hholes : (Sys.init range).heap.holes = [] := by simp [Sys.init, heapInit, hsize]
    have hfree : (Sys.init range).heap.freeSize = 0 := by simp [Sys.init, heapInit, hsize]
    refine ⟨h, ?_, forall_mem_nil _, .nil, fun x _ => hlive x, ?_, ?_, rfl⟩
    · rw [hholes]
      exact .nil
    · intro x
      rw [hholes, or_iff_left (hlive x), iff_false_right (covers_nil x)]
      simp only [Sys.init, Span.Has, Span.stop]
      omega
    · rw [hfree, hholes, total_nil]

lemma sound_step {s s' : Sys} {l : Label} (h : Sound s) (hstep : Step s l s') : Sound s' := by
  cases l with
  | init range =>
    obtain ⟨hok, rfl⟩ := ite_some_none_eq_some.mp hstep
    exact sound_init hok
  | alloc size alignment =>
    obtain ⟨hok, rfl⟩ := ite_some_none_eq_some.mp hstep
    exact h.alloc hok.1 hok.2
  | allocAddr r =>
    obtain ⟨hok, rfl⟩ := ite_some_none_eq_some.mp hstep
    exact h.allocAddr hok
  | free r =>
    obtain ⟨hok, rfl⟩ := ite_some_none_eq_some.mp hstep
    exact h.free hok
  | setAllocHigh b =>
    cases hstep
    exact { h with }

/-- After every run from an initialisation. -/
theorem sound_of_run {range : Span} {l : List Label} {s : Sys} (h : InitOk range)
    (hrun : Run Step (Sys.init range) l s) : Sound s :=
  hrun.invariant (I := fun _ s => Sound s) (sound_init h) fun _ _ _ _ hs hstep => sound_step hs hstep

section Sound

variable {s : Sys}

/-- The order of the live ranges does not matter. -/
theorem Sound.perm (h : Sound s) {live : List Span} (hp : live.Perm s.live) :
    Sound { s with live := live } where
  __ := h
  live_size r hr := h.live_size r (hp.mem_iff.mp hr)
  live_apart := (hp.pairwise_iff Span.Apart.symm).mpr h.live_apart
  holes_apart x hx hlive := h.holes_apart x hx ((Covers.perm hp).mp hlive)
  tile x := (h.tile x).trans (or_congr_right (Covers.perm hp).symm)

/-- `util_vma_heap_alloc` from the bottom: there is no place, or it is the lowest one. -/
theorem Sound.heapAlloc_low (h : Sound s) (hlow : s.heap.allocHigh = false) {size alignment : ℕ}
    (hsize : 0 < size) (ha : 0 < alignment) :
    heapAlloc s.heap size alignment = (0, s.heap) ∨
      ∃ offset heap, heapAlloc s.heap size alignment = (offset, heap) ∧ offset ≠ 0 ∧ heap.allocHigh = false ∧
        Sound ⟨heap, ⟨offset, size⟩ :: s.live, s.range⟩ ∧ alignment ∣ offset ∧
        ∀ o, alignment ∣ o → (∀ x, Span.Has ⟨o, size⟩ x → s.range.Has x ∧ ¬ Covers s.live x) →
          offset ≤ o := by
  have hsound := h.alloc hsize ha
  unfold Sys.alloc at hsound
  rcases heapAlloc_extreme h.canonical h.holes_valid hsize h.nospan ha with
    ⟨heq, -⟩ | ⟨_, _, _, offset, _, _, ⟨⟨hne, hdvd, -⟩, hle⟩, heq⟩
  · exact .inl heq
  · rw [heq] at hsound
    refine .inr ⟨offset, _, heq, hne, hlow, ?_, hdvd, fun o ho hfree => ?_⟩
    · obtain ⟨k, rfl⟩ := Nat.exists_eq_succ_of_ne_zero hne
      exact hsound
    · rw [hlow] at hle
      refine hle o ⟨?_, ho, fun x hx => ((h.tile x).mp (hfree x hx).1).resolve_right (hfree x hx).2⟩
      have hpos := h.initOk.start_pos
      have hstart := (hfree o (Span.has_offset (a := ⟨o, size⟩) hsize)).1.1
      omega

end Sound

/-- The holes are determined by the range and the live ranges. -/
theorem Sound.holes_eq {s t : Sys} (hs : Sound s) (ht : Sound t) (hrange : s.range = t.range)
    (hlive : ∀ r, r ∈ s.live ↔ r ∈ t.live) : s.heap.holes = t.heap.holes := by
  apply hs.canonical.ext ht.canonical
  intro x
  have hs1 := hs.tile x
  have hs2 := hs.holes_apart x
  have ht1 := ht.tile x
  have ht2 := ht.holes_apart x
  have hcov : Covers s.live x ↔ Covers t.live x := exists_congr fun r => and_congr_left fun _ => hlive r
  rw [hrange] at hs1
  tauto

/-- In every state that the calls can reach, holes and live ranges tile the range of the heap, the
holes are maximal and in descending order, and `free_size` is their total size; the holes are the
same in any two such states with the same range and the same live ranges. -/
theorem heap_of_run {range range' : Span} {l l' : List Label} {s t : Sys} (h : InitOk range)
    (hrun : Run Step (Sys.init range) l s) (h' : InitOk range') (hrun' : Run Step (Sys.init range') l' t) :
    Sound s ∧ ((s.range = t.range ∧ ∀ r, r ∈ s.live ↔ r ∈ t.live) →
      s.heap.holes = t.heap.holes ∧ s.heap.freeSize = t.heap.freeSize) := by
  have hs := sound_of_run h hrun
  have ht := sound_of_run h' hrun'
  refine ⟨hs, ?_⟩
  intro ⟨hrange, hlive⟩
  have hholes := hs.holes_eq ht hrange hlive
  exact ⟨hholes, by rw [hs.freeSize_eq, ht.freeSize_eq, hholes]⟩

/-- A heap up to the end of the address space: the second page is live after two different orders of
calls, from high and from low addresses. -/
theorem heap_of_run_second_page :
    ∃ s t : Sys,
      Run Step (Sys.init ⟨4096, 2 ^ 64 - 4096⟩)
        [.alloc 16 1, .allocAddr ⟨8192, 4096⟩, .free ⟨2 ^ 64 - 16, 16⟩] s ∧
      Run Step (Sys.init ⟨4096, 2 ^ 64 - 4096⟩)
        [.allocAddr ⟨4096, 4096⟩, .setAllocHigh false, .alloc 4096 4096, .free ⟨4096, 4096⟩] t ∧
      s.live = [⟨8192, 4096⟩] ∧ Sound s ∧ s.heap.holes = t.heap.holes := by
  have hok : InitOk ⟨4096, 2 ^ 64 - 4096⟩ := by decide
  have hhigh : Run Step (Sys.init ⟨4096, 2 ^ 64 - 4096⟩)
      [.alloc 16 1, .allocAddr ⟨8192, 4096⟩, .free ⟨2 ^ 64 - 16, 16⟩]
      ⟨⟨[⟨12288, 2 ^ 64 - 12288⟩, ⟨4096, 4096⟩], 2 ^ 64 - 8192, true, 0⟩, [⟨8192, 4096⟩],
        ⟨4096, 2 ^ 64 - 4096⟩⟩ := run_of_exec (by rfl)
  have hlow : Run Step (Sys.init ⟨4096, 2 ^ 64 - 4096⟩)
      [.allocAddr ⟨4096, 4096⟩, .setAllocHigh false, .alloc 4096 4096, .free ⟨4096, 4096⟩]
      ⟨⟨[⟨12288, 2 ^ 64 - 12288⟩, ⟨4096, 4096⟩], 2 ^ 64 - 8192, false, 0⟩, [⟨8192, 4096⟩],
        ⟨4096, 2 ^ 64 - 4096⟩⟩ := run_of_exec (by rfl)
  have h := heap_of_run hok hhigh hok hlow
  exact ⟨_, _, hhigh, hlow, rfl, h.1, (h.2 ⟨rfl, fun r => Iff.rfl⟩).1⟩

end RadvXclipse.Util.Vma
