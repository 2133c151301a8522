import RadvXclipse.Pm4.PackedStep

/-!
# The end of a packed packet

`ac_pm4_finalize` rewrites a packed packet of consecutive registers to a plain one, in place, and
leaves the padding out. Otherwise it changes the opcode at most. The registers come out the same:
consecutive registers are all different, so their padding repeats the value that the first one has
anyway.
-/

namespace RadvXclipse.Pm4

open Lib Util List Function Nat

variable {cfg : Config} {s : State} {op : Opcode} {closed : List ℕ} {items : List (ℕ × ℕ)}

/-- The writes to registers of the space of a packet. -/
def Opcode.place (op : Opcode) (l : List (ℕ × ℕ)) : List (ℕ × ℕ) := l.map fun w => (op.base + w.1, w.2)

section Rewrite

/-- The loop that moves the values reads ahead of what it has written. -/
theorem foldl_move (closed : List ℕ) (h c : ℕ) {l : List (ℕ × ℕ)} {n : ℕ} (hn : n ≤ l.length) :
    (range n).foldl

    (fun pm4 i => pm4.set (closed.length + 2 + i) (pm4.getD (packedRegValueIdx closed.length i) 0))
      (closed ++ h :: c :: triples l) =
      closed ++ h :: c :: ((l.map Prod.snd).take n ++ (triples l).drop n) := by
  induction n with
  | zero => simp
  | succ n ih =>
    have hlen := length_triples l
    have htake : ((l.map Prod.snd).take n).length = n := by
      rw [length_take, length_map]
      omega
    rw [range_succ, foldl_append, ih (by omega), foldl_cons, foldl_nil]
    -- the value is behind the part that is rewritten
    have hget : (closed ++ h :: c :: ((l.map Prod.snd).take n ++ (triples l).drop n)).getD
        (packedRegValueIdx closed.length n) 0 = (l.map Prod.snd).getD n 0 := by
      have hidx : packedRegValueIdx closed.length n - closed.length = n / 2 * 3 + 1 + n % 2 + 1 + 1 := by
        unfold packedRegValueIdx
        omega
      have hval := triples_value (l := l) (i := n) (by omega)
      rw [getD_append_right _ _ _ _ (by unfold packedRegValueIdx; omega), hidx, getD_cons_succ,
        getD_cons_succ, getD_append_right _ _ _ _ (by omega), htake, getD_eq_getElem?_getD,
        getElem?_drop, show n + (n / 2 * 3 + 1 + n % 2 - n) = n / 2 * 3 + 1 + n % 2 by omega,
        ← getD_eq_getElem?_getD, hval, getD_eq_getElem _ _ (by omega),
        getD_eq_getElem _ _ (by rw [length_map]; omega), getElem_map]
    have hlt : n < (triples l).length := by omega
    rw [hget, set_append_right _ _ (by omega),
      show closed.length + 2 + n - closed.length = n + 1 + 1 by omega, set_cons_succ, set_cons_succ,
      set_append_right _ _ (by omega), htake, Nat.sub_self, drop_eq_getElem_cons hlt, set_cons_zero,
      getD_eq_getElem _ _ (by rw [length_map]; omega),
      take_succ_eq_append_getElem (by rw [length_map]; omega), append_assoc]
    rfl

/-- A rewritten packet. -/
theorem LastPacked.unpack {h c : ℕ} {pad : Bool} {l : List (ℕ × ℕ)}
    (hs : LastPacked s op closed h c (triples l) pad) {n : ℕ} (hn : n ≤ l.length) (off : ℕ) :
    s.unpack op n off = closed ++ pkt3 op.packedToRegular n :: off :: (l.map Prod.snd).take n := by
  have hheader := (hs.set_header (pkt3 op.packedToRegular n)).set_count off
  have hpm4 := hheader.pm4
  simp only [hs.lastPm4] at hpm4
  unfold State.unpack
  simp only [hs.lastPm4]
  rw [hpm4, foldl_move closed _ _ hn]
  have hlen : (closed ++ [pkt3 op.packedToRegular n, off] ++ (l.map Prod.snd).take n).length =
      closed.length + 2 + n := by
    simp only [length_append, length_cons, length_nil, length_take, length_map]
    omega
  have hsplit : closed ++
      pkt3 op.packedToRegular n :: off :: ((l.map Prod.snd).take n ++ (triples l).drop n) =
      closed ++ [pkt3 op.packedToRegular n, off] ++ (l.map Prod.snd).take n ++ (triples l).drop n := by
    simp only [append_assoc, cons_append, nil_append]
  rw [hsplit, ← hlen, take_left, append_assoc]
  rfl

end Rewrite

/-- Registers that follow each other. -/
def Consecutive (items : List (ℕ × ℕ)) : Prop :=
  ∀ i < items.length, (items.getD i (0, 0)).1 = (items.headD (0, 0)).1 + i

lemma seqWrites_eq (reg : ℕ) (vals : List ℕ) :
    seqWrites reg vals = (range vals.length).map fun i => (reg + i, vals.getD i 0) := by
  induction vals generalizing reg with
  | nil => rfl
  | cons v vals ih =>
    rw [seqWrites, ih, length_cons, range_succ_eq_map, map_cons, map_map]
    congr 1
    apply map_congr_left
    intro i _
    congr 1
    omega

/-- The plain packet for consecutive registers. -/
theorem seqWrites_consecutive (op : Opcode) (h : Consecutive items) :
    seqWrites (op.base + (items.headD (0, 0)).1) (items.map Prod.snd) = op.place items := by
  rw [seqWrites_eq, length_map]
  apply ext_getElem
  · simp [Opcode.place]
  · intro i hi _
    rw [length_map, length_range] at hi
    have hreg := h i hi
    rw [getD_eq_getElem _ _ hi] at hreg
    simp only [Opcode.place, getElem_map, getElem_range]
    rw [hreg, getD_eq_getElem _ _ (by rwa [length_map]), getElem_map, add_assoc]

/-- A register that no write names keeps its value. -/
theorem apply_of_notMem {ws : List (ℕ × ℕ)} {a : ℕ} (h : a ∉ ws.map Prod.fst) (r : Regs) :
    apply ws r a = r a := by
  induction ws generalizing r with
  | nil => rfl
  | cons w ws ih =>
    rw [map_cons, mem_cons, not_or] at h
    rw [apply_cons, ih h.2, update_of_ne h.1]

/-- The padding of consecutive registers changes nothing. -/
theorem apply_padded_of_consecutive (op : Opcode) (h : Consecutive items) :
    apply (op.place (padded items)) = apply (op.place items) := by
  unfold padded
  split_ifs with hodd
  · cases items with
    | nil => simp at hodd
    | cons f l =>
      funext r
      -- no later register is the first one, so it still has its value
      have hkeep : apply (op.place l) (update r (op.base + f.1) f.2) (op.base + f.1) = f.2 := by
        rw [apply_of_notMem, update_self]
        intro hmem
        rw [Opcode.place, map_map] at hmem
        obtain ⟨v, hv, heq⟩ := mem_map.mp hmem
        change op.base + v.1 = op.base + f.1 at heq
        obtain ⟨i, hi, rfl⟩ := getElem_of_mem hv
        have hreg := h (i + 1) (by simp only [length_cons]; omega)
        rw [getD_cons_succ, getD_eq_getElem _ _ hi] at hreg
        change l[i].1 = f.1 + (i + 1) at hreg
        omega
      rw [Opcode.place, map_append, apply_append, map_cons, apply_cons]
      exact update_eq_iff.mpr ⟨hkeep.symm, fun _ _ => rfl⟩
  · rfl

lemma length_padded (items : List (ℕ × ℕ)) : (padded items).length = items.length + items.length % 2 := by
  unfold padded
  split_ifs with hodd
  · rw [length_append, length_singleton, hodd]
  · omega

/-- The padding comes last. -/
theorem getD_padded {i : ℕ} (hi : i < items.length) : (padded items).getD i (0, 0) = items.getD i (0, 0) := by
  unfold padded
  split_ifs with hodd
  · exact getD_append _ _ _ _ hi
  · rfl

lemma base_packedToRegular (hop : op.isPairsPacked = true) : op.packedToRegular.base = op.base := by
  cases op <;> first | rfl | cases hop

namespace PackedOpen

section

variable (hs : PackedOpen s op closed items)
include hs

lemma padded_reg_lt : ∀ w ∈ padded items, w.1 < 2 ^ 16 := by
  intro w hw
  unfold padded at hw
  split_ifs at hw with hodd
  · obtain ⟨f, l, rfl⟩ := exists_cons_of_ne_nil hs.ne_nil
    exact forall_mem_append.mpr ⟨hs.reg_lt, forall_mem_singleton.mpr (hs.reg_lt f mem_cons_self)⟩ w hw
  · exact hs.reg_lt w hw

lemma ndw : s.ndw = closed.length + 2 + 3 * ((padded items).length / 2) := by
  obtain ⟨cam, hlast⟩ := hs.last
  have hlen := length_padded items
  rw [hlast.ndw, length_triples]
  omega

/-- A packed packet writes its registers and the padding, under each of the packed opcodes. -/
theorem runs (hroom : s.ndw ≤ 16385) {op' : Opcode} (hop : op'.isPairsPacked = true) (cam : Bool) :
    Runs (header op' (3 * ((padded items).length / 2)) cam :: (padded items).length :: triples (padded items))
      (op'.place (padded items)) := by
  have hlen := length_padded items
  have hndw := hs.ndw
  have hruns := runs_packet op' (show 3 * ((padded items).length / 2) < 2 ^ 14 by omega) cam
    ((padded items).length :: triples (padded items)) (by rw [length_cons, length_triples]; omega)
  rwa [Opcode.writes, if_pos hop, packedWrites_triples op'.base (by omega) hs.padded_reg_lt] at hruns

/-- The packet as it is. -/
theorem does (hop : op.isPairsPacked = true) (hroom : s.ndw ≤ 16385) {ws : List (ℕ × ℕ)}
    (hclosed : Does closed ws) : Does s.pm4 (ws ++ op.place (padded items)) := by
  obtain ⟨cam, hlast⟩ := hs.last
  rw [hlast.pm4]
  exact hclosed.append (hs.runs hroom hop cam).does

/-- The comparison of `ac_pm4_finalize` on unsigned numbers. -/
theorem consecutive_of_all (hroom : s.ndw ≤ 16385)
    (hall : ∀ i < items.length, i = 0 ∨ s.packedRegDwOffset 0 = sub32 (s.packedRegDwOffset i) i) :
    Consecutive items := by
  obtain ⟨cam, hlast⟩ := hs.last
  have hlen := length_padded items
  have hndw := hs.ndw
  have hoffset : ∀ i < items.length, s.packedRegDwOffset i = (items.getD i (0, 0)).1 := fun i hi => by
    rw [hlast.packedRegDwOffset hs.padded_reg_lt (by omega), getD_padded hi]
  intro i hi
  have hhead : items.headD (0, 0) = items.getD 0 (0, 0) := by
    cases items <;> rfl
  have hlt : ∀ i < items.length, (items.getD i (0, 0)).1 < 2 ^ 16 := fun i hi => by
    rw [getD_eq_getElem _ _ hi]
    exact hs.reg_lt _ (getElem_mem hi)
  have h0 := hlt 0 (by omega)
  have hi' := hlt i hi
  rw [hhead]
  rcases hall i hi with rfl | heq
  · omega
  · rw [hoffset 0 (by omega), hoffset i hi, sub32] at heq
    omega

/-- A packet of consecutive registers is rewritten to a plain one. -/
theorem runs_unpack (hop : op.isPairsPacked = true) (hroom : s.ndw ≤ 16385)
    (hseq : Consecutive items) :
    Runs (pkt3 op.packedToRegular items.length :: (items.headD (0, 0)).1 :: items.map Prod.snd) (op.place items) := by
  have hlen := length_padded items
  have hndw := hs.ndw
  have hruns := runs_packet op.packedToRegular (show items.length < 2 ^ 14 by omega) false
    ((items.headD (0, 0)).1 :: items.map Prod.snd) (by rw [length_cons, length_map])
  have hfirst : field (items.headD (0, 0)).1 0 16 = (items.headD (0, 0)).1 := by
    obtain ⟨f, l, rfl⟩ := exists_cons_of_ne_nil hs.ne_nil
    exact field_of_lt (hs.reg_lt f mem_cons_self)
  have hwrites : op.packedToRegular.writes ((items.headD (0, 0)).1 :: items.map Prod.snd) =
      op.place items := by
    rw [← seqWrites_consecutive op hseq, ← base_packedToRegular hop]
    conv_rhs => rw [← hfirst]
    cases op <;> rfl
  rwa [hwrites, header, Bool.toNat_false, zero_shiftLeft, or_zero] at hruns

end

/-- Either way the effect is the same. -/
theorem does_finalize (cfg : Config) (hs : PackedOpen s op closed items) (hop : op.isPairsPacked = true)
    (hroom : s.ndw ≤ 16385) {ws : List (ℕ × ℕ)} (hclosed : Does closed ws) :
    Does (finalize cfg s).pm4 (ws ++ op.place (padded items)) := by
  obtain ⟨cam, hlast⟩ := hs.last
  have hlen := length_padded items
  have hndw := hs.ndw
  have hcount : (if s.packedIsPadded then s.packedRegCount - 1 else s.packedRegCount) = items.length := by
    rw [hlast.padded, hlast.packedRegCount (by omega)]
    split_ifs with hodd
    · rw [decide_eq_true_iff] at hodd
      omega
    · rw [decide_eq_true_iff] at hodd
      omega
  have hpos : 0 < items.length := length_pos_iff.mpr hs.ne_nil
  have hoff : s.packedRegDwOffset 0 = (items.headD (0, 0)).1 := by
    rw [hlast.packedRegDwOffset hs.padded_reg_lt (by omega), getD_padded hpos]
    cases items <;> rfl
  unfold finalize
  simp only [hlast.lastOpcode, hop, if_true, hcount]
  -- what the thread tracer needs only decides between the two variants
  generalize (if cfg.debugSqtt ∧ (op = .setShRegPairsPacked ∨ op = .setShRegPairsPackedN) ∧ s.packedIsPadded
    then items.length + 1 else items.length) = n
  split_ifs with hall hvariant
  · simp only [all_eq_true, mem_range, decide_eq_true_iff] at hall
    have hseq := hs.consecutive_of_all hroom hall
    have hunpack := hlast.unpack (n := items.length) (by omega) (s.packedRegDwOffset 0)
    have htake : ((padded items).map Prod.snd).take items.length = items.map Prod.snd := by
      rw [← map_take]
      unfold padded
      split_ifs
      · rw [take_left]
      · rw [take_length]
    rw [htake, hoff] at hunpack
    obtain ⟨v, hv, heq⟩ := hclosed
    refine ⟨v ++ op.place items, ?_, ?_⟩
    · simp only [hunpack, hoff]
      exact hv.append (hs.runs_unpack hop hroom hseq)
    · funext r
      rw [apply_append, apply_append, heq, apply_padded_of_consecutive op hseq]
  · obtain ⟨rfl, -⟩ := hvariant
    have hheader := hlast.set_header (header .setShRegPairsPackedN (3 * ((padded items).length / 2)) cam)
    rw [hlast.getD_header, header_replace _ (by omega), hheader.pm4]
    exact hclosed.append (hs.runs hroom rfl cam).does
  · exact hs.does hop hroom hclosed

end PackedOpen

/-! ## Any state -/

lemma length_foldl_move (lastPm4 : ℕ) (is pm4 : List ℕ) :
    (is.foldl (fun pm4 i => pm4.set (lastPm4 + 2 + i) (pm4.getD (packedRegValueIdx lastPm4 i) 0)) pm4).length =
      pm4.length := by
  induction is generalizing pm4 with
  | nil => rfl
  | cons i is ih => rw [foldl_cons, ih, length_set]

/-- Finalizing makes no more dwords. -/
theorem ndw_finalize_le (cfg : Config) (s : State) : (finalize cfg s).ndw ≤ s.ndw := by
  unfold finalize
  cases s.lastOpcode with
  | none => exact le_refl _
  | some op =>
    dsimp only
    generalize (if s.packedIsPadded then s.packedRegCount - 1 else s.packedRegCount) = n
    generalize (if cfg.debugSqtt ∧ (op = .setShRegPairsPacked ∨ op = .setShRegPairsPackedN) ∧ s.packedIsPadded
      then n + 1 else n) = m
    split_ifs
    · simp only [State.ndw, State.unpack, length_take, length_foldl_move, length_set]
      exact min_le_right ..
    · simp only [State.ndw, length_set, le_refl]
    · exact le_refl _
    · exact le_refl _

lemma finalize_of_not_packed (cfg : Config) (h : s.isPacked = false) : finalize cfg s = s := by
  unfold finalize
  unfold State.isPacked at h
  cases hop : s.lastOpcode with
  | none => rfl
  | some op =>
    rw [hop, Option.any_some] at h
    simp only [h, Bool.false_eq_true, if_false]

end RadvXclipse.Pm4
