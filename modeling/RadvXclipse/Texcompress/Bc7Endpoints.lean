import RadvXclipse.Texcompress.Bc7

/-!
# The loops that read the endpoints

The CPU decoder and the table-driven shader read the endpoints with the same loops. They differ in
how they read bits (`bits`) and in the type they keep a component in (`keep`: an `int`, or a
`uint8_t`). The array they fill is not initialised: `junk` is what is in it before.
-/

namespace RadvXclipse.Texcompress.Bc7

open Lib List Nat

/-- The order of the loops over the subsets and their two endpoints. -/
def slots (nSubsets : ℕ) : List ℕ :=
  (range nSubsets).flatMap fun subset => (range 2).map fun endpoint => subset * 2 + endpoint

section Loops

variable (bits : ℕ → ℕ → ℕ) (keep : ℕ → ℕ)

/-- One component is read for every endpoint. -/
def readComponent (nSubsets n c : ℕ) (st : Endpoints × ℕ) : Endpoints × ℕ :=
  (slots nSubsets).foldl (fun st k => (st.1.set k c (keep (bits st.2 n)), st.2 + n)) st

/-- `v <<= 1; v |= pbit` for the components of one endpoint. -/
def addPbit (nComponents k pbit : ℕ) (ep : Endpoints) : Endpoints :=
  (range nComponents).foldl (fun ep c => ep.set k c (keep (ep k c <<< 1) ||| pbit)) ep

/-- Every endpoint has its own p-bit. -/
def addEndpointPbits (nSubsets nComponents : ℕ) (st : Endpoints × ℕ) : Endpoints × ℕ :=
  (slots nSubsets).foldl (fun st k => (addPbit keep nComponents k (bits st.2 1) st.1, st.2 + 1)) st

/-- The endpoints of a subset share a p-bit. -/
def addSharedPbits (nSubsets nComponents : ℕ) (st : Endpoints × ℕ) : Endpoints × ℕ :=
  (range nSubsets).foldl
    (fun st subset =>
      let pbit := bits st.2 1
      ((range 2).foldl (fun ep e => addPbit keep nComponents (subset * 2 + e) pbit ep) st.1, st.2 + 1)) st

variable (m : UnormMode)

/-- The components of one endpoint are expanded to bytes. -/
def expandEndpoint (k : ℕ) (ep : Endpoints) : Endpoints :=
  let ep := (range 3).foldl (fun ep c => ep.set k c (keep (expand (ep k c) (m.nColorBits + m.extra)))) ep
  if m.nAlphaBits > 0 then ep.set k 3 (keep (expand (ep k 3) (m.nAlphaBits + m.extra))) else ep

/-- The number of components with a p-bit. -/
def UnormMode.nComponents : ℕ := if m.nAlphaBits > 0 then 4 else 3

/-- The colours and alpha are read. -/
def UnormMode.readRaw (st : Endpoints × ℕ) : Endpoints × ℕ :=
  let st := (range 3).foldl (fun st c => readComponent bits keep m.nSubsets m.nColorBits c st) st
  if m.nAlphaBits > 0 then readComponent bits keep m.nSubsets m.nAlphaBits 3 st
  else ((slots m.nSubsets).foldl (fun ep k => ep.set k 3 255) st.1, st.2)

/-- The p-bits are added. -/
def UnormMode.addPbits (st : Endpoints × ℕ) : Endpoints × ℕ :=
  if m.hasEndpointPbits then addEndpointPbits bits keep m.nSubsets m.nComponents st
  else if m.hasSharedPbits then addSharedPbits bits keep m.nSubsets m.nComponents st
  else st

/-- `extract_unorm_endpoints`, and the same part of the table-driven `bc7_decode_block`: the
endpoints and the position after them. -/
def UnormMode.readEndpoints (junk : Endpoints) (bitOffset : ℕ) : Endpoints × ℕ :=
  let st := m.addPbits bits keep (m.readRaw bits keep (junk, bitOffset))
  ((slots m.nSubsets).foldl (fun ep k => expandEndpoint keep m k ep) st.1, st.2)

end Loops

lemma range_two : range 2 = [0, 1] := rfl

lemma slots_eq (n : ℕ) : slots n = range (2 * n) := by
  induction n with
  | zero => rfl
  | succ n ih =>
    have hsplit : slots (n + 1) = slots n ++ [n * 2, n * 2 + 1] := by
      unfold slots
      rw [range_two, range_succ, flatMap_append, flatMap_singleton]
      rfl
    rw [hsplit, ih, mul_comm n 2, mul_succ, range_succ, range_succ, append_assoc]
    rfl

section Spec

variable {bits : ℕ → ℕ → ℕ} {keep : ℕ → ℕ} {ep : Endpoints}

/-- A loop over the components of one endpoint changes those and no others. -/
theorem foldl_set (f : ℕ → ℕ) (k n : ℕ) (ep : Endpoints) :
    (range n).foldl (fun ep c => ep.set k c (f (ep k c))) ep =
      fun k' c' => if k' = k ∧ c' < n then f (ep k' c') else ep k' c' := by
  induction n with
  | zero => simp
  | succ n ih =>
    rw [range_succ, foldl_append, ih]
    funext k' c'
    simp only [foldl_cons, foldl_nil, Endpoints.set]
    by_cases hk : k' = k
    · subst hk
      by_cases hc : c' = n
      · subst hc
        simp
      · have hlt : c' < n ↔ c' < n + 1 := by omega
        simp only [hc, hlt, true_and, and_false, if_false]
    · simp only [hk, false_and, if_false]

/-- A loop over the endpoints that changes each on its own. -/
theorem foldl_endpoints (f : Endpoints → ℕ → Endpoints) (g : ℕ → ℕ → ℕ → ℕ)
    (hf : ∀ ep k, f ep k = fun k' c' => if k' = k then g k c' (ep k' c') else ep k' c') (n : ℕ) :
    (range n).foldl f ep = fun k' c' => if k' < n then g k' c' (ep k' c') else ep k' c' := by
  induction n with
  | zero => simp
  | succ n ih =>
    rw [range_succ, foldl_append, ih]
    simp only [foldl_cons, foldl_nil, hf]
    funext k' c'
    by_cases hk : k' = n
    · subst hk
      simp
    · have hlt : k' < n ↔ k' < n + 1 := by omega
      simp only [hk, hlt, if_false]

/-- A loop that reads `n` bits in every round knows where it is. -/
theorem foldl_reading (f : Endpoints → ℕ → ℕ → Endpoints) (n off K : ℕ) :
    (range K).foldl (fun (st : Endpoints × ℕ) k => (f st.1 st.2 k, st.2 + n)) (ep, off) =
      ((range K).foldl (fun ep k => f ep (off + k * n) k) ep, off + K * n) := by
  induction K with
  | zero => simp
  | succ K ih =>
    simp only [range_succ, foldl_append, ih, foldl_cons, foldl_nil, succ_mul, add_assoc]

lemma readComponent_eq (n m c off : ℕ) :
    readComponent bits keep n m c (ep, off) =
      (fun k' c' => if k' < 2 * n ∧ c' = c then keep (bits (off + k' * m) m)
        else ep k' c', off + 2 * n * m) := by
  unfold readComponent
  rw [slots_eq, foldl_reading (fun ep off k => ep.set k c (keep (bits off m))),
    foldl_endpoints _ (fun k' c' v => if c' = c then keep (bits (off + k' * m) m) else v)]
  · simp only [ite_and]
  · intro ep k
    funext k' c'
    simp only [Endpoints.set, ite_and]

lemma addPbit_eq (n k pbit : ℕ) :
    addPbit keep n k pbit ep = fun k' c' => if k' = k ∧ c' < n then keep (ep k' c' <<< 1) ||| pbit
      else ep k' c' :=
  foldl_set (fun v => keep (v <<< 1) ||| pbit) k n ep

lemma addEndpointPbits_eq (n m off : ℕ) :
    addEndpointPbits bits keep n m (ep, off) =
      (fun k' c' => if k' < 2 * n ∧ c' < m then keep (ep k' c' <<< 1) ||| bits (off + k') 1
        else ep k' c', off + 2 * n) := by
  unfold addEndpointPbits
  rw [slots_eq, foldl_reading (fun ep off k => addPbit keep m k (bits off 1) ep),
    foldl_endpoints _ (fun k' c' v => if c' < m then keep (v <<< 1) ||| bits (off + k') 1 else v)]
  · simp only [ite_and, mul_one]
  · simp only [addPbit_eq, ite_and, mul_one, implies_true]

lemma addSharedPbits_eq (n m off : ℕ) :
    addSharedPbits bits keep n m (ep, off) =
      (fun k' c' => if k' < 2 * n ∧ c' < m then keep (ep k' c' <<< 1) ||| bits (off + k' / 2) 1
        else ep k' c', off + n) := by
  unfold addSharedPbits
  rw [range_two]
  induction n with
  | zero => simp
  | succ n ih =>
    rw [range_succ, foldl_append, ih]
    simp only [foldl_cons, foldl_nil, addPbit_eq, add_assoc, Prod.mk.injEq, and_true]
    funext k' c'
    -- the two endpoints of the last subset
    by_cases h0 : k' = n * 2
    · subst h0
      have hdiv : n * 2 / 2 = n := by omega
      have hlt : ¬ n * 2 < 2 * n := by omega
      have hlt' : n * 2 < 2 * (n + 1) := by omega
      simp [hdiv, hlt, hlt']
    · by_cases h1 : k' = n * 2 + 1
      · subst h1
        have hdiv : (n * 2 + 1) / 2 = n := by omega
        have hlt : ¬ n * 2 + 1 < 2 * n := by omega
        have hlt' : n * 2 + 1 < 2 * (n + 1) := by omega
        simp [hdiv, hlt, hlt']
      · have hlt : k' < 2 * n ↔ k' < 2 * (n + 1) := by omega
        simp only [h0, h1, hlt, add_zero, false_and, if_false]

lemma expandEndpoint_eq (m : UnormMode) (k : ℕ) : expandEndpoint keep m k ep = fun k' c' =>
      if k' = k then
        if c' < 3 then keep (expand (ep k' c') (m.nColorBits + m.extra))
        else if m.nAlphaBits > 0 ∧ c' = 3 then keep (expand (ep k' c') (m.nAlphaBits + m.extra))
        else ep k' c'
      else ep k' c' := by
  unfold expandEndpoint
  rw [foldl_set (fun v => keep (expand v _)) k 3 ep]
  funext k' c'
  by_cases hk : k' = k
  · subst hk
    by_cases ha : m.nAlphaBits > 0
    · by_cases hc : c' = 3
      · subst hc
        simp [ha, Endpoints.set]
      · simp [ha, hc, Endpoints.set]
    · simp [ha]
  · by_cases ha : m.nAlphaBits > 0
    · simp [ha, hk, Endpoints.set]
    · simp [ha, hk]

lemma readColors_eq (n m off : ℕ) :
    (range 3).foldl (fun st c => readComponent bits keep n m c st) (ep, off) =
      (fun k' c' => if k' < 2 * n ∧ c' < 3 then keep (bits (off + c' * (2 * n * m) + k' * m) m)
        else ep k' c', off + 3 * (2 * n * m)) := by
  have hrange : range 3 = [0, 1, 2] := rfl
  simp only [hrange, foldl_cons, foldl_nil, readComponent_eq, Prod.mk.injEq]
  refine ⟨?_, by omega⟩
  funext k' c'
  by_cases hk : k' < 2 * n
  · match c' with
    | 0 => simp [hk]
    | 1 => simp [hk]
    | 2 => simp [two_mul, add_assoc]
    | c + 3 => simp
  · simp only [hk, false_and, if_false]

end Spec

section Endpoints

variable {bits : ℕ → ℕ → ℕ} {keep : ℕ → ℕ} {x : ℕ} {m : UnormMode}

/-- The components as they are read. -/
def UnormMode.raw (m : UnormMode) (start x k c : ℕ) : ℕ :=
  if c < 3 then m.color start x k c else if m.nAlphaBits > 0 then m.alpha start x k else 255

section

variable (h : m.Valid) (hbits : ∀ off n, n ≤ 8 → bits off n = field x off n)
  (hkeep : ∀ v < 2 ^ 8, keep v = v) (start : ℕ)
include h hbits hkeep

lemma UnormMode.Valid.readRaw_spec (junk : Endpoints) :
    (m.readRaw bits keep (junk, m.colorStart start)).2 = m.pbitStart start ∧
      ∀ k < 2 * m.nSubsets, ∀ c < 4, (m.readRaw bits keep (junk, m.colorStart start)).1 k c =
        m.raw start x k c := by
  have hcolor := h.color_le
  have hread : ∀ off n, n ≤ 8 → keep (bits off n) = field x off n := by
    intro off n hn
    rw [hbits off n hn, hkeep]
    exact field_lt_of_le _ _ hn
  unfold readRaw
  rw [readColors_eq]
  by_cases ha : m.nAlphaBits > 0
  · have halpha := h.alpha_le ha
    simp only [if_pos ha, readComponent_eq]
    refine ⟨rfl, ?_⟩
    intro k hk c hc
    unfold raw color alpha
    by_cases hc3 : c < 3
    · simp only [hk, hc3, show ¬ c = 3 by omega, true_and, if_true, if_false, and_false]
      exact hread _ _ (by omega)
    · simp only [hk, show c = 3 by omega, ha, true_and, if_true, if_false, lt_irrefl]
      exact hread _ _ (by omega)
  · simp only [if_neg ha, slots_eq]
    rw [foldl_endpoints _ (fun _ c' v => if c' = 3 then 255 else v)]
    · refine ⟨?_, ?_⟩
      · have hzero : m.nAlphaBits = 0 := by omega
        unfold pbitStart alphaStart
        rw [hzero, mul_zero, add_zero]
      · intro k hk c hc
        unfold raw color
        by_cases hc3 : c < 3
        · simp only [hk, hc3, show ¬ c = 3 by omega, true_and, if_true, if_false]
          exact hread _ _ (by omega)
        · simp only [hk, show c = 3 by omega, ha, if_true, if_false, lt_irrefl]
    · intro ep k
      funext k' c'
      simp only [Endpoints.set, ite_and]

lemma UnormMode.Valid.addPbits_spec (ep : Endpoints) :
    (m.addPbits bits keep (ep, m.pbitStart start)).2 = m.indexStart start ∧
      ∀ k < 2 * m.nSubsets, ∀ c < m.nComponents, ep k c < 2 ^ (8 - m.extra) →
        (m.addPbits bits keep (ep, m.pbitStart start)).1 k c = ep k c <<< m.extra ||| m.pbit start x k := by
  have hone := h.one_pbit
  have hshift : ∀ v < 2 ^ 7, keep (v <<< 1) = v <<< 1 := by
    intro v hv
    apply hkeep
    omega
  unfold addPbits indexStart nPbits pbit extra
  cases he : m.hasEndpointPbits with
  | true =>
    have hs : m.hasSharedPbits = false := by simpa [he] using hone
    simp only [hs, if_true, addEndpointPbits_eq, Bool.toNat_true, Bool.toNat_false, true_and]
    intro k hk c hc hv
    simp only [hk, hc, and_self, if_true]
    rw [hshift _ hv, hbits _ _ (by omega)]
  | false =>
    cases hs : m.hasSharedPbits with
    | true =>
      simp only [if_true, if_false, Bool.false_eq_true, addSharedPbits_eq, Bool.toNat_true,
        Bool.toNat_false, true_and]
      intro k hk c hc hv
      simp only [hk, hc, and_self, if_true]
      rw [hshift _ hv, hbits _ _ (by omega)]
    | false =>
      simp only [if_false, Bool.false_eq_true, Bool.toNat_false, add_zero, true_and]
      intro k _ c _ _
      rw [field_width_zero, shiftLeft_zero, or_zero]

end

/-- A component without a p-bit stays. -/
theorem UnormMode.addPbits_of_ge (m : UnormMode) (ep : Endpoints) (off k : ℕ) {c : ℕ}
    (hc : m.nComponents ≤ c) :
    (m.addPbits bits keep (ep, off)).1 k c = ep k c := by
  have hlt : ¬ c < m.nComponents := by omega
  unfold addPbits
  split_ifs
  · simp only [addEndpointPbits_eq, hlt, and_false, if_false]
  · simp only [addSharedPbits_eq, hlt, and_false, if_false]
  · rfl

lemma UnormMode.Valid.raw_lt (h : m.Valid) (start k : ℕ) {c : ℕ} (hc : c < m.nComponents) :
    m.raw start x k c < 2 ^ (8 - m.extra) := by
  have hcolor := h.color_le
  unfold raw
  split_ifs with h3 ha
  · exact field_lt_of_le _ _ (by omega)
  · have halpha := h.alpha_le ha
    exact field_lt_of_le _ _ (by omega)
  · unfold nComponents at hc
    rw [if_neg ha] at hc
    exact absurd hc h3

/-- The loops leave the endpoints of the block and stop where the indices begin, whatever was in the
array. -/
theorem UnormMode.Valid.readEndpoints_spec (h : m.Valid) (hbits : ∀ off n, n ≤ 8 → bits off n = field x off n)
    (hkeep : ∀ v < 2 ^ 8, keep v = v) (start : ℕ) (junk : Endpoints) :
    (m.readEndpoints bits keep junk (m.colorStart start)).2 = m.indexStart start ∧
      ∀ k < 2 * m.nSubsets, ∀ c < 4,
        (m.readEndpoints bits keep junk (m.colorStart start)).1 k c = m.endpoint start x k c := by
  have hraw := h.readRaw_spec hbits hkeep start junk
  generalize hst : m.readRaw bits keep (junk, m.colorStart start) = st at hraw
  have hpair : st = (st.1, m.pbitStart start) := by rw [← hraw.1]
  have hp := h.addPbits_spec hbits hkeep start st.1
  have hexpand : ∀ v n, v < 2 ^ n → n ≤ 8 → keep (expand v n) = expand v n := by
    intro v n hv hn
    exact hkeep _ (expand_lt hv hn)
  unfold readEndpoints
  rw [hst, hpair]
  refine ⟨hp.1, ?_⟩
  intro k hk c hc
  dsimp only
  rw [slots_eq, foldl_endpoints _ (fun _ c' v =>
    if c' < 3 then keep (expand v (m.nColorBits + m.extra))
    else if m.nAlphaBits > 0 ∧ c' = 3 then keep (expand v (m.nAlphaBits + m.extra)) else v)
    fun ep k => expandEndpoint_eq m k]
  simp only [if_pos hk]
  unfold endpoint
  by_cases h3 : c < 3
  · have hcn : c < m.nComponents := by
      unfold nComponents
      split_ifs <;> omega
    have hval := hraw.2 k hk c hc
    rw [if_pos h3, if_pos h3, hp.2 k hk c hcn (hval ▸ h.raw_lt start k hcn), hval, raw, if_pos h3]
    exact hexpand _ _ (shift_or_lt (field_lt _ _ _) (field_lt _ _ _)) h.color_le
  · have hc3 : c = 3 := by omega
    rw [if_neg h3, if_neg h3]
    by_cases ha : m.nAlphaBits > 0
    · have hcn : c < m.nComponents := by
        unfold nComponents
        rw [if_pos ha]
        exact hc
      have hval := hraw.2 k hk c hc
      rw [if_pos ⟨ha, hc3⟩, if_pos ha, hp.2 k hk c hcn (hval ▸ h.raw_lt start k hcn), hval, raw,
        if_neg h3, if_pos ha]
      exact hexpand _ _ (shift_or_lt (field_lt _ _ _) (field_lt _ _ _)) (h.alpha_le ha)
    · have hcn : m.nComponents ≤ c := by
        unfold nComponents
        rw [if_neg ha]
        omega
      rw [if_neg (fun h => ha h.1), if_neg ha, m.addPbits_of_ge _ _ _ hcn, hraw.2 k hk c hc, raw,
        if_neg h3, if_neg ha]

end Endpoints

section Indices

variable {x start : ℕ} {m : UnormMode}

section Read

variable {bits : ℕ → ℕ → ℕ} (hbits : ∀ off n, n ≤ 8 → bits off n = field x off n)

include hbits

/-- What the decoders read at the position they compute for a primary index. -/
theorem UnormMode.Valid.read_index (h : m.Valid) (t : ℕ) :
    bits (m.indexStart start + m.nIndexBits * t - countAnchorsBeforeTexel m.nSubsets (m.partition start x) t)
        (m.nIndexBits - if isAnchor m.nSubsets (m.partition start x) t then 1 else 0) =
      m.index start x t := by
  have hge := h.index_ge
  have hlt := h.index_le
  exact read_index_eq hbits h.partition_lt (by omega) (by omega) t

/-- The same for a secondary index. -/
theorem UnormMode.Valid.read_second (h : m.Valid) (hsec : 0 < m.nSecondaryIndexBits) (t : ℕ) :
    bits (m.indexStart start + 16 * m.nIndexBits - m.nSubsets + m.nSecondaryIndexBits * t -
          countAnchorsBeforeTexel m.nSubsets (m.partition start x) t)
        (m.nSecondaryIndexBits - if isAnchor m.nSubsets (m.partition start x) t then 1 else 0) =
      m.second start x t := by
  have hsub := h.subsets_le
  have hge := h.index_ge
  have hlt := h.second_le
  rw [Nat.add_sub_assoc (show m.nSubsets ≤ 16 * m.nIndexBits by omega)]
  exact read_index_eq hbits h.partition_lt hsec (by omega) t

end Read

/-- The fields of the header as the decoders read them. -/
theorem UnormMode.Valid.header_eq (h : m.Valid) (start : ℕ) {bits : ℕ → ℕ → ℕ} {x : ℕ}
    (hbits : ∀ off n, n ≤ 8 → bits off n = field x off n) :
    bits start m.nPartitionBits = m.partition start x ∧
      (if m.hasRotationBits then bits (start + m.nPartitionBits) 2 else 0) = m.rotation start x ∧
      (if m.hasIndexSelectionBit then
          bits (if m.hasRotationBits then start + m.nPartitionBits + 2 else start + m.nPartitionBits) 1
        else 0) = m.selection start x ∧
      (if m.hasIndexSelectionBit then
          (if m.hasRotationBits then start + m.nPartitionBits + 2 else start + m.nPartitionBits) + 1
        else if m.hasRotationBits then start + m.nPartitionBits + 2 else start + m.nPartitionBits) =
        m.colorStart start := by
  have hpart := h.partition_le
  unfold partition rotation UnormMode.selection colorStart selectionStart rotationStart
  rw [hbits _ _ (by omega), hbits _ 2 (by omega), hbits _ 1 (by omega)]
  refine ⟨rfl, ?_, ?_, ?_⟩
  · cases m.hasRotationBits <;> simp
  · cases m.hasRotationBits <;> cases m.hasIndexSelectionBit <;> simp
  · cases m.hasRotationBits <;> cases m.hasIndexSelectionBit <;> rfl

variable {interp : ℤ → ℤ → ℕ → ℕ → ℤ} (hinterp : ∀ a b n i, n < 5 → 2 ≤ n → i < 2 ^ n →
  interp a b i n = blend a b (exactWeight n i))

lemma blend_natCast (a b : ℕ) {w : ℕ} (hw : w ≤ 64) : blend a b w = (UnormMode.blendNat a b w : ℤ) := by
  unfold blend UnormMode.blendNat
  push_cast [hw]
  rfl

include hinterp

/-- What a decoder interpolates with one of the two indices. -/
theorem UnormMode.Valid.interp_eq (h : m.Valid) {sec : Bool}
    (hsec : sec = true → 0 < m.nSecondaryIndexBits) (a b t : ℕ) :
    interp a b (if sec then m.second start x t else m.index start x t)
        (if sec then m.nSecondaryIndexBits else m.nIndexBits) =
      (blendNat a b (m.weight start x sec t) : ℤ) := by
  have hle := h.index_le
  have hle2 := h.second_le
  have hw : m.weight start x sec t ≤ 64 := h.weight_le hsec t
  rw [← blend_natCast a b hw]
  cases sec with
  | false => exact hinterp _ _ m.nIndexBits _ (by omega) h.index_ge (index_lt t)
  | true => exact hinterp _ _ m.nSecondaryIndexBits _ (by omega) (h.second_ge (hsec rfl)) (second_lt t)

omit hinterp in
/-- The endpoints past the third component are those of the third. -/
theorem UnormMode.endpoint_alpha (k : ℕ) {c : ℕ} (hc : ¬ c < 3) :
    m.endpoint start x k c = m.endpoint start x k 3 := by
  unfold endpoint
  rw [if_neg hc, if_neg (lt_irrefl 3)]

/-- The interpolation of a texel, given its two indices. -/
theorem UnormMode.Valid.component_eq (h : m.Valid) {t : ℕ} (ht : t < 16) (idx1 : ℕ)
    (hidx1 : 0 < m.nSecondaryIndexBits → idx1 = m.second start x t) {ep : Endpoints}
    (hep : ∀ k < 2 * m.nSubsets, ∀ c < 4, ep k c = m.endpoint start x k c) :
    (fun c : ℕ =>
      if c < 3 then
        interp (ep (m.subset start x t * 2) c) (ep (m.subset start x t * 2 + 1) c)
          (if m.selection start x ≠ 0 then idx1 else m.index start x t)
          (if m.selection start x ≠ 0 then m.nSecondaryIndexBits else m.nIndexBits)
      else
        interp (ep (m.subset start x t * 2) 3) (ep (m.subset start x t * 2 + 1) 3)
          (if m.nSecondaryIndexBits ≠ 0 ∧ m.selection start x = 0 then idx1 else m.index start x t)
          (if m.nSecondaryIndexBits ≠ 0 ∧ m.selection start x = 0 then m.nSecondaryIndexBits
            else m.nIndexBits)) =
      fun c => (m.component start x t c : ℤ) := by
  have hsub : m.subset start x t < m.nSubsets := subsetNum_lt h.subsets_pos h.partition_lt ht
  have hsec : ∀ sec : Bool, (sec = true → 0 < m.nSecondaryIndexBits) →
      (if sec then idx1 else m.index start x t) = if sec then m.second start x t else m.index start x t := by
    intro sec hpos
    cases sec with
    | false => rfl
    | true => exact hidx1 (hpos rfl)
  funext c
  unfold component
  dsimp only
  by_cases hc : c < 3
  · rw [if_pos hc, if_pos hc, hep _ (by omega) c (by omega), hep _ (by omega) c (by omega), 
      ← h.interp_eq hinterp h.second_pos_of_color, ← hsec _ h.second_pos_of_color]
    simp only [colorSecond, decide_eq_true_eq]
  · rw [if_neg hc, if_neg hc, hep _ (by omega) 3 (by omega), hep _ (by omega) 3 (by omega),
      endpoint_alpha _ hc,
      endpoint_alpha _ hc, ← h.interp_eq hinterp second_pos_of_alpha, ← hsec _ second_pos_of_alpha]
    simp only [alphaSecond, decide_eq_true_eq]

end Indices

end RadvXclipse.Texcompress.Bc7
