import RadvXclipse.Texcompress.Bc6h

/-!
# The loops that read the endpoints of a BC6H block

The CPU decoder and the table-driven shader walk through the fields of the header in the same way.
They differ in how they read bits, in how they reverse a field (`deposit`) and in how they extend a
sign.
-/

namespace RadvXclipse.Texcompress.Bc6h

open Lib List

section Loops

variable (bits : ℕ → ℕ → ℕ) (deposit : Bitfield → ℕ → ℕ → ℕ) (extend : ℕ → ℕ → ℤ)

/-- The loop over the fields; `deposit` gives a component its bits from a field. -/
def walk (fs : List Bitfield) (st : Endpoints × ℕ) : Endpoints × ℕ :=
  fs.foldl
    (fun st f =>
      (st.1.set f.endpoint f.component (deposit f (bits st.2 f.nBits) (st.1 f.endpoint f.component)),
        st.2 + f.nBits)) st

namespace FloatMode

variable (m : FloatMode)

def nEndpoints : ℕ := if m.nPartitionBits ≠ 0 then 4 else 2

/-- The endpoints after the first are differences from it; `& ((1 << n) - 1)` is the remainder. -/
def addDeltas (ep : Endpoints) : Endpoints :=
  if m.transformedEndpoints then
    (range' 1 (m.nEndpoints - 1)).foldl
      (fun ep e => (range 3).foldl
        (fun ep c =>
          ep.set e c ((ep 0 c + extend (ep e c) (m.nDeltaBits.getD c 0)) % 2 ^ m.nEndpointBits).toNat) ep) ep
  else ep

/-- The loops that replace every component by the number to interpolate, each on its own. -/
def unquantizeAll (signed : Bool) (ep : Endpoints) (e c : ℕ) : ℤ :=
  if e < m.nEndpoints ∧ c < 3 then
    if signed then signedUnquantize (extend (ep e c) m.nEndpointBits) m.nEndpointBits
    else unsignedUnquantize (ep e c) m.nEndpointBits
  else ep e c

/-- `extract_float_endpoints`, and the same part of the table-driven `bc6h_decode_store`: the
endpoints and the position after them. -/
def readEndpoints (signed : Bool) (init : Endpoints) (bitOffset : ℕ) : (ℕ → ℕ → ℤ) × ℕ :=
  let st := walk bits deposit m.bitfields (init, bitOffset)
  (m.unquantizeAll extend signed (m.addDeltas extend st.1), st.2)

end FloatMode

end Loops

section Spec

variable {bits : ℕ → ℕ → ℕ} {deposit : Bitfield → ℕ → ℕ → ℕ} {extend : ℕ → ℕ → ℤ} {x : ℕ}

/-- The walk gathers the fields of every component. -/
theorem walk_eq {fs : List Bitfield} (hbits : ∀ off n, n ≤ 10 → bits off n = field x off n)
    (hdeposit : ∀ f ∈ fs, ∀ v < 2 ^ f.nBits, ∀ acc,
      deposit f v acc = acc ||| (if f.reverse then reverseBits f.nBits v else v) <<< f.offset)
    (hfs : ∀ f ∈ fs, f.nBits ≤ 10) (ep : Endpoints) (pos : ℕ) :
    walk bits deposit fs (ep, pos) =
      (fun e c => gather x (place pos fs) e c (ep e c), pos + (fs.map Bitfield.nBits).sum) := by
  induction fs generalizing ep pos with
  | nil => rfl
  | cons f fs ih =>
    have hstep := ih (fun g hg => hdeposit g (mem_cons_of_mem f hg))
      (fun g hg => hfs g (mem_cons_of_mem f hg))
      (ep.set f.endpoint f.component (deposit f (bits pos f.nBits) (ep f.endpoint f.component)))
        (pos + f.nBits)
    have hread : bits pos f.nBits = field x pos f.nBits := hbits _ _ (hfs f mem_cons_self)
    have hdep := hdeposit f mem_cons_self _ (field_lt x pos f.nBits) (ep f.endpoint f.component)
    unfold walk at hstep ⊢
    rw [foldl_cons, hstep, map_cons, sum_cons, add_assoc, Prod.mk.injEq]
    refine ⟨?_, rfl⟩
    funext e c
    unfold gather
    rw [place, foldl_cons, hread, hdep]
    congr 1
    unfold Endpoints.set Placed.value
    by_cases he : e = f.endpoint ∧ c = f.component
    · obtain ⟨rfl, rfl⟩ := he
      simp only [and_self, if_true]
    · have he' : ¬ (f.endpoint = e ∧ f.component = c) := fun h => he ⟨h.1.symm, h.2.symm⟩
      simp only [he, he', if_false]

/-- The loop over the components of one endpoint. The first endpoint is not it. -/
theorem foldl_delta (f : ℕ → ℕ → ℕ → ℕ) {e : ℕ} (he : e ≠ 0) (n : ℕ) (ep : Endpoints) :
    (range n).foldl (fun ep c => ep.set e c (f c (ep 0 c) (ep e c))) ep =
      fun e' c' => if e' = e ∧ c' < n then f c' (ep 0 c') (ep e' c') else ep e' c' := by
  induction n with
  | zero => simp
  | succ n ih =>
    rw [range_succ, foldl_append, ih]
    funext e' c'
    simp only [foldl_cons, foldl_nil, Endpoints.set, Ne.symm he, false_and, if_false]
    by_cases hc : c' = n
    · by_cases hee : e' = e
      · subst hee hc
        simp
      · simp only [hee, false_and, if_false]
    · have hlt : c' < n ↔ c' < n + 1 := by omega
      simp only [hc, hlt, and_false, if_false]

/-- The loops over the endpoints after the first. -/
theorem foldl_deltas (f : ℕ → ℕ → ℕ → ℕ) (n : ℕ) (ep : Endpoints) :
    (range' 1 n).foldl (fun ep e => (range 3).foldl (fun ep c => ep.set e c (f c (ep 0 c) (ep e c))) ep) ep =
      fun e' c' => if e' ≠ 0 ∧ e' < n + 1 ∧ c' < 3 then f c' (ep 0 c') (ep e' c') else ep e' c' := by
  induction n with
  | zero =>
    funext e' c'
    rw [range'_zero, foldl_nil, if_neg (by omega)]
  | succ n ih =>
    rw [range'_concat, foldl_append, ih, foldl_cons, foldl_nil, foldl_delta f (by omega)]
    funext e' c'
    by_cases he : e' = 1 + 1 * n
    · have hlast : ¬ (e' ≠ 0 ∧ e' < n + 1 ∧ c' < 3) := by omega
      have hiff : (e' = 1 + 1 * n ∧ c' < 3) ↔ (e' ≠ 0 ∧ e' < n + 1 + 1 ∧ c' < 3) := by omega
      simp only [hlast, hiff, ne_eq, not_true, false_and, if_false]
    · have hiff : (e' ≠ 0 ∧ e' < n + 1 ∧ c' < 3) ↔ (e' ≠ 0 ∧ e' < n + 1 + 1 ∧ c' < 3) := by omega
      simp only [he, hiff, false_and, if_false]

variable {m : FloatMode}

/-- The loops leave the numbers to interpolate and stop where the partition begins. -/
theorem FloatMode.Valid.readEndpoints_spec (h : m.Valid)
    (hbits : ∀ off n, n ≤ 10 → bits off n = field x off n)
    (hdeposit : ∀ f ∈ m.bitfields, ∀ v < 2 ^ f.nBits, ∀ acc,
      deposit f v acc = acc ||| (if f.reverse then reverseBits f.nBits v else v) <<< f.offset)
    (hextend : ∀ v n, 0 < n → n ≤ 16 → v < 2 ^ n → extend v n = signExtend v n) (signed : Bool)
    (start : ℕ) {init : Endpoints} (hinit : ∀ e < m.nEndpoints, ∀ c < 3, init e c = 0) :
    (m.readEndpoints bits deposit extend signed init start).2 = start + m.nHeaderBits ∧
      ∀ e < m.nEndpoints, ∀ c < 3,
        (m.readEndpoints bits deposit extend signed init start).1 e c = m.unquantized start x signed e c := by
  have hraw : ∀ e < m.nEndpoints, ∀ c < 3, gather x (place start m.bitfields) e c (init e c) =
      m.raw start x e c := by
    intro e he c hc
    rw [hinit e he c hc]
    rfl
  have hend : 2 ≤ m.nEndpoints := by
    unfold nEndpoints
    split_ifs <;> omega
  unfold readEndpoints
  rw [walk_eq hbits hdeposit h.fields_le]
  refine ⟨rfl, ?_⟩
  intro e he c hc
  -- the endpoint before it is unquantised
  have hendpoint : m.addDeltas extend (fun e c => gather x (place start m.bitfields) e c (init e c)) e c =
      m.endpoint start x e c := by
    unfold addDeltas endpoint
    by_cases ht : m.transformedEndpoints = true
    · rw [if_pos ht, foldl_deltas (fun c a b => ((a + extend b _) % 2 ^ m.nEndpointBits).toNat)]
      dsimp only
      by_cases he0 : e = 0
      · rw [if_neg (by omega), if_neg (by simp [he0]), hraw e he c hc]
      · have hlt : m.raw start x e c < 2 ^ m.width e c := h.raw_lt e c
        unfold width at hlt
        rw [if_pos ⟨ht, he0⟩] at hlt
        rw [if_pos ⟨he0, by omega, hc⟩, if_pos ⟨ht, he0⟩, hraw 0 (by omega) c hc, hraw e he c hc,
          hextend _ _ (h.delta_pos c hc) (h.delta_le c hc) hlt]
    · rw [if_neg ht, if_neg (fun h => ht h.1), hraw e he c hc]
  dsimp only
  unfold unquantizeAll unquantized
  rw [if_pos ⟨he, hc⟩, hendpoint, hextend _ _ h.endpoint_pos h.endpoint_le (h.endpoint_lt e c)]

end Spec

section Texel

variable {x start : ℕ} {m : FloatMode}

section

variable (h : m.Valid) {bits : ℕ → ℕ → ℕ} (hbits : ∀ off n, n ≤ 10 → bits off n = field x off n)
include h hbits

/-- The partition, the subsets and the position of the indices as the decoders compute them. -/
theorem FloatMode.Valid.partition_eq (start : ℕ) :
    (if m.nPartitionBits ≠ 0 then bits (start + m.nHeaderBits) m.nPartitionBits
      else 0) = m.partition start x ∧
      (if m.nPartitionBits ≠ 0 then partitionTable1.getD (m.partition start x) 0 else 0) =
        partitionSubsets m.nSubsets (m.partition start x) ∧
      (if m.nPartitionBits ≠ 0 then start + m.nHeaderBits + m.nPartitionBits
        else start + m.nHeaderBits) = m.indexStart start := by
  have hle := h.partition_le
  rw [hbits _ _ (by omega)]
  unfold partition nSubsets indexStart
  by_cases hp : m.nPartitionBits = 0
  · simp [hp, partitionSubsets]
  · simp [hp, partitionSubsets]

/-- What the decoders read at the position they compute for an index. -/
theorem FloatMode.Valid.read_index (t : ℕ) :
    bits (m.indexStart start + m.nIndexBits * t - countAnchorsBeforeTexel m.nSubsets (m.partition start x) t)
        (m.nIndexBits - if isAnchor m.nSubsets (m.partition start x) t then 1 else 0) =
      m.index start x t := by
  have hge := h.index_ge
  have hlt := h.index_le
  exact read_index_eq hbits h.partition_lt (by omega) (by omega) t

end

/-- A channel of a texel, however it is interpolated. -/
theorem FloatMode.Valid.channel_eq (h : m.Valid) {interp : ℤ → ℤ → ℕ → ℕ → ℤ}
    (hinterp : ∀ a b n i, n < 5 → 2 ≤ n → i < 2 ^ n → interp a b i n = blend a b (exactWeight n i))
    {signed : Bool} {ep : ℕ → ℕ → ℤ}
    (hep : ∀ e < m.nEndpoints, ∀ c < 3, ep e c = m.unquantized start x signed e c) {t c : ℕ}
    (ht : t < 16) (hc : c < 3) :
    interp (ep (m.subset start x t * 2) c) (ep (m.subset start x t * 2 + 1) c) (m.index start x t) m.nIndexBits =
      m.channel start x signed t c := by
  have hsub : m.subset start x t < m.nSubsets := by
    apply subsetNum_lt _ h.partition_lt ht
    unfold nSubsets
    split_ifs <;> omega
  have hend : m.nEndpoints = 2 * m.nSubsets := by
    unfold nEndpoints nSubsets
    split_ifs <;> rfl
  have hle := h.index_le
  rw [hep _ (by omega) c hc, hep _ (by omega) c hc,
    hinterp _ _ m.nIndexBits _ (by omega) h.index_ge (index_lt t)]
  rfl

end Texel

end RadvXclipse.Texcompress.Bc6h
