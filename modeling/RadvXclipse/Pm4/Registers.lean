import RadvXclipse.Pm4.Build

/-!
# The registers after `ac_pm4_finalize`

The packets that a sequence of `ac_pm4_set_reg` calls builds leave every register with the value of
its last write, unless a packed packet is padded wrongly. The padding repeats the first register of
the packet with its first value. If the packet writes that register again, with another value and no
later packet writes it, the padding brings the first value back.
-/

namespace RadvXclipse.Pm4

open Lib List Function

/-! ## The padding -/

section Padding

lemma mem_pad {g : List Call} {c : Call} : c ∈ pad g ↔ c ∈ g := by
  cases g with
  | nil => rfl
  | cons d g =>
    rw [pad]
    split_ifs
    · simp only [mem_append, mem_cons, not_mem_nil, or_false]
      tauto
    · rfl

lemma apply_of_mem {ws : List (ℕ × ℕ)} {a : ℕ} (h : a ∈ ws.map Prod.fst) (r r' : Regs) :
    apply ws r a = apply ws r' a := by
  induction ws generalizing r r' with
  | nil => simp at h
  | cons w ws ih =>
    rw [apply_cons, apply_cons]
    by_cases hmem : a ∈ ws.map Prod.fst
    · exact ih hmem _ _
    · obtain rfl : a = w.1 := (mem_cons.mp h).resolve_right hmem
      rw [apply_of_notMem hmem, apply_of_notMem hmem, update_self, update_self]

/-- The writes of packets, as they are or with the padding. -/
def plainWrites (ps : List (List Call)) : List (ℕ × ℕ) := ps.flatten.map Call.write
def paddedWrites (ps : List (List Call)) : List (ℕ × ℕ) := (ps.flatMap pad).map Call.write

/-- The padding of every packet is harmless: there is none, or its register is written again later,
or the calls of the packet leave the register with its first value. -/
def padSafe : List (List Call) → Bool
  | [] => true
  | [] :: ps => padSafe ps
  | (c :: g) :: ps =>
    (pad (c :: g) = c :: g ∨ c.write.1 ∈ (plainWrites ps).map Prod.fst ∨
      apply ((c :: g).map Call.write) (fun _ => 0) c.write.1 = c.val) && padSafe ps

lemma mem_paddedWrites {ps : List (List Call)} {w : ℕ × ℕ} : w ∈ paddedWrites ps ↔ w ∈ plainWrites ps := by
  simp only [paddedWrites, plainWrites, mem_map, mem_flatMap, mem_flatten, mem_pad]

lemma mem_fst_paddedWrites {ps : List (List Call)} {a : ℕ} :
    a ∈ (paddedWrites ps).map Prod.fst ↔ a ∈ (plainWrites ps).map Prod.fst := by
  simp only [mem_map, mem_paddedWrites]

/-- The padding of a packet can be told from the registers iff nothing covers it. -/
theorem apply_pad_eq_iff (c : Call) (g : List Call) (ws : List (ℕ × ℕ)) :
    (∀ r, apply ws (apply ((pad (c :: g)).map Call.write) r) = apply ws (apply ((c :: g).map Call.write) r)) ↔
      (pad (c :: g) = c :: g ∨ c.write.1 ∈ ws.map Prod.fst ∨
        apply ((c :: g).map Call.write) (fun _ => 0) c.write.1 = c.val) := by
  by_cases hpad : c.op.isPairsPacked ∧ g.length % 2 = 0
  · have hne : pad (c :: g) ≠ c :: g := by
      rw [pad, if_pos hpad]
      simp
    have hpadded : ∀ r, apply ((pad (c :: g)).map Call.write) r =
        update (apply ((c :: g).map Call.write) r) c.write.1 c.val := by
      intro r
      rw [pad, if_pos hpad, map_append, apply_append]
      rfl
    have hfirst : c.write.1 ∈ ((c :: g).map Call.write).map Prod.fst := by simp
    simp only [hne, false_or, hpadded]
    constructor
    · intro heq
      by_cases hmem : c.write.1 ∈ ws.map Prod.fst
      · exact .inl hmem
      · have hval := congrFun (heq fun _ => 0) c.write.1
        rw [apply_of_notMem hmem, apply_of_notMem hmem, update_self] at hval
        exact .inr hval.symm
    · rintro (hmem | hval) r
      · funext b
        by_cases hb : b ∈ ws.map Prod.fst
        · exact apply_of_mem hb _ _
        · have hne' : b ≠ c.write.1 := fun h => hb (h ▸ hmem)
          rw [apply_of_notMem hb, apply_of_notMem hb, update_of_ne hne']
      · rw [apply_of_mem hfirst _ r] at hval
        rw [← hval, update_eq_self]
  · have heq : pad (c :: g) = c :: g := if_neg hpad
    simp [heq]

lemma apply_paddedWrites_iff (ps : List (List Call)) :
    apply (paddedWrites ps) = apply (plainWrites ps) ↔ padSafe ps = true := by
  induction ps with
  | nil => simp [paddedWrites, plainWrites, padSafe]
  | cons p ps ih =>
    cases p with
    | nil => exact ih
    | cons c g =>
      have hpadded : paddedWrites ((c :: g) :: ps) = (pad (c :: g)).map Call.write ++ paddedWrites ps := by
        simp [paddedWrites]
      have hplain : plainWrites ((c :: g) :: ps) = (c :: g).map Call.write ++ plainWrites ps := by
        simp [plainWrites]
      rw [padSafe, Bool.and_eq_true, decide_eq_true_iff, ← apply_pad_eq_iff, ← ih, hpadded, hplain]
      constructor
      · intro heq
        have heq' : ∀ r, apply (paddedWrites ps) (apply ((pad (c :: g)).map Call.write) r) =
            apply (plainWrites ps) (apply ((c :: g).map Call.write) r) := by
          intro r
          rw [← apply_append, ← apply_append, heq]
        -- a register that the rest writes does not depend on what was before
        have hrest : apply (paddedWrites ps) = apply (plainWrites ps) := by
          funext r a
          by_cases ha : a ∈ (plainWrites ps).map Prod.fst
          · rw [apply_of_mem (mem_fst_paddedWrites.mpr ha) r (apply _ r), heq', apply_of_mem ha _ r]
          · rw [apply_of_notMem ha, apply_of_notMem (fun h => ha (mem_fst_paddedWrites.mp h))]
        exact ⟨fun r => by rw [← hrest, heq', hrest], hrest⟩
      · rintro ⟨hpad, hrest⟩
        funext r
        rw [apply_append, apply_append, hrest, hpad]

lemma flatten_packetsFrom (g cs : List Call) : (packetsFrom g cs).flatten = g ++ cs := by
  induction cs generalizing g with
  | nil => simp [packetsFrom]
  | cons c cs ih =>
    unfold packetsFrom
    split_ifs
    · rw [ih, append_assoc, singleton_append]
    · rw [flatten_cons, ih, singleton_append]

end Padding

/-! ## Sequences of calls -/

section Calls

variable {cfg : Config} {s s' : State}

/-- The write that `ac_pm4_set_reg` stands for. A register outside of the spaces is ignored. -/
def regWrite (cfg : Config) (w : ℕ × ℕ) : Option (ℕ × ℕ) :=
  (regSpace w.1).map fun x =>
    (if isPrivilegedReg cfg w.1 then w.1 >>> 2 else x.1.base + remapReg cfg x.1 x.2 >>> 2, w.2)

/-- The packet that `ac_pm4_set_reg` uses for it. -/
def resolve (cfg : Config) (w : ℕ × ℕ) : Option Call :=
  (regSpace w.1).map fun x =>
    if isPrivilegedReg cfg w.1 then ⟨.copyData, w.1 >>> 2, w.2⟩
    else ⟨regularToPairs cfg x.1, remapReg cfg x.1 x.2 >>> 2, w.2⟩

/-- The calls by packets. The first packet is empty. -/
def packets (cfg : Config) (ws : List (ℕ × ℕ)) : List (List Call) :=
  packetsFrom [] (ws.filterMap (resolve cfg))

lemma base_regularToPairs (cfg : Config) (op : Opcode) : (regularToPairs cfg op).base = op.base := by
  unfold regularToPairs
  cases op <;> dsimp only <;> split_ifs <;> rfl

lemma map_write_resolve (cfg : Config) (w : ℕ × ℕ) : (resolve cfg w).map Call.write = regWrite cfg w := by
  unfold resolve regWrite
  rw [Option.map_map]
  congr 1
  funext x
  rw [comp_apply]
  split_ifs
  · simp only [Call.write, Opcode.base, zero_add]
  · simp only [Call.write, base_regularToPairs]

/-- Without packets the calls are the writes. -/
theorem plainWrites_packets (cfg : Config) (ws : List (ℕ × ℕ)) :
    plainWrites (packets cfg ws) = ws.filterMap (regWrite cfg) := by
  rw [plainWrites, packets, flatten_packetsFrom, nil_append, map_filterMap]
  congr 1
  funext w
  exact map_write_resolve cfg w

section

variable {offset : ℕ} {op : Opcode} {done ws : List (ℕ × ℕ)} {g : List Call}

lemma regSpace_op {reg : ℕ} (h : regSpace reg = some (op, offset)) :
    op ∈ [Opcode.setConfigReg, .setShReg, .setContextReg, .setUconfigReg] ∧ offset < 0x10000 := by
  unfold regSpace at h
  split_ifs at h
  all_goals
    cases h
    simp only [siConfigRegOffset, siConfigRegEnd, siShRegOffset, siShRegEnd, siContextRegOffset,
      siContextRegEnd, cikUconfigRegOffset, cikUconfigRegEnd] at *
    exact ⟨by decide, by omega⟩

lemma regularToPairs_ne (cfg : Config) (h : op ≠ .copyData) : regularToPairs cfg op ≠ .copyData := by
  unfold regularToPairs
  cases op <;> dsimp only <;> (try split_ifs) <;> first | exact h | exact Opcode.noConfusion

/-- A call: nothing, or the packet for its register. -/
theorem next_of_setReg {w : ℕ × ℕ} (hs : Rep s done g) (hsize : s.ndw ≤ 16385)
    (hroom : s.ndw ≤ cfg.maxDw) (hset : setReg cfg s w.1 w.2 = some s') :
    s'.ndw ≤ cfg.maxDw ∧ s'.ndw ≤ s.ndw + 6 ∧ match resolve cfg w with
      | none => s' = s
      | some c => Rep.Next s' done g c := by
  unfold setReg at hset
  unfold resolve
  cases hspace : regSpace w.1 with
  | none =>
    rw [hspace] at hset
    cases hset
    exact ⟨hroom, by omega, rfl⟩
  | some x =>
    obtain ⟨op, offset⟩ := x
    obtain ⟨hop, -⟩ := regSpace_op hspace
    have hcopy : op ≠ .copyData := by
      rintro rfl
      simp at hop
    rw [hspace] at hset
    by_cases hpriv : isPrivilegedReg cfg w.1 = true
    · simp only [hpriv, if_true] at hset ⊢
      obtain ⟨hpm4, -, hndw⟩ := setPrivilegedReg_eq_some hset
      refine ⟨hndw, ?_, hs.next_of_setPrivilegedReg hsize hset⟩
      rw [State.ndw, hpm4, length_append]
      exact le_refl _
    · simp only [hpriv, Bool.false_eq_true, if_false] at hset ⊢
      exact ⟨ndw_le_of_setRegCustom _ _ _ _ _ _ _ hset, hs.ndw_le_add hset,
        hs.next_of_setRegCustom (regularToPairs_ne cfg hcopy) hsize hroom hset⟩

/-- The dwords have the effect of the packets with their padding. -/
theorem does_setRegs (hs : Rep s done g) (hsize : cfg.maxDw ≤ 16385 ∨ s.ndw + 6 * ws.length ≤ 16385)
    (hroom : s.ndw ≤ cfg.maxDw) (hset : setRegs cfg s ws = some s') :
    Does (finalize cfg s').pm4 (done ++ paddedWrites (packetsFrom g (ws.filterMap (resolve cfg)))) := by
  induction ws generalizing s done g with
  | nil =>
    cases hset
    have hdoes := hs.does_finalize cfg (by omega)
    simpa [packetsFrom, paddedWrites] using hdoes
  | cons w ws ih =>
    rw [length_cons] at hsize
    obtain ⟨s1, h1, h2⟩ := Option.bind_eq_some_iff.mp hset
    obtain ⟨hroom1, hndw, hnext⟩ := next_of_setReg hs (by omega) hroom h1
    have hsize1 : cfg.maxDw ≤ 16385 ∨ s1.ndw + 6 * ws.length ≤ 16385 := by omega
    cases hres : resolve cfg w with
    | none =>
      rw [hres] at hnext
      subst hnext
      rw [filterMap_cons_none hres]
      exact ih hs hsize1 hroom h2
    | some c =>
      rw [hres] at hnext
      rw [filterMap_cons_some hres, packetsFrom]
      split_ifs with hjoin
      · exact ih (hnext.join hjoin) hsize1 hroom1 h2
      · have hdoes := ih (hnext.new (by simpa using hjoin)) hsize1 hroom1 h2
        rw [append_assoc] at hdoes
        simpa only [paddedWrites, flatMap_cons, map_append] using hdoes

/-- The map of TITAN stays within the 16 bits of a register offset. -/
def Config.MapsTo16 (cfg : Config) : Prop := ∀ r, cfg.ctxDw r ≤ 0xffff ∧ cfg.shDw r ≤ 0xffff

lemma remapReg_le (hmap : cfg.MapsTo16) (op : Opcode) (h : offset < 0x10000) :
    remapReg cfg op offset >>> 2 ≤ 0xffff := by
  have hkeep : offset >>> 2 ≤ 0xffff := by
    omega
  have hmapped : ∀ x ≤ 0xffff, (x <<< 2 % 2 ^ 32) >>> 2 ≤ 0xffff := by
    intro x hx
    omega
  unfold remapReg
  split_ifs
  · cases op with
    | setContextReg => exact hmapped _ (hmap _).1
    | setShReg => exact hmapped _ (hmap _).2
    | _ => exact hkeep
  · exact hkeep

/-- A call needs six dwords at most. -/
theorem exists_setReg (hs : Rep s done g) (hmap : cfg.MapsTo16) (hroom : s.ndw + 6 ≤ cfg.maxDw)
    (w : ℕ × ℕ) : ∃ s', setReg cfg s w.1 w.2 = some s' := by
  unfold setReg
  cases hspace : regSpace w.1 with
  | none => exact ⟨s, rfl⟩
  | some x =>
    obtain ⟨op, offset⟩ := x
    split_ifs
    · obtain ⟨s', h, -⟩ := exists_setPrivilegedReg w.1 w.2 hroom
      exact ⟨s', h⟩
    · obtain ⟨s', h, -⟩ := hs.exists_setRegCustom _
        (remapReg_le hmap op (regSpace_op hspace).2) hroom w.2
      exact ⟨s', h⟩

lemma exists_setRegs (hs : Rep s done g) (hmap : cfg.MapsTo16)
    (hsize : s.ndw + 6 * ws.length ≤ 16385) (hroom : s.ndw + 6 * ws.length ≤ cfg.maxDw) :
    ∃ s', setRegs cfg s ws = some s' := by
  induction ws generalizing s done g with
  | nil => exact ⟨s, rfl⟩
  | cons w ws ih =>
    rw [length_cons] at hsize hroom
    obtain ⟨s1, h1⟩ := exists_setReg hs hmap (by omega) w
    obtain ⟨-, hndw, hnext⟩ := next_of_setReg hs (by omega) (by omega) h1
    obtain ⟨done1, g1, hs1⟩ : ∃ done1 g1, Rep s1 done1 g1 := by
      cases hres : resolve cfg w with
      | none =>
        rw [hres] at hnext
        subst hnext
        exact ⟨_, _, hs⟩
      | some c =>
        rw [hres] at hnext
        cases hjoin : joins g c with
        | true => exact ⟨_, _, hnext.join hjoin⟩
        | false => exact ⟨_, _, hnext.new hjoin⟩
    obtain ⟨s', h⟩ := ih hs1 (by omega) (by omega)
    exact ⟨s', Option.bind_eq_some_iff.mpr ⟨s1, h1, h⟩⟩

end

lemma rep_create : Rep .create [] [] := .tail (forall_mem_nil _) (.none rfl Runs.nil.does)

/-- The packets of a state leave the registers as the calls do one after another iff no padding
brings an old value back. A packet cannot be longer than its header can say; a state of at most
16385 dwords, or one with at most 2730 calls, has no such packet. Six dwords for every call are
enough. -/
theorem registers_eq_iff_padSafe (cfg : Config) (ws : List (ℕ × ℕ))
    (hsize : cfg.maxDw ≤ 16385 ∨ 6 * ws.length ≤ 16385) :
    (∀ s, setRegs cfg .create ws = some s →
      ((∀ r, apply (writesOf (finalize cfg s).pm4) r = apply (ws.filterMap (regWrite cfg)) r) ↔
        padSafe (packets cfg ws) = true)) ∧
      (cfg.MapsTo16 → 6 * ws.length ≤ cfg.maxDw → ∃ s, setRegs cfg .create ws = some s) := by
  have hndw : State.create.ndw = 0 := rfl
  constructor
  · intro s hset
    obtain ⟨ws', hruns, heq⟩ := does_setRegs rep_create (by omega) (by omega) hset
    rw [hruns.writesOf_eq, heq, ← plainWrites_packets, ← apply_paddedWrites_iff]
    exact funext_iff.symm
  · intro hmap hroom
    exact exists_setRegs rep_create hmap (by omega) (by omega)

end Calls

/-! ## A wrong padding -/

/-- A device with packed packets for the context registers, without a map. -/
def packedContext : Config where
  gfxLevel := .gfx11
  hasSetContextPairs := false
  hasSetContextPairsPacked := true
  hasSetShPairs := false
  hasSetShPairsPacked := true
  hasSetUconfigPairs := false
  isComputeQueue := false
  debugSqtt := false
  maxDw := 64
  regmapActive := false
  preambleRemap := false
  ctxDw := fun _ => 0
  shDw := fun _ => 0

/-- The first register is written again, with another value. -/
def rewritten : List (ℕ × ℕ) := [(0x28000, 1), (0x28008, 2), (0x28000, 3)]

/-- The register has its first value in the end. -/
theorem registers_ne_of_rewritten :
    (setRegs packedContext .create rewritten).map
        (fun s => apply (writesOf (finalize packedContext s).pm4) (fun _ => 0) 0xa000) = some 1 ∧
      apply (rewritten.filterMap (regWrite packedContext)) (fun _ => 0) 0xa000 = 3 := by
  decide +kernel

/-- With one more call the number of registers is even. -/
theorem registers_eq_of_four :
    ∃ s, setRegs packedContext .create (rewritten ++ [(0x28010, 4)]) = some s ∧
      ∀ r, apply (writesOf (finalize packedContext s).pm4) r =
        apply ((rewritten ++ [(0x28010, 4)]).filterMap (regWrite packedContext)) r := by
  obtain ⟨hiff, hexists⟩ :=
    registers_eq_iff_padSafe packedContext (rewritten ++ [(0x28010, 4)]) (.inl (by decide))
  obtain ⟨s, hs⟩ := hexists (fun _ => ⟨Nat.zero_le _, Nat.zero_le _⟩) (by decide)
  exact ⟨s, hs, (hiff s hs).mpr (by decide +kernel)⟩

end RadvXclipse.Pm4
