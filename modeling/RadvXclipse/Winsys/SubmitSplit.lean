import RadvXclipse.Winsys.Submit

/-!
# How a request is split

Seen from above, an iteration of the submit loop takes a group of streams from the front of the
array: streams are added as long as they fit, a follower only if its leader fits as well (`group`).
The loop over IBs is shown to take exactly the IBs of that group; the rest is about lists of
groups.
-/

namespace RadvXclipse.RadvAmdgpu

open Util List Function Nat SubmitInfo

/-- The number of IBs of some streams. -/
def ibCount (g : List Cs) : ℕ := (g.map submittedIbsPerCs).sum

/-- The number of their IBs for one IP. -/
def ibCountIp (g : List Cs) (ip : IpType) : ℕ := ibCount (g.filter (·.hwIp = ip))

lemma ibCount_cons (cs : Cs) (g : List Cs) : ibCount (cs :: g) = submittedIbsPerCs cs + ibCount g := by
  unfold ibCount
  rw [map_cons, sum_cons]

lemma ibCountIp_cons (cs : Cs) (g : List Cs) (ip : IpType) :
    ibCountIp (cs :: g) ip = (if cs.hwIp = ip then submittedIbsPerCs cs else 0) + ibCountIp g ip := by
  unfold ibCountIp
  by_cases h : cs.hwIp = ip
  · rw [filter_cons_of_pos (by simpa using h), ibCount_cons, if_pos h]
  · rw [filter_cons_of_neg (by simpa using h), if_neg h, zero_add]

section

variable (r : SubmitInfo) (maxIbPerIp : IpType → ℕ)

/-- The flags that an IB of a preamble should have. -/
def SubmitInfo.secureFlags (ip : IpType) : BitVec 32 :=
  if r.secure ∧ (ip = .gfx ∨ ip = .sdma) then ibFlagsSecure else 0

/-- The flags that a main IB should have. -/
def SubmitInfo.mainFlags (ip : IpType) : BitVec 32 :=
  (if r.usesShadowRegs ∧ ip = .gfx then ibFlagPreempt else 0) ||| r.secureFlags ip

/-- The IBs of a stream that have to be submitted, at the addresses and with the sizes that its
`ib_buffers` have. -/
def SubmitInfo.mainIbs (cs : Cs) : List IbInfo :=
  cs.submitted.map fun ib => ⟨r.mainFlags cs.hwIp, cs.hwIp, ib.va, ib.cdw⟩

/-- The IB that is submitted for a preamble or a postamble. -/
def firstIb (flags : BitVec 32) (cs : Cs) : IbInfo :=
  ⟨flags, cs.hwIp, (cs.ibBufferAt 0).va, (cs.ibBufferAt 0).cdw⟩

/-- The IBs of a kernel submission of a group of streams. -/
def SubmitInfo.groupIbs (pre g : List Cs) : List IbInfo :=
  (pre.map fun cs => firstIb (r.secureFlags cs.hwIp) cs) ++ g.flatMap r.mainIbs ++
    r.postamble.map (firstIb 0)

/-- The code sets the flags of a preamble and leaves the rest of the IB alone. -/
theorem markSecure_csIbToInfo (cs : Cs) (ib : Ib) :
    r.markSecure (csIbToInfo cs ib) = ⟨r.secureFlags cs.hwIp, cs.hwIp, ib.va, ib.cdw⟩ := by
  unfold markSecure secureFlags csIbToInfo
  split_ifs <;> simp

lemma markMain_csIbToInfo (cs : Cs) (ib : Ib) :
    r.markMain (csIbToInfo cs ib) = ⟨r.mainFlags cs.hwIp, cs.hwIp, ib.va, ib.cdw⟩ := by
  unfold markMain markSecure mainFlags secureFlags
    csIbToInfo
  split_ifs <;> simp_all

/-- The limits that `cs` has to keep to be added to a submission with `i` main IBs and `perIp` IBs
for each IP. -/
def SubmitInfo.addOk (ibPerSubmit i : ℕ) (perIp : IpType → ℕ) (cs : Cs) (next : Option Cs) : Prop :=
  i + submittedIbsPerCs cs ≤ ibPerSubmit ∧ perIp cs.hwIp + submittedIbsPerCs cs ≤
    maxIbPerIp cs.hwIp ∧ (cs.hwIp ≠ r.ipType → ∃ l, next = some l ∧
      i + submittedIbsPerCs cs + submittedIbsPerCs l ≤ ibPerSubmit ∧
        perIp l.hwIp + submittedIbsPerCs l ≤ maxIbPerIp l.hwIp)

/-- `ibs_per_ip` after a stream. -/
def addPerIp (perIp : IpType → ℕ) (cs : Cs) : IpType → ℕ :=
  update perIp cs.hwIp (perIp cs.hwIp + submittedIbsPerCs cs)

lemma addPerIp_apply (perIp : IpType → ℕ) (cs : Cs) (ip : IpType) :
    addPerIp perIp cs ip = perIp ip + if cs.hwIp = ip then submittedIbsPerCs cs else 0 := by
  unfold addPerIp
  by_cases h : cs.hwIp = ip
  · subst h
    rw [update_self, if_pos rfl]
  · rw [update_of_ne (Ne.symm h), if_neg h, add_zero]

open Classical in
/-- The streams that the current submission takes from the front of a list. -/
noncomputable def SubmitInfo.group (ibPerSubmit : ℕ) : ℕ → (IpType → ℕ) → List Cs → List Cs
  | _, _, [] => []
  | i, perIp, cs :: rest =>
    if r.addOk maxIbPerIp ibPerSubmit i perIp cs rest.head? then
      cs :: group ibPerSubmit (i + submittedIbsPerCs cs) (addPerIp perIp cs) rest
    else []

/-- Every follower is directly followed by a leader. -/
def Gangs (ip : IpType) : List Cs → Prop
  | [] => True
  | cs :: rest => (cs.hwIp ≠ ip → ∃ l, rest.head? = some l ∧ l.hwIp = ip) ∧ Gangs ip rest

/-! ## Groups -/

section Group

variable {r maxIbPerIp} {n i : ℕ} {perIp : IpType → ℕ} {todo : List Cs}

lemma group_prefix : ∃ rest, todo = r.group maxIbPerIp n i perIp todo ++ rest := by
  induction todo generalizing i perIp with
  | nil => exact ⟨[], rfl⟩
  | cons cs todo ih =>
    unfold group
    split
    · obtain ⟨rest, hrest⟩ := ih
      exact ⟨rest, by rw [cons_append, ← hrest]⟩
    · exact ⟨cs :: todo, rfl⟩

/-- A group never ends with a follower. -/
theorem getLast_group (hg : Gangs r.ipType todo) {cs : Cs}
    (h : (r.group maxIbPerIp n i perIp todo).getLast? = some cs) : cs.hwIp = r.ipType := by
  induction todo generalizing i perIp with
  | nil => exact absurd h (by simp [group])
  | cons a todo ih =>
    unfold group at h
    split at h
    · next hok =>
      cases hgroup : r.group maxIbPerIp n _ _ todo with
      | cons b g =>
        rw [hgroup, getLast?_cons_cons, ← hgroup] at h
        exact ih hg.2 h
      | nil =>
        rw [hgroup] at h
        cases h
        -- a follower with an empty group behind it would have been taken without its leader
        by_contra hne
        obtain ⟨l, hl, hfit, hip⟩ := hok.2.2 hne
        obtain ⟨l', hl', hlead⟩ := hg.1 hne
        cases hl.symm.trans hl'
        obtain ⟨todo', rfl⟩ := head?_eq_some_iff.mp hl
        have hper : addPerIp perIp a l.hwIp = perIp l.hwIp := by
          rw [addPerIp_apply, if_neg (by rw [hlead]; exact hne), add_zero]
        have hok' : r.addOk maxIbPerIp n (i + submittedIbsPerCs a) (addPerIp perIp a) l todo'.head? :=
          ⟨hfit, by rw [hper]; exact hip, fun h => absurd hlead h⟩
        unfold group at hgroup
        rw [if_pos hok'] at hgroup
        exact cons_ne_nil _ _ hgroup
    · exact absurd h (by simp)

/-- The streams of a group keep the limits. -/
theorem group_le :
    (r.group maxIbPerIp n i perIp todo = [] ∨ i + ibCount (r.group maxIbPerIp n i perIp todo) ≤ n) ∧
      ∀ cs ∈ r.group maxIbPerIp n i perIp todo,
        perIp cs.hwIp + ibCountIp (r.group maxIbPerIp n i perIp todo) cs.hwIp ≤ maxIbPerIp cs.hwIp := by
  induction todo generalizing i perIp with
  | nil => exact ⟨.inl rfl, forall_mem_nil _⟩
  | cons a todo ih =>
    unfold group
    split
    · next hok =>
      obtain ⟨hcount, hper⟩ := @ih _ _
      generalize r.group maxIbPerIp n (i + submittedIbsPerCs a) (addPerIp perIp a) todo = g at *
      constructor
      · right
        rw [ibCount_cons]
        rcases hcount with hnil | hle
        · rw [hnil]
          have := hok.1
          simp only [ibCount, map_nil, sum_nil]
          omega
        · omega
      · intro cs hcs
        rw [ibCountIp_cons]
        by_cases hmem : ∃ b ∈ g, b.hwIp = cs.hwIp
        · obtain ⟨b, hb, heq⟩ := hmem
          have hle := hper b hb
          rw [addPerIp_apply, heq] at hle
          omega
        · -- only `a` has this IP
          have hzero : ibCountIp g cs.hwIp = 0 := by
            unfold ibCountIp
            rw [filter_eq_nil_iff.mpr]
            · rfl
            · intro b hb heq
              exact hmem ⟨b, hb, by simpa using heq⟩
          rcases mem_cons.mp hcs with rfl | hcs
          · have := hok.2.1
            rw [hzero, if_pos rfl]
            omega
          · exact absurd ⟨cs, hcs, rfl⟩ hmem
    · exact ⟨.inl rfl, forall_mem_nil _⟩

/-- Streams that keep the limits all together are one group. -/
theorem group_eq_self (hg : Gangs r.ipType todo) (hcount : i + ibCount todo ≤ n)
    (hper : ∀ cs ∈ todo, perIp cs.hwIp + ibCountIp todo cs.hwIp ≤ maxIbPerIp cs.hwIp) :
    r.group maxIbPerIp n i perIp todo = todo := by
  induction todo generalizing i perIp with
  | nil => rfl
  | cons a todo ih =>
    rw [ibCount_cons] at hcount
    have hself := hper a mem_cons_self
    rw [ibCountIp_cons, if_pos rfl] at hself
    have hok : r.addOk maxIbPerIp n i perIp a todo.head? := by
      refine ⟨by omega, by omega, ?_⟩
      intro hne
      obtain ⟨l, hl, -⟩ := hg.1 hne
      refine ⟨l, hl, ?_⟩
      obtain ⟨todo', rfl⟩ := head?_eq_some_iff.mp hl
      have hlead := hper l (by simp)
      rw [ibCountIp_cons, ibCountIp_cons, if_pos rfl] at hlead
      rw [ibCount_cons] at hcount
      constructor
      · omega
      · omega
    unfold group
    rw [if_pos hok, ih hg.2]
    · omega
    · intro cs hcs
      have hle := hper cs (mem_cons_of_mem a hcs)
      rw [ibCountIp_cons] at hle
      rw [addPerIp_apply]
      omega

end Group

/-! ## The loop over IBs -/

/-- All IBs of a stream go into the submission. -/
def SubmitInfo.addStream (s : Split) (cs : Cs) : Split :=
  ⟨s.csIdx + 1, 0, s.ibs ++ r.mainIbs cs, addPerIp s.ibsPerIp cs⟩

section Loop

variable {r maxIbPerIp} {n i left : ℕ} {s : Split} {cs : Cs}

lemma ibBufferAt_eq {j : ℕ} (hj : j < cs.ibBuffers.length) : cs.ibBufferAt j = cs.ibBuffers[j] := by
  exact getD_eq_getElem _ _ hj

/-- One iteration of the loop. -/
theorem mainLoop_succ (hcs : r.csArray[s.csIdx]? = some cs)
    (hok : s.csIbIdx = 0 → r.startOk maxIbPerIp n i s cs = true) :
    r.mainLoop maxIbPerIp n (left + 1) i s = r.mainLoop maxIbPerIp n left (i + 1) (r.takeIb s cs) := by
  rw [mainLoop, hcs]
  apply if_neg
  intro ⟨hzero, hnot⟩
  exact hnot (hok hzero)

/-- The iterations for the IBs of a stream that does not chain, from `cs_ib_idx` on. -/
theorem mainLoop_rest (m : ℕ) (hcs : r.csArray[s.csIdx]? = some cs) (hchain : cs.chainIb = false)
    (hm : s.csIbIdx + (m + 1) = cs.ibBuffers.length)
    (hok : s.csIbIdx = 0 → r.startOk maxIbPerIp n i s cs = true) :
    r.mainLoop maxIbPerIp n (left + (m + 1)) i s =
      r.mainLoop maxIbPerIp n left (i + (m + 1))
        ⟨s.csIdx + 1, 0,
          s.ibs ++ (cs.ibBuffers.drop s.csIbIdx).map fun ib =>
            ⟨r.mainFlags cs.hwIp, cs.hwIp, ib.va, ib.cdw⟩,
          update s.ibsPerIp cs.hwIp (s.ibsPerIp cs.hwIp + (m + 1))⟩ := by
  induction m generalizing s i with
  | zero =>
    have hj : s.csIbIdx < cs.ibBuffers.length := by omega
    have htake : r.takeIb s cs = ⟨s.csIdx + 1, 0,
        s.ibs ++ (cs.ibBuffers.drop s.csIbIdx).map fun ib =>
          ⟨r.mainFlags cs.hwIp, cs.hwIp, ib.va, ib.cdw⟩,
        update s.ibsPerIp cs.hwIp (s.ibsPerIp cs.hwIp + (0 + 1))⟩ := by
      rw [drop_eq_getElem_cons hj, drop_eq_nil_of_le (by omega), map_singleton, ← ibBufferAt_eq hj]
      simp only [takeIb, hchain, Bool.false_eq_true, if_false, hm, if_true, Split.push,
        zero_add, markMain_csIbToInfo]
    rw [mainLoop_succ hcs hok, htake]
  | succ m ih =>
    have hj : s.csIbIdx < cs.ibBuffers.length := by omega
    have htake : r.takeIb s cs = ⟨s.csIdx, s.csIbIdx + 1,
        s.ibs ++ [⟨r.mainFlags cs.hwIp, cs.hwIp, cs.ibBuffers[s.csIbIdx].va,
          cs.ibBuffers[s.csIbIdx].cdw⟩],
        update s.ibsPerIp cs.hwIp (s.ibsPerIp cs.hwIp + 1)⟩ := by
      rw [← ibBufferAt_eq hj]
      have hne : ¬ s.csIbIdx + 1 = cs.ibBuffers.length := by omega
      simp only [takeIb, hchain, Bool.false_eq_true, if_false, hne, Split.push, markMain_csIbToInfo]
    have hrest := @ih (i + 1) (r.takeIb s cs) (by rw [htake]; exact hcs)
      (by rw [htake]; show s.csIbIdx + 1 + (m + 1) = _; omega)
      (by rw [htake]; exact fun h => absurd h (succ_ne_zero _))
    rw [← add_assoc, mainLoop_succ hcs hok, hrest, htake, drop_eq_getElem_cons hj, map_cons]
    simp only [append_assoc, singleton_append, update_idem, update_self]
    have hi : i + 1 + (m + 1) = i + (m + 1 + 1) := by omega
    have hper : s.ibsPerIp cs.hwIp + 1 + (m + 1) = s.ibsPerIp cs.hwIp + (m + 1 + 1) := by omega
    rw [hi, hper]

/-- All iterations for a stream that can start. -/
theorem mainLoop_stream (hcs : r.csArray[s.csIdx]? = some cs) (hib : cs.ibBuffers ≠ [])
    (hzero : s.csIbIdx = 0) (hok : r.startOk maxIbPerIp n i s cs = true) :
    r.mainLoop maxIbPerIp n (left + submittedIbsPerCs cs) i s =
      r.mainLoop maxIbPerIp n left (i + submittedIbsPerCs cs) (r.addStream s cs) := by
  have hpos := length_pos_iff.mpr hib
  cases hchain : cs.chainIb with
  | true =>
    have hone : submittedIbsPerCs cs = 1 := by simp [submittedIbsPerCs, hchain]
    have hmain : r.mainIbs cs = [r.markMain (csIbToInfo cs (cs.ibBufferAt 0))] := by
      rw [markMain_csIbToInfo, mainIbs, Cs.submitted, if_pos hchain,
        ibBufferAt_eq hpos, take_one, head?_eq_getElem?, getElem?_eq_getElem hpos]
      rfl
    have htake : r.takeIb s cs = r.addStream s cs := by
      simp only [takeIb, hchain, if_true, Split.push, addStream, hmain, addPerIp, hone, hzero]
    rw [hone, mainLoop_succ hcs fun _ => hok, htake]
  | false =>
    have hall : submittedIbsPerCs cs = cs.ibBuffers.length - 1 + 1 := by
      simp only [submittedIbsPerCs, hchain, Bool.false_eq_true, if_false]
      omega
    rw [hall, mainLoop_rest _ hcs hchain (by omega) fun _ => hok, hzero, drop_zero]
    unfold addStream addPerIp
    rw [hall, mainIbs, Cs.submitted, hchain, if_neg Bool.false_ne_true]

/-- The look-ahead of the code is the condition of `group`. -/
theorem startOk_iff {rest : List Cs} (hdrop : r.csArray.drop s.csIdx = cs :: rest) :
    r.startOk maxIbPerIp n i s cs = true ↔ r.addOk maxIbPerIp n i s.ibsPerIp cs rest.head? := by
  have hnext : r.csArray[s.csIdx + 1]? = rest.head? := by
    rw [head?_eq_getElem?, ← getElem?_drop, hdrop, getElem?_cons_succ]
  unfold startOk addOk
  rw [hnext]
  by_cases hlimit : i + submittedIbsPerCs cs > n ∨
    s.ibsPerIp cs.hwIp + submittedIbsPerCs cs > maxIbPerIp cs.hwIp
  · simp only [hlimit, if_true, Bool.false_eq_true, false_iff]
    omega
  · have hle : i + submittedIbsPerCs cs ≤ n ∧
        s.ibsPerIp cs.hwIp + submittedIbsPerCs cs ≤ maxIbPerIp cs.hwIp := by omega
    by_cases hip : cs.hwIp = r.ipType
    · rw [if_neg hlimit, if_neg (not_not.mpr hip)]
      exact ⟨fun _ => ⟨hle.1, hle.2, fun h => absurd hip h⟩, fun _ => rfl⟩
    · cases hrest : rest.head? with
      | none => simp [hlimit, hip]
      | some l =>
        simp only [hlimit, if_false, ne_eq, hip, not_false_eq_true, if_true, decide_eq_true_eq,
          Option.some.injEq, true_implies, exists_eq_left', hle.1, hle.2, true_and]
        omega

/-- The loop takes the streams of a group. -/
theorem mainLoop_eq_group (hib : ∀ cs ∈ r.csArray, cs.ibBuffers ≠ []) {todo : List Cs}
    (hdrop : r.csArray.drop s.csIdx = todo) (hzero : s.csIbIdx = 0) (hi : i ≤ n) :
    r.mainLoop maxIbPerIp n (n - i) i s = (r.group maxIbPerIp n i s.ibsPerIp todo).foldl r.addStream s := by
  induction todo generalizing s i with
  | nil =>
    have hnone : r.csArray[s.csIdx]? = none := by
      rw [← add_zero s.csIdx, ← getElem?_drop, hdrop, getElem?_nil]
    cases hleft : n - i with
    | zero => rfl
    | succ left =>
      rw [mainLoop, hnone]
      rfl
  | cons cs todo ih =>
    have hcs : r.csArray[s.csIdx]? = some cs := by
      rw [← add_zero s.csIdx, ← getElem?_drop, hdrop, getElem?_cons_zero]
    have hne := hib cs (mem_of_getElem? hcs)
    unfold group
    split
    · next hok =>
      have hstart := (startOk_iff hdrop).mpr hok
      have hfit := hok.1
      have hsplit : n - i = n - (i + submittedIbsPerCs cs) + submittedIbsPerCs cs := by omega
      rw [hsplit, mainLoop_stream hcs hne hzero hstart, foldl_cons]
      have hdrop' : r.csArray.drop (r.addStream s cs).csIdx = todo := by
        show r.csArray.drop (s.csIdx + 1) = todo
        rw [← drop_drop, hdrop, drop_one, tail_cons]
      exact ih hdrop' rfl hfit
    · next hok =>
      have hstart : ¬ r.startOk maxIbPerIp n i s cs = true := fun h => hok ((startOk_iff hdrop).mp h)
      cases hleft : n - i with
      | zero => rfl
      | succ left =>
        rw [mainLoop, hcs]
        exact if_pos ⟨hzero, hstart⟩

lemma foldl_addStream (g : List Cs) (hzero : s.csIbIdx = 0) :
    (g.foldl r.addStream s).csIdx = s.csIdx + g.length ∧ (g.foldl r.addStream s).csIbIdx = 0 ∧
      (g.foldl r.addStream s).ibs = s.ibs ++ g.flatMap r.mainIbs := by
  induction g generalizing s with
  | nil => exact ⟨rfl, hzero, by simp⟩
  | cons cs g ih =>
    obtain ⟨hidx, hib, hibs⟩ := @ih (r.addStream s cs) rfl
    refine ⟨?_, hib, ?_⟩
    · rw [foldl_cons, hidx]
      simp only [addStream, length_cons]
      omega
    · rw [foldl_cons, hibs]
      simp only [addStream, flatMap_cons, append_assoc]

lemma foldl_push (s : Split) (l : List Cs) (f : Cs → IbInfo) :
    l.foldl (fun s cs => s.push cs (f cs)) s =
      ⟨s.csIdx, s.csIbIdx, s.ibs ++ l.map f, fun ip => s.ibsPerIp ip + (l.filter (·.hwIp = ip)).length⟩ := by
  induction l generalizing s with
  | nil => simp
  | cons cs l ih =>
    rw [foldl_cons, ih]
    simp only [Split.push, map_cons, append_assoc, singleton_append, Split.mk.injEq, true_and]
    funext ip
    by_cases h : cs.hwIp = ip
    · subst h
      rw [update_self, filter_cons_of_pos (by simp), length_cons]
      omega
    · rw [update_of_ne (Ne.symm h), filter_cons_of_neg (by simpa using h)]

end Loop

/-! ## The submissions of a request -/

/-- The streams can be submitted: they have IBs and are ordered in gangs, and each of them fits with
either preambles and the postambles, together with its leader if it is a follower. -/
structure Fits : Prop where
  nonempty : r.csArray ≠ []
  ibs : ∀ cs ∈ r.csArray, cs.ibBuffers ≠ []
  gangs : Gangs r.ipType r.csArray
  single : ∀ pre ∈ [r.initialPreamble, r.continuePreamble], ∀ cs ∈ r.csArray,
    pre.length + submittedIbsPerCs cs + r.postamble.length ≤ maxIbsPerSubmit ∧
      (pre.filter (·.hwIp = cs.hwIp)).length + submittedIbsPerCs cs ≤ maxIbPerIp cs.hwIp
  gang : ∀ pre ∈ [r.initialPreamble, r.continuePreamble], ∀ (k : ℕ) (cs l : Cs),
    r.csArray[k]? = some cs → r.csArray[k + 1]? = some l → cs.hwIp ≠ r.ipType →
      pre.length + submittedIbsPerCs cs + submittedIbsPerCs l + r.postamble.length ≤ maxIbsPerSubmit

/-- The state of the iteration at `csIdx` after its preambles. -/
def SubmitInfo.afterPreambles (csIdx : ℕ) : Split :=
  ⟨csIdx, 0, (r.preambles csIdx).map fun cs => firstIb (r.secureFlags cs.hwIp) cs,
    fun ip => ((r.preambles csIdx).filter (·.hwIp = ip)).length⟩

/-- The group that the iteration at `csIdx` submits. -/
noncomputable def SubmitInfo.groupAt (csIdx : ℕ) : List Cs :=
  r.group maxIbPerIp (maxIbsPerSubmit - (r.preambles csIdx).length - r.postamble.length) 0
    (r.afterPreambles csIdx).ibsPerIp (r.csArray.drop csIdx)

lemma groupAt_prefix (csIdx : ℕ) :
    ∃ rest, r.csArray.drop csIdx = r.groupAt maxIbPerIp csIdx ++ rest := group_prefix

lemma groupAt_le (csIdx : ℕ) :
    ibCount (r.groupAt maxIbPerIp csIdx) ≤
        maxIbsPerSubmit - (r.preambles csIdx).length - r.postamble.length ∧
      ∀ cs ∈ r.groupAt maxIbPerIp csIdx,
        (r.afterPreambles csIdx).ibsPerIp cs.hwIp + ibCountIp (r.groupAt maxIbPerIp csIdx) cs.hwIp ≤
          maxIbPerIp cs.hwIp := by
  unfold groupAt
  rcases @group_le r maxIbPerIp _ 0 (r.afterPreambles csIdx).ibsPerIp _ with ⟨hnil | hle, hper⟩
  · rw [hnil] at hper ⊢
    exact ⟨zero_le _, hper⟩
  · exact ⟨by omega, hper⟩

lemma Gangs.drop {ip : IpType} {l : List Cs} (h : Gangs ip l) (k : ℕ) : Gangs ip (l.drop k) := by
  induction k generalizing l with
  | zero => exact h
  | succ k ih =>
    cases l with
    | nil => exact h
    | cons a l => exact ih h.2

lemma preambles_mem (csIdx : ℕ) : r.preambles csIdx ∈ [r.initialPreamble, r.continuePreamble] := by
  unfold preambles
  split
  · simp
  · simp

section Fits

variable {r maxIbPerIp} (h : Fits r maxIbPerIp) {csIdx : ℕ}
include h

/-- No subtraction wraps. -/
theorem ibPerSubmit_eq :
    r.ibPerSubmit csIdx = maxIbsPerSubmit - (r.preambles csIdx).length - r.postamble.length := by
  obtain ⟨cs, hcs⟩ := exists_mem_of_ne_nil _ h.nonempty
  have hle := (h.single _ (preambles_mem r csIdx) cs hcs).1
  have hmax : maxIbsPerSubmit = 192 := rfl
  unfold ibPerSubmit
  have hsub : sub32 maxIbsPerSubmit (r.preambles csIdx).length =
      maxIbsPerSubmit - (r.preambles csIdx).length :=
    sub32_of_le (by omega) (by omega)
  rw [hsub, sub32_of_le (by omega) (by omega)]

/-- Every iteration makes progress. -/
theorem groupAt_ne_nil (hlt : csIdx < r.csArray.length) : r.groupAt maxIbPerIp csIdx ≠ [] := by
  have hcs : r.csArray[csIdx]? = some r.csArray[csIdx] := getElem?_eq_getElem hlt
  have hdrop := drop_eq_getElem_cons hlt
  have hpre := preambles_mem r csIdx
  have hfit := h.single _ hpre _ (getElem_mem hlt)
  have hgangs := h.gangs.drop csIdx
  rw [hdrop] at hgangs
  have hok : r.addOk maxIbPerIp (maxIbsPerSubmit - (r.preambles csIdx).length - r.postamble.length) 0
      (r.afterPreambles csIdx).ibsPerIp r.csArray[csIdx]
      (r.csArray.drop (csIdx + 1)).head? := by
    refine ⟨by omega, hfit.2, ?_⟩
    intro hne
    obtain ⟨l, hl, hlead⟩ := hgangs.1 hne
    have hnext : r.csArray[csIdx + 1]? = some l := by
      rw [← hl, head?_eq_getElem?, getElem?_drop, add_zero]
    have hgang := h.gang _ hpre csIdx _ l hcs hnext hne
    exact ⟨l, hl, by omega, (h.single _ hpre l (mem_of_getElem? hnext)).2⟩
  unfold groupAt
  rw [hdrop, group, if_pos hok]
  exact cons_ne_nil _ _

/-- What an iteration submits. -/
theorem splitOnce_eq :
    (r.splitOnce maxIbPerIp csIdx 0).csIdx = csIdx + (r.groupAt maxIbPerIp csIdx).length ∧
      (r.splitOnce maxIbPerIp csIdx 0).csIbIdx = 0 ∧
      (r.splitOnce maxIbPerIp csIdx 0).ibs = r.groupIbs (r.preambles csIdx) (r.groupAt maxIbPerIp csIdx) := by
  have hpre : (r.preambles csIdx).foldl r.pushPreamble ⟨csIdx, 0, [], fun _ => 0⟩ =
      r.afterPreambles csIdx := by
    have hpush := foldl_push ⟨csIdx, 0, [], fun _ => 0⟩ (r.preambles csIdx) fun cs =>
      r.markSecure (csIbToInfo cs (cs.ibBufferAt 0))
    simp only [zero_add, nil_append] at hpush
    refine Eq.trans hpush ?_
    simp only [markSecure_csIbToInfo]
    rfl
  have hpost : ∀ s : Split, r.postamble.foldl pushPostamble s =
      ⟨s.csIdx, s.csIbIdx, s.ibs ++ r.postamble.map (firstIb 0),
        fun ip => s.ibsPerIp ip + (r.postamble.filter (·.hwIp = ip)).length⟩ :=
    fun s => foldl_push s r.postamble (firstIb 0)
  have hmain : r.mainLoop maxIbPerIp (r.ibPerSubmit csIdx) (r.ibPerSubmit csIdx) 0 (r.afterPreambles csIdx) =
      (r.groupAt maxIbPerIp csIdx).foldl r.addStream (r.afterPreambles csIdx) := by
    have hloop := @mainLoop_eq_group r maxIbPerIp (r.ibPerSubmit csIdx) 0 (r.afterPreambles csIdx) h.ibs
      (r.csArray.drop csIdx) rfl rfl (zero_le _)
    rw [Nat.sub_zero] at hloop
    unfold groupAt
    rw [hloop, ibPerSubmit_eq h]
  have hadd : (r.afterPreambles csIdx).csIbIdx = 0 := rfl
  obtain ⟨hidx, hib, hibs⟩ := @foldl_addStream r _ _ hadd
  unfold splitOnce
  dsimp only
  rw [hpre, hmain, hpost]
  refine ⟨hidx, hib, ?_⟩
  rw [hibs]
  rfl

lemma length_mainIbs {cs : Cs} (hcs : cs ∈ r.csArray) : (r.mainIbs cs).length = submittedIbsPerCs cs := by
  have hpos := length_pos_iff.mpr (h.ibs cs hcs)
  unfold mainIbs Cs.submitted submittedIbsPerCs
  rw [length_map]
  split
  · rw [length_take]
    omega
  · rfl

/-- The IBs of a kernel submission fit in the array `ibs`. -/
theorem length_ibs_le : (r.splitOnce maxIbPerIp csIdx 0).ibs.length ≤ r.ibArraySize := by
  rw [(splitOnce_eq h).2.2]
  obtain ⟨rest, hrest⟩ := groupAt_prefix r maxIbPerIp csIdx
  have hlimit := (groupAt_le r maxIbPerIp csIdx).1
  generalize r.groupAt maxIbPerIp csIdx = g at *
  have hall : r.csArray = r.csArray.take csIdx ++ (g ++ rest) := by
    rw [← hrest, take_append_drop]
  have hmain : (g.flatMap r.mainIbs).length = ibCount g := by
    rw [length_flatMap]
    apply congrArg sum
    apply map_congr_left
    intro cs hcs
    exact length_mainIbs h (by rw [hall]; simp [hcs])
  have hcount : ibCount g ≤ (r.csArray.map submittedIbsPerCs).sum := by
    rw [hall]
    simp only [map_append, List.sum_append, ibCount]
    omega
  have hpre : (r.preambles csIdx).length ≤ max r.initialPreamble.length r.continuePreamble.length := by
    unfold preambles
    split <;> omega
  obtain ⟨cs, hcs⟩ := exists_mem_of_ne_nil _ h.nonempty
  have hfit := (h.single _ (preambles_mem r csIdx) cs hcs).1
  unfold groupIbs ibArraySize countSubmittedIbs
  rw [length_append, length_append, length_map, length_map, hmain]
  omega

end Fits

end

/-! ## The kernel submissions -/

/-- Everything that the system decides goes well. -/
structure Env.Ok (e : Env) : Prop where
  queueSyncobj : e.queueSyncobj ≠ 0
  mallocChunks : e.mallocChunks = true
  mallocWait : e.mallocWait = true
  mallocSignal : e.mallocSignal = true
  answer : e.answer = .success

/-- After a successful kernel submission. -/
def Ctx.sent (hasTimeline : Bool) (c : Ctx) (e : Env) (ibs : List IbInfo) : Ctx :=
  { (if c.emitsWait then c.waitEmitted else c) with
    submissions := c.submissions ++ [c.chunks hasTimeline e ibs] }

lemma csSubmit_ok {hasTimeline : Bool} {e : Env} (he : e.Ok) (c : Ctx) (ibs : List IbInfo) :
    csSubmit hasTimeline e c ibs = (.success, c.sent hasTimeline e ibs) := by
  have hsub : (if c.emitsWait then c.waitEmitted else c).submissions = c.submissions := by
    split <;> rfl
  simp [csSubmit, he.queueSyncobj, he.mallocChunks, he.mallocWait, he.mallocSignal, he.answer, Ctx.sent, hsub]

section Groups

variable (hasTimeline : Bool) (r : SubmitInfo) (maxIbPerIp : IpType → ℕ) (env : ℕ → Env)

/-- The kernel submissions of some groups, the first of them the `n`-th with `csIdx` streams before
it. -/
def submitGroups : ℕ → ℕ → Ctx → List (List Cs) → Ctx
  | _, _, c, [] => c
  | n, csIdx, c, g :: gs =>
    submitGroups (n + 1) (csIdx + g.length)
      (c.sent hasTimeline (env n) (r.groupIbs (r.preambles csIdx) g)) gs

/-- The streams are cut into groups, none of them empty, none of them with a follower at its end. -/
structure Grouped (groups : List (List Cs)) (l : List Cs) : Prop where
  flatten : groups.flatten = l
  ne_nil : ∀ g ∈ groups, g ≠ []
  leader : ∀ g ∈ groups, ∀ cs, g.getLast? = some cs → cs.hwIp = r.ipType

variable {hasTimeline r maxIbPerIp env}

/-- The loop ends after at most one iteration for each stream. -/
theorem submitLoop_eq (h : Fits r maxIbPerIp) (henv : ∀ n, (env n).Ok) (fuel : ℕ) {n csIdx : ℕ}
    (c : Ctx) (hfuel : r.csArray.length - csIdx < fuel) :
    ∃ groups, Grouped r groups (r.csArray.drop csIdx) ∧
      (csIdx < r.csArray.length → groups.head? = some (r.groupAt maxIbPerIp csIdx)) ∧
      submitLoop hasTimeline r maxIbPerIp env fuel n csIdx 0 c =
        some (.success, submitGroups hasTimeline r env n csIdx c groups) := by
  induction fuel generalizing n csIdx c with
  | zero => omega
  | succ fuel ih =>
    unfold submitLoop
    by_cases hlt : csIdx < r.csArray.length
    · obtain ⟨hidx, hib, hibs⟩ := @splitOnce_eq _ _ h csIdx
      have hne := groupAt_ne_nil h hlt
      have hpos := length_pos_iff.mpr hne
      have hstep := @ih (n + 1) (csIdx + (r.groupAt maxIbPerIp csIdx).length)
        (c.sent hasTimeline (env n) (r.groupIbs (r.preambles csIdx) (r.groupAt maxIbPerIp csIdx))) (by omega)
      obtain ⟨groups, hgrouped, -, heq⟩ := hstep
      obtain ⟨rest, hrest⟩ := groupAt_prefix r maxIbPerIp csIdx
      refine ⟨r.groupAt maxIbPerIp csIdx :: groups, ⟨?_, ?_, ?_⟩, fun _ => rfl, ?_⟩
      · rw [flatten_cons, hgrouped.flatten, ← drop_drop, hrest, drop_left]
      · exact forall_mem_cons.mpr ⟨hne, hgrouped.ne_nil⟩
      · intro g hg cs hlast
        rcases mem_cons.mp hg with rfl | hg
        · exact getLast_group (h.gangs.drop csIdx) hlast
        · exact hgrouped.leader g hg cs hlast
      · rw [if_pos hlt]
        dsimp only
        rw [csSubmit_ok (henv n), hidx, hib, hibs]
        exact heq
    · refine ⟨[], ⟨?_, ?_, ?_⟩, fun hlt' => absurd hlt' hlt, ?_⟩
      · rw [drop_eq_nil_of_le (by omega), flatten_nil]
      · exact forall_mem_nil _
      · exact forall_mem_nil _
      · rw [if_neg hlt]
        rfl

end Groups

/-- The IBs of a kernel submission. -/
def chunkIbs (chunks : List Chunk) : List IbInfo :=
  chunks.filterMap fun
    | .ib info => some info
    | _ => none

lemma chunkIbs_append (a b : List Chunk) : chunkIbs (a ++ b) = chunkIbs a ++ chunkIbs b := filterMap_append

/-- A chunk that is there under a condition and is not an IB. -/
theorem chunkIbs_ite (p : Prop) [Decidable p] {ch : Chunk} (h : chunkIbs [ch] = []) :
    chunkIbs (if p then [ch] else []) = [] := by
  split
  · exact h
  · rfl

lemma chunkIbs_chunks (hasTimeline : Bool) (c : Ctx) (e : Env) (ibs : List IbInfo) :
    chunkIbs (c.chunks hasTimeline e ibs) = ibs := by
  have hibs : chunkIbs (ibs.map .ib) = ibs := by
    unfold chunkIbs
    rw [filterMap_map]
    exact filterMap_some
  have hwait : chunkIbs [c.waitChunk hasTimeline e] = [] := by
    cases hasTimeline <;> rfl
  have hsignal : chunkIbs [c.signalChunk hasTimeline e] = [] := by
    cases hasTimeline <;> rfl
  unfold Ctx.chunks
  simp only [chunkIbs_append, hibs, chunkIbs_ite _ hwait, chunkIbs_ite _ hsignal]
  rw [chunkIbs_ite _ (by rfl), chunkIbs_ite _ (by rfl)]
  show ibs ++ [] ++ [] ++ [] ++ [] ++ [] = ibs
  simp only [append_nil]

section Groups

variable {hasTimeline : Bool} {r : SubmitInfo} {maxIbPerIp : IpType → ℕ} {env : ℕ → Env}

/-- After the first submission the continue preambles are used. -/
theorem chunkIbs_submitGroups (groups : List (List Cs)) {n csIdx : ℕ} (hpos : 0 < csIdx) (c : Ctx) :
    (submitGroups hasTimeline r env n csIdx c groups).submissions.map chunkIbs =
      c.submissions.map chunkIbs ++ groups.map (r.groupIbs r.continuePreamble) := by
  induction groups generalizing n csIdx c with
  | nil => exact (append_nil _).symm
  | cons g gs ih =>
    have hpre : r.preambles csIdx = r.continuePreamble := if_pos (by omega)
    rw [submitGroups, ih (by omega), hpre]
    simp only [Ctx.sent, map_append, chunkIbs_chunks, map_cons, map_nil, append_assoc,
      cons_append, nil_append]

/-- A request whose streams fit is cut into groups of whole streams, each follower with its leader,
and each group is one kernel submission between its preambles and the postambles; the main IBs are
those of all streams in their order. -/
theorem submissions_of_fits (h : Fits r maxIbPerIp) (henv : ∀ n, (env n).Ok) {fuel : ℕ}
    (hfuel : r.csArray.length < fuel) (sem : SemInfo) (queueSyncobjWait : Bool) :
    ∃ (c : Ctx) (first : List Cs) (later : List (List Cs)),
      winsysCsSubmitInternal hasTimeline r maxIbPerIp env .success fuel ⟨sem, queueSyncobjWait, []⟩ =
        some (.success, c) ∧
      c.submissions.map chunkIbs =
        r.groupIbs r.initialPreamble first :: later.map (r.groupIbs r.continuePreamble) ∧
      Grouped r (first :: later) r.csArray ∧
      (first :: later).flatMap (fun g => g.flatMap r.mainIbs) = r.csArray.flatMap r.mainIbs := by
  have hlt : 0 < r.csArray.length := length_pos_iff.mpr h.nonempty
  rcases @submitLoop_eq hasTimeline r maxIbPerIp env h henv fuel 0 0 ⟨sem, queueSyncobjWait, []⟩ (by omega)
    with ⟨groups, hgrouped, hhead, heq⟩
  rw [drop_zero] at hgrouped
  cases groups with
  | nil => exact absurd (hhead hlt) (by simp)
  | cons first later =>
    have hpos := length_pos_iff.mpr (hgrouped.ne_nil first mem_cons_self)
    refine ⟨_, first, later, heq, ?_, hgrouped, ?_⟩
    · rw [submitGroups, chunkIbs_submitGroups later (by omega)]
      simp only [Ctx.sent, nil_append, map_singleton, chunkIbs_chunks, singleton_append]
      rfl
    · rw [← hgrouped.flatten, flatten_eq_flatMap, flatMap_assoc]
      rfl

end Groups

/-- A finalized stream with IBs in the BOs from `base` on. -/
def finalizedCs (hwIp : IpType) (chainIb : Bool) (base numIbBuffers : ℕ) : Cs :=
  { cdw := 0, maxDw := 0, reservedDw := 0, buf := none, ibMcAddress := 0, ibSize := 0, ibBuffer := none
    ibMapped := none
    ibBuffers := (range' base numIbBuffers).map fun b =>
      ⟨b, BitVec.ofNat 64 (0x100000 * b), 8 * b⟩
    ibSizePtr := .ibSize, status := .success, chainedTo := none, chainIb := chainIb
    isSecondary := false, hwIp := hwIp, buffers := ⟨[], fun _ => none⟩ }

/-- A stream of two IBs that are not chained, and a gang. -/
def gangRequest : SubmitInfo :=
  { csArray := [finalizedCs .gfx false 1 2, finalizedCs .compute true 3 1, finalizedCs .gfx true 4 3]
    initialPreamble := [finalizedCs .gfx true 7 1]
    continuePreamble := [finalizedCs .gfx true 8 1]
    postamble := [finalizedCs .gfx true 9 1]
    usesShadowRegs := false
    secure := false }

lemma fits_gangRequest : Fits gangRequest fun _ => 3 := by
  refine ⟨by simp [gangRequest], ?_, ?_, ?_, ?_⟩
  · intro cs hcs
    simp only [gangRequest, mem_cons, not_mem_nil, or_false] at hcs
    rcases hcs with rfl | rfl | rfl <;> simp [finalizedCs]
  · exact ⟨fun h => absurd rfl h, fun _ => ⟨_, rfl, rfl⟩, fun h => absurd rfl h, trivial⟩
  · intro pre hpre cs hcs
    simp only [gangRequest, mem_cons, not_mem_nil, or_false] at hpre hcs
    rcases hpre with rfl | rfl <;> rcases hcs with rfl | rfl | rfl <;> decide
  · intro pre hpre k cs l hcs hl _
    simp only [gangRequest, mem_cons, not_mem_nil, or_false] at hpre
    rcases k with _ | _ | k
    · cases hcs
      cases hl
      rcases hpre with rfl | rfl <;> decide
    · cases hcs
      cases hl
      rcases hpre with rfl | rfl <;> decide
    · exact absurd hl (by simp [gangRequest])

theorem length_ibs_le_gang : (gangRequest.splitOnce (fun _ => 3) 1 0).ibs.length ≤ gangRequest.ibArraySize :=
  length_ibs_le fits_gangRequest

def okEnv : Env := ⟨1, false, 0, 0, 0, true, true, true, .success⟩

lemma okEnv_ok : okEnv.Ok := ⟨by decide, rfl, rfl, rfl, rfl⟩

/-- The gang does not fit behind the first stream: three IBs of the GFX ring at most. -/
theorem submissions_of_fits_gang :
    ∃ (c : Ctx) (first : List Cs) (later : List (List Cs)),
      winsysCsSubmitInternal true gangRequest (fun _ => 3) (fun _ => okEnv) .success 4
        ⟨semInfo true [] [], false, []⟩ = some (.success, c) ∧
      c.submissions.map chunkIbs = gangRequest.groupIbs gangRequest.initialPreamble first ::
        later.map (gangRequest.groupIbs gangRequest.continuePreamble) ∧
      Grouped gangRequest (first :: later) gangRequest.csArray ∧
      (first :: later).flatMap (fun g => g.flatMap gangRequest.mainIbs) =
        gangRequest.csArray.flatMap gangRequest.mainIbs :=
  submissions_of_fits fits_gangRequest (fun _ => okEnv_ok) (by decide) _ _

end RadvXclipse.RadvAmdgpu
