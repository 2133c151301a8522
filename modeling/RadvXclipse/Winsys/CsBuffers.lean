import RadvXclipse.Winsys.CsRun
import RadvXclipse.Winsys.CsSecondary

/-!
# The buffer list of a stream

A stream lists the BOs it uses, and finds them by a hash table with one entry for each bucket. An
entry is overwritten by the next BO with the same hash, so a hit may need a search of the list; only
an empty bucket says at once that a BO is not listed. That is right because a bucket is empty
exactly when no listed handle belongs to it.
-/

namespace RadvXclipse.RadvAmdgpu

open Lib List Function

/-- The table belongs to the list: a bucket is empty exactly if no handle of the list is in it. -/
structure TableOk (handles : List (ℕ × ℕ)) (table : ℕ → Option ℕ) : Prop where
  bucket : ∀ b, table b = none ↔ ∀ e ∈ handles, e.1 % 1024 ≠ b
  inside : ∀ b i, table b = some i → i < handles.length

/-- The table belongs to the list, and no handle is listed twice. -/
structure BufferList.Ok (l : BufferList) : Prop where
  nodup : (l.handles.map Prod.fst).Nodup
  table : TableOk l.handles l.hashTable

/-- The handle is at index `i` of the list. -/
def BufferList.ListedAt (l : BufferList) (bo i : ℕ) : Prop := (l.handles.map Prod.fst)[i]? = some bo

/-- Pointing the bucket of a listed handle into the list; other handles may only be of that
bucket. -/
theorem TableOk.point {handles : List (ℕ × ℕ)} {table : ℕ → Option ℕ} (h : TableOk handles table)
    (more : List (ℕ × ℕ)) {bo i : ℕ} (hmem : ∃ e ∈ handles ++ more, e.1 = bo)
    (hmore : ∀ e ∈ more, e.1 = bo) (hi : i < (handles ++ more).length) :
    TableOk (handles ++ more) (update table (bo % 1024) (some i)) := by
  constructor
  · intro b
    by_cases hb : b = bo % 1024
    · obtain ⟨e, he, rfl⟩ := hmem
      rw [hb, update_self]
      exact iff_of_false (fun hn => by cases hn) fun hall => hall e he rfl
    · rw [update_of_ne hb, h.bucket]
      refine ⟨fun hall e he => ?_, fun hall e he => hall e (mem_append_left _ he)⟩
      rcases mem_append.mp he with he | he
      · exact hall e he
      · rw [hmore e he]
        exact Ne.symm hb
  · intro b k hk
    by_cases hb : b = bo % 1024
    · rw [hb, update_self] at hk
      exact Option.some.inj hk ▸ hi
    · rw [update_of_ne hb] at hk
      rw [length_append]
      exact Nat.lt_add_right _ (h.inside b k hk)

section

variable {l : BufferList} {bo i j : ℕ}

lemma BufferList.Ok.index_eq (h : l.Ok) (hi : l.ListedAt bo i) (hj : l.ListedAt bo j) : i = j := by
  have hlt := (List.getElem?_eq_some_iff.mp hi).1
  exact (getElem?_inj hlt h.nodup).mp (hi.trans hj.symm)

lemma BufferList.ListedAt.mem (hi : l.ListedAt bo i) : ∃ e ∈ l.handles, e.1 = bo :=
  mem_map.mp (mem_of_getElem? hi)

/-- Any index at which the handle is listed is the one that is found. -/
theorem BufferList.Ok.found (h : l.Ok) (hj : l.ListedAt bo j) (i : ℕ) :
    some j = some i ↔ l.ListedAt bo i := by
  refine ⟨fun heq => Option.some.inj heq ▸ hj, fun hi => ?_⟩
  rw [h.index_eq hj hi]

/-- A search finds the handle, or leaves the table as it is. -/
theorem csFindBuffer_spec (h : l.Ok) (bo : ℕ) :
    (∀ i, (csFindBuffer l bo).1 = some i ↔ l.ListedAt bo i) ∧ (csFindBuffer l bo).2.Ok ∧
      ((csFindBuffer l bo).1 = none → (csFindBuffer l bo).2 = l) := by
  have hmiss : (∀ e ∈ l.handles, e.1 ≠ bo) → ∀ i, none = some i ↔ l.ListedAt bo i := by
    refine fun hall i => iff_of_false (fun hi => by cases hi) fun hi => ?_
    obtain ⟨e, he, heq⟩ := hi.mem
    exact hall e he heq
  unfold csFindBuffer
  cases hslot : l.hashTable (bo % 1024) with
  | none =>
    refine ⟨hmiss fun e he heq => ?_, h, fun _ => rfl⟩
    exact (h.table.bucket _).mp hslot e he (by rw [heq])
  | some index =>
    have hlt := h.table.inside _ _ hslot
    dsimp only
    split_ifs with hhit
    · refine ⟨h.found ?_, h, fun _ => rfl⟩
      rw [BufferList.ListedAt, getElem?_map, getElem?_eq_getElem hlt, ← hhit,
        getD_eq_getElem?_getD, getElem?_eq_getElem hlt]
      rfl
    · cases hfind : l.handles.findIdx? fun e => e.1 = bo with
      | none =>
        refine ⟨hmiss fun e he heq => ?_, h, fun _ => rfl⟩
        exact absurd (findIdx?_eq_none_iff.mp hfind e he) (by simp [heq])
      | some k =>
        obtain ⟨hk, heq, -⟩ := findIdx?_eq_some_iff_getElem.mp hfind
        have hlisted : l.ListedAt bo k := by
          rw [BufferList.ListedAt, getElem?_map, getElem?_eq_getElem hk]
          exact congrArg some (of_decide_eq_true heq)
        have htable := h.table.point [] (i := k) (by simpa using hlisted.mem) (by simp) (by simpa using hk)
        rw [append_nil] at htable
        exact ⟨h.found hlisted, ⟨h.nodup, htable⟩, fun hnone => by cases hnone⟩

lemma BufferList.Ok.add (h : l.Ok) (bo priority : ℕ) : (csAddBufferInternal l bo priority).Ok := by
  obtain ⟨hfind, hok, hsame⟩ := csFindBuffer_spec h bo
  unfold csAddBufferInternal
  generalize csFindBuffer l bo = r at hfind hok hsame
  obtain ⟨_ | i, l'⟩ := r
  · obtain rfl : l' = l := hsame rfl
    refine ⟨?_, h.table.point _ (by simp) (by simp) (by simp)⟩
    rw [map_append, nodup_append]
    refine ⟨h.nodup, nodup_singleton _, fun x hx y hy heq => ?_⟩
    obtain ⟨i, hi⟩ := mem_iff_getElem?.mp hx
    rw [heq, mem_singleton.mp hy] at hi
    cases (hfind i).mpr hi
  · exact hok

/-- Emptying the buckets of the listed handles empties the table. -/
theorem BufferList.Ok.clear (h : l.Ok) :
    BufferList.Ok ⟨[], fun b => if l.handles.any fun e => e.1 % 1024 = b then none
      else l.hashTable b⟩ := by
  have hnone : ∀ b, (if l.handles.any fun e => e.1 % 1024 = b then none else l.hashTable b) = none := by
    intro b
    split_ifs with hany
    · rfl
    · rw [h.table.bucket]
      simpa using hany
  refine ⟨nodup_nil, fun b => iff_of_true (hnone b) (by simp), fun b i hb => ?_⟩
  dsimp only at hb
  rw [hnone] at hb
  cases hb

end

/-! ## The operations of a stream -/

section

variable (info : Info) {s : St}

section

variable (h : s.cs.buffers.Ok)
include h

lemma csAddBuffer_ok (b : Option BoId) : (csAddBuffer s b).cs.buffers.Ok := by
  unfold csAddBuffer
  split
  · split_ifs
    · exact h
    · exact h
    · exact h
    · exact h.add ..
  · exact h

lemma growTail_ok (n : ℕ) (result : VkResult) (mapOk : Bool) : (growTail n result mapOk s).cs.buffers.Ok := by
  have hrestore : ∀ (p : Prop) [Decidable p] (t u : St), t.cs.buffers.Ok → u.cs.buffers.Ok →
      (if p then restoreLastIb t else u).cs.buffers.Ok := by
    intro p _ t u ht hu
    unfold restoreLastIb
    split_ifs
    · split
      · exact ht
      · exact ht
    · exact hu
  have hlink : ∀ t : St, t.cs.buffers.Ok → (if t.cs.chainIb then linkNewIb t else t).cs.buffers.Ok := by
    intro t ht
    split_ifs
    · exact ht
    · exact ht
  have hcreate := hrestore (result ≠ .success)
    { s with cs := { s.cs with cdw := 0, status := .errorOutOfDeviceMemory } } s h h
  refine hlink _ (csAddBuffer_ok (hrestore _ _ _ ?_ ?_) _)
  · exact hcreate
  · exact hcreate

lemma csBoCreate_ok (n : ℕ) (create : Option NewBo) : (csBoCreate info s n create).2.cs.buffers.Ok := by
  unfold csBoCreate
  dsimp only
  split
  · exact h
  · split
    · exact h
    · exact h

lemma csGrow_ok (minSize : ℕ) (create : Option NewBo) (mapOk : Bool) :
    (csGrow info s minSize create mapOk).cs.buffers.Ok := by
  obtain ⟨cdw, size, -, hcs⟩ := csClose_cs info s
  have hfin : (csFinalize info s).cs.buffers.Ok := by
    simp only [csFinalize, csAddIbBuffer, hcs]
    exact h
  unfold csGrow
  split_ifs
  · exact h
  · exact growTail_ok (csBoCreate_ok info hfin _ _) _ _ _

lemma csMakeRoom_ok (n : ℕ) (new : NewBo) : (csMakeRoom info s n (some new) true).cs.buffers.Ok := by
  unfold csMakeRoom
  split_ifs
  · exact csGrow_ok info h n (some new) true
  · exact h

lemma csExecuteSecondary_ok (child : Cs) (allowIb2 : Bool) (news : ℕ → NewBo) :
    (csExecuteSecondary info s child allowIb2 news).cs.buffers.Ok := by
  have hadd : ∀ (es : List (ℕ × ℕ)) (l : BufferList), l.Ok →
      (es.foldl (fun l h => csAddBufferInternal l h.1 h.2) l).Ok := by
    intro es
    induction es with
    | nil => exact fun l hl => hl
    | cons e es ih => exact fun l hl => ih _ (hl.add ..)
  have hib2 : ∀ (ibs : List Ib) (news : ℕ → NewBo) (t : St), t.cs.buffers.Ok →
      (emitIb2s info ibs news t).cs.buffers.Ok := by
    intro ibs
    induction ibs with
    | nil => exact fun news t ht => ht
    | cons ib ibs ih => exact fun news t ht => ih _ _ (csMakeRoom_ok info ht 4 _)
  have hcopy : ∀ (ibs : List Ib) (news : ℕ → NewBo) (t : St), t.cs.buffers.Ok →
      (copyIbs info child ibs news t).cs.buffers.Ok := by
    intro ibs
    induction ibs with
    | nil => exact fun news t ht => ht
    | cons ib ibs ih => exact fun news t ht => ih _ _ (csMakeRoom_ok info ht _ _)
  unfold csExecuteSecondary
  dsimp only
  split_ifs
  · exact h
  · exact hib2 _ _ _ (hadd _ _ h)
  · exact hcopy _ _ _ (hadd _ _ h)

lemma csReset_ok : (csReset info s).cs.buffers.Ok := by
  unfold csReset
  refine csAddBuffer_ok ?_ _
  unfold restoreLastIb
  split_ifs
  · split
    · exact h.clear
    · exact h.clear
  · exact h.clear

end

end

/-- The operations that touch the list, and what else happens on the winsys. When the `realloc` of
an add fails the list stays and the stream has an error; a call of
`radv_amdgpu_cs_execute_secondary` in which an allocation fails has added some of the child's
handles, and may have grown the stream. -/
inductive BufferStep (info : Info) (s : St) : St → Prop
  | addBuffer (b : Option BoId) : BufferStep info s (csAddBuffer s b)
  | reallocFails :
      BufferStep info s { s with cs := { s.cs with status := .errorOutOfHostMemory } }
  | executeSecondary (child : Cs) (allowIb2 : Bool) (news : ℕ → NewBo) :
      BufferStep info s (csExecuteSecondary info s child allowIb2 news)
  | addChildBuffer (bo priority : ℕ) : BufferStep info s
      { s with cs := { s.cs with buffers := csAddBufferInternal s.cs.buffers bo priority } }
  | grow (minSize : ℕ) (create : Option NewBo) (mapOk : Bool) :
      BufferStep info s (csGrow info s minSize create mapOk)
  | reset : BufferStep info s (csReset info s)
  | elsewhere (ws : Ws) : BufferStep info s { s with ws }

lemma BufferStep.ok {info : Info} {s t : St} (h : BufferStep info s t) (hs : s.cs.buffers.Ok) :
    t.cs.buffers.Ok := by
  cases h with
  | addBuffer b => exact csAddBuffer_ok hs b
  | reallocFails => exact hs
  | executeSecondary child allowIb2 news => exact csExecuteSecondary_ok info hs child allowIb2 news
  | addChildBuffer bo priority => exact hs.add bo priority
  | grow minSize create mapOk => exact csGrow_ok info hs minSize create mapOk
  | reset => exact csReset_ok info hs
  | elsewhere ws => exact hs

lemma csCreate_ok {info : Info} {ws : Ws} {ip : IpType} {isSecondary : Bool}
    {create : Option NewBo} {mapOk : Bool} {s : St}
    (h : csCreate info ws ip isSecondary create mapOk = some s) : s.cs.buffers.Ok := by
  have hempty : BufferList.Ok ⟨[], fun _ => none⟩ :=
    ⟨nodup_nil, fun _ => iff_of_true rfl (by simp), fun _ _ hb => by cases hb⟩
  simp only [csCreate] at h
  split_ifs at h
  rw [← Option.some.inj h]
  refine csAddBuffer_ok ?_ _
  refine csBoCreate_ok info ?_ _ _
  exact hempty

/-- Whatever was added, executed and reset since a stream was created, `radv_amdgpu_cs_find_buffer`
finds exactly the listed handles, at their index, and no handle is listed twice. -/
theorem findBuffer_of_run {info : Info} {ws : Ws} {ip : IpType} {isSecondary : Bool}
    {create : Option NewBo} {mapOk : Bool} {s0 s : St}
    (hcreate : csCreate info ws ip isSecondary create mapOk = some s0)
    (hrun : Relation.ReflTransGen (BufferStep info) s0 s) :
    (∀ bo i, (csFindBuffer s.cs.buffers bo).1 = some i ↔
        (s.cs.buffers.handles[i]?.map Prod.fst) = some bo) ∧
      (s.cs.buffers.handles.map Prod.fst).Nodup := by
  have hok : s.cs.buffers.Ok := by
    induction hrun with
    | refl => exact csCreate_ok hcreate
    | tail _ hstep ih => exact hstep.ok ih
  refine ⟨fun bo i => ?_, hok.nodup⟩
  rw [(csFindBuffer_spec hok bo).1 i, BufferList.ListedAt, getElem?_map]

/-- Two BOs in one bucket of a new stream. -/
theorem findBuffer_of_run_collision : ∃ s t, exampleStream = some s ∧
    Relation.ReflTransGen (BufferStep exampleInfo) s t ∧
    t.cs.buffers.handles.map Prod.fst = [5, 1029] ∧ (csFindBuffer t.cs.buffers 5).1 = some 0 := by
  obtain ⟨s, hs, hlist⟩ : ∃ s, exampleStream = some s ∧ (csAddBufferInternal
      (csAddBufferInternal s.cs.buffers 5 0) 1029 0).handles.map Prod.fst = [5, 1029] := ⟨_, rfl, rfl⟩
  have hstep : ∀ t bo, BufferStep exampleInfo t _ := fun t bo => .addChildBuffer bo 0
  have hrun := (Relation.ReflTransGen.single (hstep s 5)).tail (hstep _ 1029)
  refine ⟨s, _, hs, hrun, hlist, ((findBuffer_of_run hs hrun).1 5 0).mpr ?_⟩
  rw [← getElem?_map, hlist]
  rfl

end RadvXclipse.RadvAmdgpu
