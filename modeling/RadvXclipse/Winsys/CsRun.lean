import RadvXclipse.Winsys.CsGrow

/-!
# Runs of one stream

One stream is created, recorded, grown, finalized, chained and reset any number of times, with any
outcome of the allocations, while other users of the winsys do as they please with memory that is
not the stream's. As long as every grow meets `GrowOk` the stream stays coherent, and the first
grow that does not meet it breaks the stream.
-/

namespace RadvXclipse.RadvAmdgpu

open Lib Util List Option

/-! ## Giving BOs back -/

variable {ws ws' : Ws} {b : BoId} {s : St} {cs : Cs} {create : Option NewBo} {mapOk : Bool}
  (info : Info)

theorem WsOk.park {used used' : BoId → Prop} {bo : Bo} (h : WsOk ws used) (hbo : ws.bos b = some bo)
    (hb : used b) (hsub : ∀ b', used' b' → used b' ∧ b' ≠ b) :
    WsOk { ws with ibCache := ws.ibCache ++ [(b, bo.size)] } used' := by
  refine ⟨h.va_inj, fun b' hb' => h.used_live b' (hsub b' hb').1, ?_, ?_, ?_⟩
  · rw [map_append, nodup_append]
    refine ⟨h.cache_nodup, by simp, fun x hx y hy => ?_⟩
    rw [map_singleton, mem_singleton] at hy
    obtain ⟨e, he, rfl⟩ := mem_map.mp hx
    rintro heq
    exact h.cache_free e he (by rw [heq, hy]; exact hb)
  · exact forall_mem_append.mpr ⟨h.cache_live, forall_mem_singleton.mpr ⟨bo, hbo, rfl⟩⟩
  · intro e he hused
    rcases mem_append.mp he with he | he
    · exact h.cache_free e he (hsub e.1 hused).1
    · rw [mem_singleton.mp he] at hused
      exact (hsub b hused).2 rfl

variable {b : BoId}

theorem WsOk.destroy {ws : Ws} {used used' : BoId → Prop} (h : WsOk ws used)
    (hb : used b) (hsub : ∀ b', used' b' → used b' ∧ b' ≠ b) :
    WsOk (ws.bufferDestroy (some b)) used' := by
  have hother : ∀ b', b' ≠ b → (ws.bufferDestroy (some b)).bos b' = ws.bos b' :=
    fun b' hb' => Function.update_of_ne hb' ..
  have hsome : ∀ b' bo, (ws.bufferDestroy (some b)).bos b' = some bo → ws.bos b' = some bo := by
    intro b' bo hbo
    by_cases heq : b' = b
    · subst heq
      simp [Ws.bufferDestroy] at hbo
    · rwa [hother b' heq] at hbo
  refine ⟨?_, ?_, h.cache_nodup, ?_, ?_⟩
  · intro b1 b2 bo1 bo2 h1 h2
    exact h.va_inj b1 b2 bo1 bo2 (hsome _ _ h1) (hsome _ _ h2)
  · intro b' hb'
    rw [hother b' (hsub b' hb').2]
    exact h.used_live b' (hsub b' hb').1
  · intro e he
    have hne : e.1 ≠ b := fun heq => h.cache_free e he (heq ▸ hb)
    rw [hother e.1 hne]
    exact h.cache_live e he
  · intro e he hused
    exact h.cache_free e he (hsub e.1 hused).1

/-- Resetting parks or destroys the closed IBs and leaves the rest alone. -/
theorem resetIbs_ok (ibs : List Ib) {keep : List BoId} :
    ∀ ws : Ws, WsOk ws (fun b => b ∈ ibs.map Ib.bo ++ keep) → (ibs.map Ib.bo ++ keep).Nodup →
      WsOk (resetIbs info ibs ws) (fun b => b ∈ keep) ∧
      (∀ b ∈ keep, (resetIbs info ibs ws).bos b = ws.bos b) ∧
      (resetIbs info ibs ws).badStore = ws.badStore ∧
      (resetIbs info ibs ws).badRestore = ws.badRestore := by
  induction ibs with
  | nil =>
    intro ws h _
    exact ⟨h, fun _ _ => rfl, rfl, rfl⟩
  | cons ib rest ih =>
    intro ws h hnodup
    rw [map_cons, cons_append, nodup_cons] at hnodup
    have hb : ib.bo ∈ (ib :: rest).map Ib.bo ++ keep := by simp
    obtain ⟨bo, hbo⟩ := ne_none_iff_exists'.mp (h.used_live ib.bo hb)
    have hsub : ∀ b', b' ∈ rest.map Ib.bo ++ keep → b' ∈ (ib :: rest).map Ib.bo ++ keep ∧ b' ≠ ib.bo := by
      intro b' hb'
      refine ⟨mem_cons_of_mem _ hb', ?_⟩
      rintro rfl
      exact hnodup.1 hb'
    by_cases hpark : info.gfx11ShaderCore = true ∧ ws.ibCache.length < 64
    · have heq : resetIbs info (ib :: rest) ws =
          resetIbs info rest { ws with ibCache := ws.ibCache ++ [(ib.bo, bo.size)] } := by
        simp [resetIbs, ibCachePut, hpark.1, hpark.2, hbo]
      rw [heq]
      exact ih _ (h.park hbo hb hsub) hnodup.2
    · have heq : resetIbs info (ib :: rest) ws = resetIbs info rest (ws.bufferDestroy (some ib.bo)) := by
        have hnone : (if info.gfx11ShaderCore = true then
            ibCachePut ws.ibCache ib.bo (((ws.bos ib.bo).map Bo.size).getD 0) else none) = none := by
          split_ifs with hcore
          · rw [ibCachePut, if_neg fun hlt => hpark ⟨hcore, hlt⟩]
          · rfl
        rw [resetIbs]
        simp only [hnone]
      rw [heq]
      obtain ⟨hok, hkeep, hbad, hbad'⟩ := ih _ (h.destroy hb hsub) hnodup.2
      refine ⟨hok, fun b' hb' => ?_, hbad, hbad'⟩
      rw [hkeep b' hb']
      exact Function.update_of_ne (hsub b' (mem_append_right _ hb')).2 ..

/-! ## The operations keep a stream coherent -/

/-- A reset continues in the IB the stream holds. -/
theorem csReset_recorded (h : Orderly s) (hib : IbOk s.ws s.cs b) (hbuf : s.cs.ibBuffer = some b) :
    Recorded (csReset info s) b := by
  obtain ⟨ws, cs⟩ := s
  simp only at hib hbuf
  have hown : cs.owned = cs.ibBuffers.map Ib.bo ++ [b] := by
    rw [Cs.owned, hbuf]
    rfl
  have hws := h.ws
  have hnodup := h.nodup
  simp only [hown] at hws hnodup
  obtain ⟨hok, hkeep, hbad, hbad'⟩ := resetIbs_ok info cs.ibBuffers ws hws hnodup
  obtain ⟨l, hl⟩ := csAddBuffer_eq ⟨ws, { cs with
    cdw := 0, reservedDw := 0, status := .success,
    buffers := { handles := [], hashTable := fun h =>
      if cs.buffers.handles.any fun e => e.1 % 1024 = h then none
      else cs.buffers.hashTable h } }⟩ (some b)
  obtain ⟨bo, hbo, hsize, hle⟩ := hib.live
  have hreset : csReset info ⟨ws, cs⟩ = ⟨resetIbs info cs.ibBuffers ws, { cs with
      cdw := 0, reservedDw := 0, status := .success, buffers := l, ibBuffers := [],
      ibMcAddress := (resetIbs info cs.ibBuffers ws).boVa (some b), ibSize := 0,
      ibSizePtr := if cs.chainIb then .ibSize else cs.ibSizePtr }⟩ := by
    simp only [csReset, hbuf, isNone_some, Bool.false_eq_true, if_false] at hl ⊢
    rw [hl]
  rw [hreset]
  refine
    { ws := ?_
      nodup := ?_
      badStore := hbad.trans h.badStore
      badRestore := hbad'.trans h.badRestore
      buf := hib.buf
      live := ⟨bo, ?_, hsize, hle⟩
      dvd := hib.dvd
      ip := hib.ip
      ibBuffer := hbuf
      fits := Nat.zero_le _
      ptr := fun hc => ?_ }
  · simp only [Cs.owned, map_nil, nil_append, hbuf, toList_some]
    exact hok
  · simp only [Cs.owned, map_nil, nil_append, hbuf, toList_some]
    simp
  · rw [hkeep b (mem_singleton_self b)]
    exact hbo
  · simp only at hc
    simp [PtrOk, hc]

/-- A coherent stream: recorded or finalized. -/
def Coherent (s : St) : Prop := (∃ b, Recorded s b) ∨ ∃ ib, Closed s ib

variable {s : St}

theorem Coherent.reset (info : Info) (h : Coherent s) : Coherent (csReset info s) := by
  rcases h with ⟨b, hrec⟩ | ⟨ib, hclosed⟩
  · exact Or.inl ⟨b, csReset_recorded info hrec.toOrderly hrec.toIbOk hrec.ibBuffer⟩
  · -- a finalized stream first takes its last IB back
    obtain ⟨ws, cs⟩ := s
    have hbuf := hclosed.ibBuffer
    have hlast := hclosed.last
    simp only at hbuf hlast
    let cs' : Cs := { cs with ibBuffers := cs.ibBuffers.dropLast, ibBuffer := some ib.bo }
    have heq : csReset info ⟨ws, cs⟩ = csReset info ⟨ws, cs'⟩ := by
      simp only [csReset, hbuf, isNone_none, if_true, restoreLastIb, hlast,
        isNone_some, Bool.false_eq_true, if_false, cs']
    have hsplit : cs.ibBuffers = cs.ibBuffers.dropLast ++ [ib] := (dropLast_append_getLast? ib hlast).symm
    have hown : cs'.owned = cs.owned := by
      simp only [Cs.owned, cs', hbuf, toList_some, toList_none, append_nil]
      nth_rewrite 2 [hsplit]
      rw [map_append]
      rfl
    have horder : Orderly ⟨ws, cs'⟩ := hclosed.toOrderly.writes (.refl [] ws) hown
    rw [heq]
    exact Or.inl ⟨ib.bo, csReset_recorded info horder { hclosed.toIbOk with } rfl⟩

theorem Coherent.finalize (info : Info) (h : Recorded s b) : Coherent (csFinalize info s) := by
  obtain ⟨ws', cdw, size, ib, heq, hclosed, -⟩ := csFinalize_recorded info h
  rw [heq]
  exact Or.inr ⟨ib, hclosed⟩

variable {ib : Ib}

/-- A store into the current IB of a finalized stream. -/
theorem Closed.writes {bs : List BoId} (h : Closed ⟨ws, cs⟩ ib) (hw : Ws.Writes bs ws ws')
    {chainedTo : Option CsId} (hchained : cs.chainIb = false → chainedTo = none) :
    Closed ⟨ws', { cs with chainedTo := chainedTo }⟩ ib :=
  { h with
    toOrderly := h.toOrderly.writes hw rfl
    toIbOk := h.toIbOk.writes hw rfl rfl rfl rfl
    chained := hchained }

/-- Chaining and unchaining a stream with `chain_ib` stay inside its last IB. -/
theorem Closed.chain (h : Closed s ib) (next : CsId) (nextCs : Cs)
    (preEna : Bool) : Coherent (csChain s next nextCs preEna).2 := by
  obtain ⟨ws, cs⟩ := s
  cases hchain : cs.chainIb with
  | false =>
    have heq : csChain ⟨ws, cs⟩ next nextCs preEna = (false, ⟨ws, cs⟩) := by
      simp [csChain, hchain]
    rw [heq]
    exact Or.inr ⟨ib, h⟩
  | true =>
    obtain ⟨bo, hbo, hsize, hle⟩ := h.live
    have hfits := h.fits
    have hbuf := h.buf
    simp only at hbo hsize hle hfits hbuf
    have hroom : 4 ≤ cs.cdw := h.room hchain
    have hw := Ws.storeLink_writes hbo hroom (by omega) hle nextCs.ibMcAddress
      (ibChainValid ||| ibPreEnaS preEna ||| nextCs.ibSize)
    have heq : csChain ⟨ws, cs⟩ next nextCs preEna = (true, ⟨ws.storeLink (some ib.bo) cs.cdw
        nextCs.ibMcAddress (ibChainValid ||| ibPreEnaS preEna ||| nextCs.ibSize),
        { cs with chainedTo := some next }⟩) := by
      simp [csChain, hchain, hbuf, Ws.storeLink]
    rw [heq]
    refine Or.inr ⟨ib, h.writes hw fun hfalse => ?_⟩
    rw [hchain] at hfalse
    cases hfalse

theorem Closed.unchain (h : Closed s ib) : Coherent (csUnchain s) := by
  obtain ⟨ws, cs⟩ := s
  cases hto : cs.chainedTo with
  | none =>
    have heq : csUnchain ⟨ws, cs⟩ = ⟨ws, cs⟩ := by simp [csUnchain, hto]
    rw [heq]
    exact Or.inr ⟨ib, h⟩
  | some next =>
    have hchain : cs.chainIb = true := by
      rw [← Bool.not_eq_false]
      intro hfalse
      have hnone := h.chained hfalse
      rw [hto] at hnone
      cases hnone
    obtain ⟨bo, hbo, hsize, hle⟩ := h.live
    have hfits := h.fits
    have hbuf := h.buf
    have hroom : 4 ≤ cs.cdw := h.room hchain
    simp only at hbo hsize hle hfits hbuf
    have hidx : sub32 cs.cdw 4 = cs.cdw - 4 := sub32_of_le hroom (by omega)
    have hw : Ws.Writes [ib.bo] ws (ws.store (some ib.bo) (sub32 cs.cdw 4) (pkt3 pkt3Nop 2 0)) := by
      rw [hidx, Ws.store_live hbo _ _ (by omega)]
      exact Ws.writes_setDw hbo _
    have heq : csUnchain ⟨ws, cs⟩ = ⟨ws.store (some ib.bo) (sub32 cs.cdw 4) (pkt3 pkt3Nop 2 0),
        { cs with chainedTo := none }⟩ := by
      simp [csUnchain, hto, hbuf]
    rw [heq]
    exact Or.inr ⟨ib, h.writes hw fun _ => rfl⟩

/-- Stores of the stream into its own BOs, and a new position in the current IB. -/
theorem Recorded.advance {bs : List BoId} (h : Recorded ⟨ws, cs⟩ b) (hw : Ws.Writes bs ws ws')
    {cdw : ℕ} (hfits : cdw ≤ cs.maxDw) : Recorded ⟨ws', { cs with cdw := cdw }⟩ b :=
  { h with
    toOrderly := h.toOrderly.writes hw rfl
    toIbOk := h.toIbOk.writes hw rfl rfl rfl rfl
    fits := hfits
    ptr := fun hc => (h.ptr hc).writes hw rfl rfl }

/-- Emitting dwords for which there is room. -/
theorem Recorded.emitAll (h : Recorded s b) (values : List (BitVec 32))
    (hroom : s.cs.cdw + values.length ≤ s.cs.maxDw) :
    Recorded (values.foldl radeonEmitUnchecked s) b ∧
      Ws.Writes [b] s.ws (values.foldl radeonEmitUnchecked s).ws ∧
      (values.foldl radeonEmitUnchecked s).cs = { s.cs with cdw := s.cs.cdw + values.length } := by
  obtain ⟨ws, cs⟩ := s
  obtain ⟨bo, hbo, hsize, -⟩ := h.live
  simp only at hbo hsize hroom
  obtain ⟨f, heq, -⟩ := emitAll_setDw ws b bo values bo.dw cs h.buf (by omega)
  rw [Ws.setDw_dw hbo] at heq
  rw [heq]
  exact ⟨h.advance (Ws.writes_setDw hbo f) hroom, Ws.writes_setDw hbo f, rfl⟩

theorem Recorded.emit (h : Recorded s b) (hroom : s.cs.cdw < s.cs.maxDw) (v : BitVec 32) :
    Recorded (radeonEmitUnchecked s v) b := (h.emitAll [v] hroom).1

theorem Recorded.reserve (h : Recorded s b) (n : ℕ) :
    Recorded { s with cs := { s.cs with reservedDw := n } } b :=
  { h with }

/-! ## Runs -/

/-- The operations of one stream, with the outcomes of the allocations they may make. The rounds of
`radv_amdgpu_cs_execute_secondary` are `list`, for the buffers of the child, and then `ib2` or
`copy` for each of its IBs. -/
inductive StreamOp
  | emit (needed : ℕ) (value : BitVec 32) (create : Option NewBo) (mapOk : Bool)
  | grow (minSize : ℕ) (create : Option NewBo) (mapOk : Bool)
  | list (buffers : BufferList) (status : VkResult)
  | ib2 (ib : Ib) (create : Option NewBo) (mapOk : Bool)
  | copy (src : BoId) (n : ℕ) (create : Option NewBo) (mapOk mapped : Bool)
  | dgc (va : BitVec 64) (cdw : ℕ) (trailerVa : BitVec 64) (predicate : Bool) (control : BitVec 32)
      (acquire : List (BitVec 32)) (create : Option NewBo) (mapOk : Bool)
  | finalize
  | reset
  | chain (next : CsId) (nextCs : Cs) (preEna : Bool)
  | unchain
  | other

/-- One operation of the stream, or of somebody else on memory that is not the stream's. An IB of
the child that is copied is still there when the room for it has been made; what is emitted for
generated commands has been checked for by the caller. -/
inductive StreamStep (info : Info) : St → StreamOp → St → Prop
  | emit {s : St} {needed : ℕ} {v : BitVec 32} {create : Option NewBo} {mapOk : Bool} :
      s.cs.ibBuffer ≠ none → 1 ≤ needed → (∀ n ∈ create, s.ws.Fresh n) →
      StreamStep info s (.emit needed v create mapOk)
        (radeonEmitUnchecked (radeonCheckSpace info s needed create mapOk) v)
  | grow {s : St} {minSize : ℕ} {create : Option NewBo} {mapOk : Bool} :
      s.cs.ibBuffer ≠ none → (∀ n ∈ create, s.ws.Fresh n) →
      StreamStep info s (.grow minSize create mapOk) (csGrow info s minSize create mapOk)
  | list {s : St} {l : BufferList} {status : VkResult} :
      status = s.cs.status ∨ status ≠ .success →
      StreamStep info s (.list l status)
        { s with cs := { s.cs with buffers := l, status := status } }
  | ib2 {s : St} {ib : Ib} {create : Option NewBo} {mapOk : Bool} :
      s.cs.ibBuffer ≠ none → (∀ n ∈ create, s.ws.Fresh n) →
      StreamStep info s (.ib2 ib create mapOk) (emitIb2 info s ib create mapOk)
  | copy {s : St} {src : BoId} {n : ℕ} {create : Option NewBo} {mapOk mapped : Bool} :
      s.cs.ibBuffer ≠ none → (∀ n ∈ create, s.ws.Fresh n) →
      (mapped = true → ∃ bo, (csMakeRoom info s n create mapOk).ws.bos src = some bo ∧ 4 * n ≤ bo.size) →
      StreamStep info s (.copy src n create mapOk mapped) (copyIb info s src n create mapOk mapped)
  | dgc {s : St} {va trailerVa : BitVec 64} {cdw : ℕ} {predicate : Bool} {control : BitVec 32}
      {acquire : List (BitVec 32)} {create : Option NewBo} {mapOk : Bool} :
      s.cs.ibBuffer ≠ none → s.cs.cdw + (8 + acquire.length) ≤ s.cs.maxDw →
      (∀ n ∈ create, s.ws.Fresh n) →
      StreamStep info s (.dgc va cdw trailerVa predicate control acquire create mapOk)
        (csChainDgcIb info s va cdw trailerVa predicate control acquire create mapOk)
  | finalize {s : St} : s.cs.ibBuffer ≠ none → StreamStep info s .finalize (csFinalize info s)
  | reset {s : St} : StreamStep info s .reset (csReset info s)
  | chain {s : St} {next : CsId} {nextCs : Cs} {preEna : Bool} : s.cs.ibBuffer = none →
      StreamStep info s (.chain next nextCs preEna) (csChain s next nextCs preEna).2
  | unchain {s : St} : s.cs.ibBuffer = none → StreamStep info s .unchain (csUnchain s)
  | other {s : St} {ws' : Ws} : (∀ b ∈ s.cs.owned, ws'.bos b = s.ws.bos b) →
      WsOk ws' (fun b => b ∈ s.cs.owned) → ws'.badStore = s.ws.badStore →
      ws'.badRestore = s.ws.badRestore → StreamStep info s .other { s with ws := ws' }

/-- If the stream has to grow for `n` dwords that are copied, the grow meets `GrowOk` and the dwords
fit into the largest IB, or into the current one if the stream does not grow any more. -/
def RoomOk (info : Info) (s : St) (n : ℕ) (create : Option NewBo) (mapOk : Bool) : Prop :=
  s.cs.cdw + n > s.cs.maxDw → GrowOk info s n create mapOk ∧
    n ≤ if s.cs.status = .success then maxIbDw info s.cs.hwIp else s.cs.maxDw

/-- The IB that follows generated commands is obtained and mapped, where one is needed. -/
def DgcOk (info : Info) (s : St) (create : Option NewBo) (mapOk : Bool) : Prop :=
  s.cs.status ≠ .success ∨ s.cs.hwIp = .gfx ∨
    mapOk = true ∧ canObtain info s.ws (csGetInitialSize info s.cs.hwIp) create = true

/-- Every grow that the operation makes meets `GrowOk`, and what it copies fits. -/
def GrowsOk (info : Info) (s : St) : StreamOp → Prop
  | .emit needed _ create mapOk =>
    sub32 s.cs.maxDw s.cs.cdw < needed → GrowOk info s needed create mapOk
  | .grow minSize create mapOk => GrowOk info s minSize create mapOk
  | .ib2 _ create mapOk => s.cs.cdw + 4 > s.cs.maxDw → GrowOk info s 4 create mapOk
  | .copy _ n create mapOk _ => RoomOk info s n create mapOk
  | .dgc _ _ _ _ _ _ create mapOk => DgcOk info s create mapOk
  | _ => True

theorem Orderly.frame (h : Orderly s) (hws : WsOk ws' fun b => b ∈ s.cs.owned)
    (hbad : ws'.badStore = s.ws.badStore) (hbad' : ws'.badRestore = s.ws.badRestore) :
    Orderly { s with ws := ws' } :=
  ⟨hws, h.nodup, hbad.trans h.badStore, hbad'.trans h.badRestore⟩

theorem IbOk.frame (h : IbOk ws cs b) (hb : ws'.bos b = ws.bos b) : IbOk ws' cs b :=
  ⟨h.buf, by rw [hb]; exact h.live, h.dvd, h.ip⟩

theorem PtrOk.frame (h : PtrOk ws cs) (hbos : ∀ b ∈ cs.ibBuffers.map Ib.bo, ws'.bos b = ws.bos b) :
    PtrOk ws' cs := by
  rw [PtrOk] at h ⊢
  cases hsp : cs.ibSizePtr with
  | ibSize => trivial
  | dword b idx =>
    rw [hsp] at h
    obtain ⟨hmem, bo, hbo, hidx⟩ := h
    exact ⟨hmem, bo, by rw [hbos b hmem]; exact hbo, hidx⟩

/-- The stream does not notice what others do to memory that it does not own. -/
theorem Coherent.frame (h : Coherent s) (hbos : ∀ b ∈ s.cs.owned, ws'.bos b = s.ws.bos b)
    (hws : WsOk ws' fun b => b ∈ s.cs.owned) (hbad : ws'.badStore = s.ws.badStore)
    (hbad' : ws'.badRestore = s.ws.badRestore) : Coherent { s with ws := ws' } := by
  have hclosedIbs : ∀ b ∈ s.cs.ibBuffers.map Ib.bo, ws'.bos b = s.ws.bos b :=
    fun b hb => hbos b (mem_append_left _ hb)
  rcases h with ⟨b, hrec⟩ | ⟨ib, hclosed⟩
  · have hb : b ∈ s.cs.owned := by
      rw [hrec.owned_eq]
      simp
    exact Or.inl ⟨b,
      { hrec with
        toOrderly := hrec.toOrderly.frame hws hbad hbad'
        toIbOk := hrec.toIbOk.frame (hbos b hb)
        ptr := fun hc => (hrec.ptr hc).frame hclosedIbs }⟩
  · have hb : ib.bo ∈ s.cs.ibBuffers.map Ib.bo :=
      mem_map_of_mem (mem_of_getLast? hclosed.last)
    exact Or.inr ⟨ib,
      { hclosed with
        toOrderly := hclosed.toOrderly.frame hws hbad hbad'
        toIbOk := hclosed.toIbOk.frame (hclosedIbs ib.bo hb) }⟩

theorem Coherent.recorded (h : Coherent s) (hbuf : s.cs.ibBuffer ≠ none) : ∃ b, Recorded s b := by
  rcases h with hrec | ⟨ib, hclosed⟩
  · exact hrec
  · exact absurd hclosed.ibBuffer hbuf

theorem Coherent.closed (h : Coherent s) (hbuf : s.cs.ibBuffer = none) : ∃ ib, Closed s ib := by
  rcases h with ⟨b, hrec⟩ | hclosed
  · rw [hrec.ibBuffer] at hbuf
    cases hbuf
  · exact hclosed

lemma csGrow_cdw (s : St) (minSize : ℕ) (create : Option NewBo) (mapOk : Bool) :
    (csGrow info s minSize create mapOk).cs.cdw = 0 := by
  unfold csGrow
  split_ifs <;> rfl

lemma Recorded.checkSpace (h : Recorded s b) {needed : ℕ} (hneeded : 1 ≤ needed)
    (hfresh : ∀ n ∈ create, s.ws.Fresh n)
    (hok : sub32 s.cs.maxDw s.cs.cdw < needed → GrowOk info s needed create mapOk) :
    ∃ b', Recorded (radeonCheckSpace info s needed create mapOk) b' ∧
      (radeonCheckSpace info s needed create mapOk).cs.cdw <
        (radeonCheckSpace info s needed create mapOk).cs.maxDw := by
  by_cases hspace : sub32 s.cs.maxDw s.cs.cdw < needed
  · obtain ⟨b', hrec⟩ := csGrow_recorded info h hfresh (hok hspace)
    have hcdw := csGrow_cdw info s needed create mapOk
    have hdvd := hrec.dvd
    simp only [radeonCheckSpace, if_pos hspace]
    refine ⟨b', hrec.reserve _, ?_⟩
    omega
  · have hfits := h.fits
    obtain ⟨bo, -, hsize, hle⟩ := h.live
    have hsub : sub32 s.cs.maxDw s.cs.cdw = s.cs.maxDw - s.cs.cdw := sub32_of_le hfits (by omega)
    simp only [radeonCheckSpace, if_neg hspace]
    exact ⟨b, h.reserve _, by omega⟩

section

variable (h : Recorded s b) (hfresh : ∀ n ∈ create, s.ws.Fresh n)
include h hfresh

lemma Recorded.makeRoom {n : ℕ} (hok : RoomOk info s n create mapOk) :
    ∃ b', Recorded (csMakeRoom info s n create mapOk) b' ∧
      (csMakeRoom info s n create mapOk).cs.cdw + n ≤ (csMakeRoom info s n create mapOk).cs.maxDw := by
  by_cases hgrow : s.cs.cdw + n > s.cs.maxDw
  · obtain ⟨hgrowOk, hn⟩ := hok hgrow
    obtain ⟨b', hrec⟩ := csGrow_recorded info h hfresh hgrowOk
    have hcdw := csGrow_cdw info s n create mapOk
    have hmax : n ≤ (csGrow info s n create mapOk).cs.maxDw := by
      split_ifs at hn with hstatus
      · rw [csGrow_maxDw info n hstatus]
        exact (growIbSize_room info s.cs n).2.1 hn
      · rw [csGrow, if_pos hstatus]
        exact hn
    simp only [csMakeRoom, if_pos hgrow]
    exact ⟨b', hrec.reserve _, by omega⟩
  · simp only [csMakeRoom, if_neg hgrow]
    exact ⟨b, h.reserve _, by omega⟩

lemma Recorded.emitIb2 (ib : Ib) (hok : s.cs.cdw + 4 > s.cs.maxDw → GrowOk info s 4 create mapOk) :
    ∃ b', Recorded (emitIb2 info s ib create mapOk) b' := by
  have hdvd := h.dvd
  have hmax := le_maxIbDw info s.cs.hwIp
  have hroomOk : RoomOk info s 4 create mapOk := by
    intro hgrow
    refine ⟨hok hgrow, ?_⟩
    split_ifs <;> omega
  obtain ⟨b', hrec, hroom⟩ := h.makeRoom info hfresh hroomOk
  exact ⟨b', (hrec.emitAll [_, _, _, _] hroom).1⟩

/-- A copy for which there is room, or whose source cannot be mapped. -/
theorem Recorded.copyIb {src : BoId} {n : ℕ} {mapped : Bool} (hok : RoomOk info s n create mapOk)
    (hsrc : mapped = true → ∃ bo, (csMakeRoom info s n create mapOk).ws.bos src = some bo ∧
      4 * n ≤ bo.size) : ∃ b', Recorded (copyIb info s src n create mapOk mapped) b' := by
  obtain ⟨b', hrec, hroom⟩ := h.makeRoom info hfresh hok
  refine ⟨b', ?_⟩
  unfold RadvAmdgpu.copyIb
  obtain ⟨⟨ws', cs'⟩, ht⟩ : ∃ t, csMakeRoom info s n create mapOk = t := ⟨_, rfl⟩
  rw [ht] at hrec hroom hsrc ⊢
  cases mapped with
  | false => exact { hrec with }
  | true =>
    obtain ⟨from_, hfrom, hread⟩ := hsrc rfl
    obtain ⟨bo, hbo, hsize, -⟩ := hrec.live
    simp only at hbo hsize hroom hfrom
    have hcopy := Ws.memcpy_setDw hbo hfrom (show 4 * (cs'.cdw + n) ≤ bo.size by omega) hread
    rw [← show cs'.buf = some b' from hrec.buf] at hcopy
    simp only [if_true, hcopy]
    exact hrec.advance (Ws.writes_setDw hbo _) hroom

/-- Generated commands: the IB is closed behind the packet that chains back, and the stream goes on
in a new one. -/
theorem Recorded.chainDgcIb {va trailerVa : BitVec 64} {cdw : ℕ} {predicate : Bool}
    {control : BitVec 32} {acquire : List (BitVec 32)}
    (hroom : s.cs.cdw + (8 + acquire.length) ≤ s.cs.maxDw) (hok : DgcOk info s create mapOk) :
    ∃ b', Recorded (csChainDgcIb info s va cdw trailerVa predicate control acquire create mapOk) b' := by
  by_cases hstatus : s.cs.status = .success
  case neg =>
    rw [csChainDgcIb, if_pos hstatus]
    exact ⟨b, h⟩
  by_cases hgfx : s.cs.hwIp = .gfx
  case pos =>
    rw [csChainDgcIb, if_neg (not_not.mpr hstatus), if_pos hgfx]
    exact ⟨b, (h.emitAll [_, _, _, _] (by simp only [length_cons, length_nil]; omega)).1⟩
  obtain ⟨rfl, hcan⟩ := (hok.resolve_left (not_not.mpr hstatus)).resolve_left hgfx
  -- the packets and the end of the IB
  obtain ⟨s1, hs1⟩ : ∃ t, emitCpWriteData s control trailerVa
    [pkt3 pkt3IndirectBuffer 2 0, 0, 0, ibChainValid] = t := ⟨_, rfl⟩
  obtain ⟨hrec1, hw1, hcs1⟩ : Recorded s1 b ∧ Ws.Writes [b] s.ws s1.ws ∧
      s1.cs = { s.cs with cdw := s.cs.cdw + 8 } :=
    hs1 ▸ h.emitAll [_, _, _, _, _, _, _, _] (by simp only [length_cons, length_nil]; omega)
  obtain ⟨hrec2, hw2, hcs2⟩ := hrec1.emitAll acquire (by simp only [hcs1]; omega)
  obtain ⟨ws3, cdw3, size, ib, heq3, hclosed, rfl, hlow, hw3⟩ := csFinalize_recorded info hrec2
  rw [hcs2, hcs1] at hlow heq3 hclosed
  obtain ⟨cs3, hcs3, hmax, hip, hcdw⟩ : ∃ cs,
    Cs.finalized { s.cs with cdw := s.cs.cdw + 8 + acquire.length } cdw3 size ib = cs ∧
    cs.maxDw = s.cs.maxDw ∧ cs.hwIp = s.cs.hwIp ∧ cs.cdw = cdw3 := ⟨_, rfl, rfl, rfl, rfl⟩
  rw [hcs3] at heq3 hclosed
  obtain ⟨bo3, hbo3, hsize3, hle3⟩ := hclosed.live
  have hfits := hclosed.fits
  simp only at hlow hbo3 hsize3 hfits
  have hw4 := Ws.storeLink_writes hbo3 (show 4 ≤ cs3.cdw by omega) (by omega) hle3 va
    (ibChainValid ||| BitVec.ofNat 32 cdw)
  have hclosed4 := hclosed.writes hw4 hclosed.chained
  obtain ⟨ws4, hws4⟩ : ∃ ws, ws3.storeLink (some ib.bo) cs3.cdw va
    (ibChainValid ||| BitVec.ofNat 32 cdw) = ws := ⟨_, rfl⟩
  rw [hws4] at hw4 hclosed4
  -- the next IB
  have hcan4 : canObtain info ws4 (csGetInitialSize info cs3.hwIp) create = true := by
    rw [canObtain, hw4.ibCache, hw3.ibCache, hw2.ibCache, hw1.ibCache, hip]
    exact hcan
  obtain ⟨ws5, b', heq5, hacq, hbad, hbad'⟩ := csBoCreate_obtains info cs3 _ hclosed4.ws
    (fun n hn => ((((hfresh n hn).writes hw1).writes hw2).writes hw3).writes hw4) hcan4
  obtain ⟨bo5, hbo5, hsize5⟩ := hacq.live
  obtain ⟨bo4, hbo4, hsize4, hle4⟩ := (hclosed4.ibOk_acquired hacq).live
  simp only at hsize4
  obtain ⟨hdw, hdvd, -⟩ := (csGetInitialSize_ibBytes info cs3.hwIp).dwords
  have hbytes := (csGetInitialSize_ibBytes info cs3.hwIp).le
  obtain ⟨l, hl⟩ := csAddBuffer_eq ⟨ws5, { cs3 with ibBuffer := some b', ibMapped := some b' }⟩ (some b')
  have hsub : ∀ k, k ≤ 3 → sub32 (s.cs.cdw + 8) k = s.cs.cdw + 8 - k := fun k hk =>
    sub32_of_le (by omega) (by omega)
  obtain ⟨ws6, hws6⟩ : ∃ ws, (ws5.store (some ib.bo) (s.cs.cdw + 8 - 3)
    ((ws5.boVa (some b')).setWidth 32)).store (some ib.bo) (s.cs.cdw + 8 - 2)
      ((ws5.boVa (some b') >>> 32).setWidth 32) = ws := ⟨_, rfl⟩
  have hw6 : Ws.Writes [ib.bo] ws5 ws6 := by
    rw [← hws6, Ws.store_live hbo4 _ _ (by omega), Ws.setDw_store _ _ _ _ _ (by omega)]
    exact Ws.writes_setDw hbo4 _
  have hcode : csChainDgcIb info s va cdw trailerVa predicate control acquire create true =
      ⟨ws6, { cs3 with
        ibBuffer := some b', ibMapped := some b', buffers := l, buf := some b', cdw := 0,
        reservedDw := 0, maxDw := csGetInitialSize info cs3.hwIp / 4 - 4,
        ibSizePtr := .dword ib.bo (s.cs.cdw + 8 - 1) }⟩ := by
    have hbuf1 : s.cs.buf = some ib.bo := h.buf
    rw [← show cs3.buf = some ib.bo from hclosed.buf] at hws4
    rw [csChainDgcIb, if_neg (not_not.mpr hstatus), if_neg hgfx]
    simp only [hs1, heq3, hws4, heq5, ne_eq, not_true_eq_false, if_false, if_true,
      isNone_some, Bool.false_eq_true, hl, hcs1, hbuf1, getD_some,
      hsub 3 (by decide), hsub 2 (by decide), hsub 1 (by decide), hws6]
  rw [hcode]
  obtain ⟨bo6, hbo6, -, hsize6⟩ := hw6.live hbo5
  obtain ⟨bo7, hbo7, -, hsize7⟩ := hw6.live hbo4
  refine ⟨b', hclosed4.resume hacq hbad hbad' hw6 ?_ rfl rfl rfl fun _ => ?_⟩
  · exact ⟨rfl, ⟨bo6, hbo6, by simp only; omega, by omega⟩, hdvd, hclosed.ip⟩
  · exact ⟨mem_map_of_mem (mem_of_getLast? hclosed.last), bo7, hbo7, by omega⟩

end

/-- A step whose grows meet `GrowOk` keeps the stream coherent. -/
theorem StreamStep.coherent {info : Info} {s' : St} {a : StreamOp} (h : Coherent s)
    (hok : GrowsOk info s a) (hstep : StreamStep info s a s') : Coherent s' := by
  cases hstep with
  | emit hbuf hneeded hfresh =>
    obtain ⟨b, hrec⟩ := h.recorded hbuf
    obtain ⟨b', hrec', hroom⟩ := hrec.checkSpace info hneeded hfresh hok
    exact Or.inl ⟨b', hrec'.emit hroom _⟩
  | grow hbuf hfresh =>
    obtain ⟨b, hrec⟩ := h.recorded hbuf
    exact Or.inl (csGrow_recorded info hrec hfresh hok)
  | list =>
    rcases h with ⟨b, hrec⟩ | ⟨ib, hclosed⟩
    · exact Or.inl ⟨b, { hrec with }⟩
    · exact Or.inr ⟨ib, { hclosed with }⟩
  | ib2 hbuf hfresh =>
    obtain ⟨b, hrec⟩ := h.recorded hbuf
    exact Or.inl (hrec.emitIb2 info hfresh _ hok)
  | copy hbuf hfresh hsrc =>
    obtain ⟨b, hrec⟩ := h.recorded hbuf
    exact Or.inl (hrec.copyIb info hfresh hok hsrc)
  | dgc hbuf hroom hfresh =>
    obtain ⟨b, hrec⟩ := h.recorded hbuf
    exact Or.inl (hrec.chainDgcIb info hfresh hroom hok)
  | finalize hbuf =>
    obtain ⟨b, hrec⟩ := h.recorded hbuf
    exact Coherent.finalize info hrec
  | reset => exact h.reset info
  | chain hbuf =>
    obtain ⟨ib, hclosed⟩ := h.closed hbuf
    exact hclosed.chain ..
  | unchain hbuf =>
    obtain ⟨ib, hclosed⟩ := h.closed hbuf
    exact hclosed.unchain
  | other hbos hws hbad hbad' => exact h.frame hbos hws hbad hbad'

/-- A new stream is coherent. -/
theorem csCreate_recorded {ip : IpType} {isSecondary : Bool} (hws : WsOk ws fun _ => False)
    (hbad : ws.badStore = false) (hbad' : ws.badRestore = false) (hfresh : ∀ n ∈ create, ws.Fresh n)
    (h : csCreate info ws ip isSecondary create mapOk = some s) : ∃ b, Recorded s b := by
  obtain ⟨ws', b, bo, l, hacq, hbo, hsize, hstore, hrestore, rfl⟩ := csCreate_eq info hws hfresh h
  have hbytes := csGetInitialSize_ibBytes info ip
  have hle := hbytes.le
  obtain ⟨hdw, hdvd, -⟩ := hbytes.dwords
  have hused : (fun b' => b' ∈ (Cs.initial info ip isSecondary b bo.va l).owned) = fun b' => False ∨
      b' = b := by
    funext b'
    simp [Cs.owned, Cs.initial]
  refine ⟨b, ?_⟩
  exact
    { ws := by rw [hused]; exact hacq.ok
      nodup := by simp [Cs.owned, Cs.initial]
      badStore := hstore.trans hbad
      badRestore := hrestore.trans hbad'
      buf := rfl
      live := ⟨bo, hbo, by rw [hsize]; exact hdw.ge, by omega⟩
      dvd := hdvd
      ip := by
        intro hchain
        simp only [Cs.initial, Bool.and_eq_true, Bool.or_eq_true, decide_eq_true_eq] at hchain
        exact hchain.1.2
      ibBuffer := rfl
      fits := Nat.zero_le _
      ptr := fun _ => trivial }

section FromCreation

variable {info : Info} {ws0 : Ws} {ip : IpType} {isSecondary : Bool}
  {create0 : Option NewBo} {mapOk0 : Bool} {s0 s : St} {ops : List StreamOp}
  (hws : WsOk ws0 fun _ => False) (hbad : ws0.badStore = false) (hbad' : ws0.badRestore = false)
  (hfresh0 : ∀ n ∈ create0, ws0.Fresh n)
  (hcreate : csCreate info ws0 ip isSecondary create0 mapOk0 = some s0)
  (hrun : Run (only (GrowsOk info) (StreamStep info)) s0 ops s)
include hws hbad hbad' hfresh0 hcreate hrun

/-- A stream stays coherent as long as every grow meets `GrowOk`. -/
theorem Coherent.of_run : Coherent s := by
  refine hrun.invariant (I := fun _ s => Coherent s) ?_ ?_
  · exact Or.inl (csCreate_recorded info hws hbad hbad' hfresh0 hcreate)
  · intro _ s a s' h hstep
    exact hstep.2.coherent h hstep.1

end FromCreation

/-- The stream that `csGrow` is tried on. -/
def exampleStream : Option St := csCreate exampleInfo emptyWs .gfx false (some (exampleNewBo 0)) true

lemma exampleFirst_fresh : ∀ n ∈ some (exampleNewBo 1), exampleFirst.ws.Fresh n := fun _ hn =>
  Option.some.inj hn ▸ Ws.fresh_of_boVa 1 (fun _ => rfl) rfl (by decide)

lemma exampleNewBo_fresh : ∀ n ∈ some (exampleNewBo 0), emptyWs.Fresh n := fun _ hn =>
  Option.some.inj hn ▸ Ws.fresh_of_boVa 0 (fun _ => rfl) rfl (by decide)

/-- The second stream after it has copied 1024 dwords of the first one. -/
def exampleCopied : St := copyIb exampleInfo exampleSecond 0 1024 none true true

end RadvXclipse.RadvAmdgpu
