import RadvXclipse.Winsys.CsWalk

/-!
# Streams recording side by side

The system is a winsys and any number of streams on it. Its steps are the operations of
`radv_amdgpu_cs.c` that succeed, on any stream in any order; `other` stands for the rest of the
driver, which may do anything to memory that these streams do not own.
-/

namespace RadvXclipse.RadvAmdgpu

open Lib Util List Function

/-! ## Ownership -/

/-- The BOs a stream holds: its closed IBs and the one it records into. -/
def Cs.owned (cs : Cs) : List BoId := cs.ibBuffers.map Ib.bo ++ cs.ibBuffer.toList

lemma map_ib_bo (l : List Part) : (l.map Part.ib).map Ib.bo = l.map Part.bo := by
  rw [map_map]
  rfl

variable {ws : Ws} {cs : Cs} {va : BitVec 64}

lemma Recording.owned_eq {closed : List Part} {b : BoId}
    {cur : List (BitVec 32)} (h : Recording ws cs closed b va cur) :
    cs.owned = (b :: closed.map Part.bo).reverse := by
  rw [Cs.owned, h.ibs, h.ibBuffer, map_ib_bo, map_reverse, reverse_cons]
  rfl

lemma Finalized.owned_eq {x : Part} {rest : List Part}
    {tail : List (BitVec 32)} (h : Finalized ws cs x rest tail) :
    cs.owned = ((x :: rest).map Part.bo).reverse := by
  rw [Cs.owned, h.ibs, h.ibBuffer, map_ib_bo, map_reverse]
  simp

lemma Ws.Fresh.of_shape {ws' : Ws} {n : NewBo} (h : ws.Fresh n)
    (hshape : ∀ b, (ws'.bos b).map (fun bo => (bo.va, bo.size)) =
      (ws.bos b).map fun bo => (bo.va, bo.size)) : ws'.Fresh n := by
  constructor
  · have hs := hshape n.id
    rw [h.1] at hs
    exact Option.map_eq_none_iff.mp hs
  · intro b bo' hb
    obtain ⟨bo, hbo, hva, -⟩ := exists_of_shape (hshape b).symm hb
    rw [← hva]
    exact h.2 b bo hbo

theorem Ws.Fresh.writes {ws' : Ws} {n : NewBo} {bs : List BoId} (h : ws.Fresh n)
    (hw : Ws.Writes bs ws ws') : ws'.Fresh n :=
  h.of_shape hw.shape

/-! ## Growing and emitting on a shared winsys -/

section Stream

variable {used : BoId → Prop} {ws : Ws} {cs : Cs} {closed : List Part} {b : BoId} {va : BitVec 64}
  {cur : List (BitVec 32)}

/-- What was emitted into the closed IBs. -/
def chunks (closed : List Part) : List (BitVec 32) := (closed.reverse.map Part.chunk).flatten

lemma chunks_cons (x : Part) (rest : List Part) : chunks (x :: rest) = chunks rest ++ x.chunk := by
  simp [chunks]

lemma Recording.advance (h : Recording ws cs closed b va cur) (hok : WsOk ws used)
    (hused : ∀ b' ∈ cs.owned, used b') {ws' : Ws}
    (hw : Ws.Writes (b :: closed.map Part.bo) ws ws') : Advance used ws cs.owned ws' cs.owned := by
  refine (Advance.refl hok hused).writes (hw.mono ?_)
  rw [h.owned_eq]
  exact fun _ hb => mem_reverse.mpr hb

section

variable {n : NewBo} {ip : IpType} {isSecondary : Bool} {t : St} (info : Info)

/-- A grow goes on in a BO that was not used before. -/
theorem csGrow_obtains (minSize : ℕ) {ws1 : Ws} {cs1 : Cs} {parts : List Part}
    (hstatus : cs.status = .success) (heq : csFinalize info ⟨ws, cs⟩ = ⟨ws1, cs1⟩)
    (hadv : Advance used ws cs.owned ws1 cs.owned) (hown : cs.owned = (parts.map Part.bo).reverse)
    (hfresh : ws1.Fresh n) :
    ∃ ws2 b' bo, csGrow info ⟨ws, cs⟩ minSize (some n) true =
        growTail (growIbSize info cs1 minSize) .success true ⟨ws2, { cs1 with ibBuffer := some b' }⟩ ∧
      Acquired (fun b => used b ∨ b ∈ cs.owned) ws1 ws2 b' (growIbSize info cs1 minSize) ∧
      ws2.bos b' = some bo ∧ bo.size = growIbSize info cs1 minSize ∧ ws2.badStore = ws1.badStore ∧
      ∀ b'' ∈ parts.map Part.bo, b'' ≠ b' := by
  obtain ⟨ws2, b', heq2, hacq, hbad, -⟩ :=
    csBoCreate_obtains info cs1 _ hadv.ok (fun m hm => Option.some.inj hm ▸ hfresh) (canObtain_some ..)
  obtain ⟨bo, hbo, hsize⟩ := hacq.live
  refine ⟨ws2, b', bo, ?_, hacq, hbo, hsize, hbad, ?_⟩
  · simp only [csGrow, hstatus, ne_eq, not_true_eq_false, if_false, heq, heq2]
  · rintro b'' hb'' rfl
    exact hacq.unused (.inr (hown ▸ mem_reverse.mpr hb''))

/-- A grow that succeeds closes the current IB and continues in a new one, all stores in bounds. -/
theorem csGrow_recording (minSize : ℕ) (h : Recording ws cs closed b va cur) (hok : WsOk ws used)
    (hused : ∀ b' ∈ cs.owned, used b') (hfresh : ws.Fresh n) :
    ∃ ws' cs' pad b' va', csGrow info ⟨ws, cs⟩ minSize (some n) true = ⟨ws', cs'⟩ ∧
      Recording ws' cs' (⟨b, va, cur, pad⟩ :: closed) b' va' [] ∧
      Advance used ws cs.owned ws' cs'.owned ∧ ws'.badStore = ws.badStore := by
  obtain ⟨ws1, cs1, pad, body, heq1, -, hfin, hw1, -⟩ := csFinalize_recording info h
  have hadv1 := h.advance hok hused hw1
  have hown1 : cs1.owned = cs.owned := by
    rw [hfin.owned_eq, h.owned_eq]
    rfl
  have hdvd := hfin.stream.dvd
  have hle := hfin.stream.le
  have hbytes := growIbSize_ibBytes info cs1 minSize (by omega) (by omega)
  obtain ⟨ws2, b', bo, heq2, hacq, hbo, hsize, hbad2, hnew⟩ :=
    csGrow_obtains info minSize h.stream.status heq1 hadv1 (hown1 ▸ hfin.owned_eq) (hfresh.writes hw1)
  have hfin2 : Finalized ws2 cs1 ⟨b, va, cur, pad⟩ closed (pkt3 pkt3Nop 2 0 :: body) :=
    hfin.frame fun b'' hb'' => hacq.frame b'' (hnew b'' hb'')
  obtain ⟨ws3, cs3, heq3, hrec, hw3⟩ :=
    growTail_finalized hfin2 hbytes (fun hmem => hnew b' hmem rfl) hbo hsize
  have hown3 : cs3.owned = cs.owned ++ [b'] := by
    rw [hrec.owned_eq, ← hown1, hfin.owned_eq, reverse_cons]
  refine ⟨ws3, cs3, pad, b', bo.va, heq2.trans heq3, hrec, ?_, ?_⟩
  · rw [hown3]
    refine (hadv1.acquire hacq).writes (hw3.mono ?_)
    intro b'' hb''
    rw [mem_singleton] at hb''
    rw [hb'', h.owned_eq]
    simp
  · rw [hw3.badStore, hbad2, hw1.badStore]

/-- After the space check there is room for one dword. -/
theorem radeonCheckSpace_recording {needed : ℕ} (h : Recording ws cs closed b va cur)
    (hok : WsOk ws used) (hused : ∀ b' ∈ cs.owned, used b') (hfresh : ws.Fresh n)
    (hneeded : 1 ≤ needed) :
    ∃ ws' cs' closed' b' va' cur',
      radeonCheckSpace info ⟨ws, cs⟩ needed (some n) true = ⟨ws', cs'⟩ ∧
      Recording ws' cs' closed' b' va' cur' ∧ cur'.length < cs'.maxDw ∧
      chunks closed' ++ cur' = chunks closed ++ cur ∧ Advance used ws cs.owned ws' cs'.owned := by
  have hcdw := h.cdw
  have hfits := h.fits
  have hle := h.stream.le
  have hsub : sub32 cs.maxDw cs.cdw = cs.maxDw - cs.cdw := sub32_of_le (by omega) (by omega)
  by_cases hspace : sub32 cs.maxDw cs.cdw < needed
  · obtain ⟨ws', cs', pad, b', va', heq, hrec, hadv, -⟩ :=
      csGrow_recording info needed h hok hused hfresh
    have hdvd := hrec.stream.dvd
    refine ⟨ws', { cs' with reservedDw := max cs'.reservedDw ((cs'.cdw + needed) % 2 ^ 32) }, _, b',
      va', [], ?_, { hrec with stream := { hrec.stream with } }, ?_, ?_, hadv⟩
    · simp only [radeonCheckSpace, if_pos hspace, heq]
    · simp only [length_nil]
      omega
    · rw [chunks_cons, append_nil]
  · refine ⟨ws, { cs with reservedDw := max cs.reservedDw ((cs.cdw + needed) % 2 ^ 32) }, closed, b,
      va, cur, ?_, { h with stream := { h.stream with } }, ?_, rfl, .refl hok hused⟩
    · simp only [radeonCheckSpace, if_neg hspace]
    · simp only
      omega

/-- A new stream, recording into BO `b`. -/
def Cs.initial (info : Info) (ip : IpType) (isSecondary : Bool) (b : BoId) (va : BitVec 64)
    (buffers : BufferList) : Cs :=
  { cdw := 0, maxDw := csGetInitialSize info ip / 4 - 4, reservedDw := 0, buf := some b,
    ibMcAddress := va, ibSize := 0, ibBuffer := some b, ibMapped := some b, ibBuffers := [],
    ibSizePtr := .ibSize, status := .success, chainedTo := none,
    chainIb := info.chainIb && (ip = .gfx || ip = .compute) && !(isSecondary && !info.canChainIb2),
    isSecondary := isSecondary, hwIp := ip, buffers := buffers }

lemma csCreate_eq {create : Option NewBo} {mapOk : Bool} (hok : WsOk ws used)
    (hfresh : ∀ n ∈ create, ws.Fresh n) (h : csCreate info ws ip isSecondary create mapOk = some t) :
    ∃ ws' b bo l, Acquired used ws ws' b (csGetInitialSize info ip) ∧ ws'.bos b = some bo ∧
      bo.size = csGetInitialSize info ip ∧ ws'.badStore = ws.badStore ∧
      ws'.badRestore = ws.badRestore ∧ t = ⟨ws', Cs.initial info ip isSecondary b bo.va l⟩ := by
  simp only [csCreate] at h
  cases hcan : canObtain info ws _ create with
  | false =>
    rw [csBoCreate_fails info ws _ _ hcan] at h
    simp at h
  | true =>
    obtain ⟨ws', b, heq, hacq, hbad, hbad'⟩ := csBoCreate_obtains info _ _ hok hfresh hcan
    rw [heq] at h
    obtain ⟨bo, hbo, hsize⟩ := hacq.live
    have hva : ws'.boVa (some b) = bo.va := by simp [Ws.boVa, hbo]
    cases mapOk with
    | false => simp at h
    | true =>
      simp only [ne_eq, not_true_eq_false, if_false, Bool.not_true, Bool.false_eq_true, hva,
        Option.some.injEq] at h
      obtain ⟨l, hl⟩ :=
        csAddBuffer_eq ⟨ws', Cs.initial info ip isSecondary b bo.va ⟨[], fun _ => none⟩⟩ (some b)
      exact ⟨ws', b, bo, l, hacq, hbo, hsize, hbad, hbad', h.symm.trans hl⟩

section Initial

variable {bo : Bo} {l : BufferList} (hbo : ws.bos b = some bo)
  (hsize : bo.size = csGetInitialSize info ip) (hip : ip = .gfx ∨ ip = .compute)
include hbo hsize hip

lemma Filling.initial {chain : Bool}
    (hchain : (Cs.initial info ip isSecondary b bo.va l).chainIb = chain) :
    Filling chain ws (Cs.initial info ip isSecondary b bo.va l) [] b bo.va [] := by
  obtain ⟨hdw, hdvd, hle⟩ := (csGetInitialSize_ibBytes info ip).dwords
  exact ⟨⟨hchain, hip, rfl, hdvd, hle⟩, rfl, rfl, rfl, ⟨bo, hbo, rfl, hsize.trans hdw, .nil _⟩, by simp⟩

theorem Recording.initial (hchain : (Cs.initial info ip isSecondary b bo.va l).chainIb = true) :
    Recording ws (Cs.initial info ip isSecondary b bo.va l) [] b bo.va [] :=
  { Filling.initial info hbo hsize hip hchain with
    fits := Nat.zero_le _, links := trivial, ptr := rfl, ibs := rfl, addr := rfl, size := rfl }

end Initial

/-- A stream that was just created records into its first IB. -/
theorem csCreate_recording (hok : WsOk ws used) (hfresh : ws.Fresh n)
    (h : csCreate info ws ip isSecondary (some n) true = some t) (hchain : t.cs.chainIb = true) :
    ∃ b va, Recording t.ws t.cs [] b va [] ∧ Advance used ws [] t.ws t.cs.owned := by
  obtain ⟨ws', b, bo, l, hacq, hbo, hsize, -, -, rfl⟩ :=
    csCreate_eq info hok (fun m hm => Option.some.inj hm ▸ hfresh) h
  have hip : ip = .gfx ∨ ip = .compute := by
    simp only [Cs.initial, Bool.and_eq_true, Bool.or_eq_true, decide_eq_true_eq] at hchain
    exact hchain.1.2
  have hnil : Advance used ws [] ws [] := .refl hok (by simp)
  have hacq' : Acquired (fun b' => used b' ∨ b' ∈ []) ws ws' b (csGetInitialSize info ip) := by
    simpa using hacq
  exact ⟨b, bo.va, .initial info hbo hsize hip hchain,
    by simpa [Cs.owned, Cs.initial] using hnil.acquire hacq'⟩

end

end Stream

/-! ## The system -/

/-- A winsys and the streams created on it. -/
structure Sys where
  ws : Ws
  cs : CsId → Option Cs

/-- The recording operations. -/
inductive Op
  | create (c : CsId) (ip : IpType) (isSecondary : Bool) (new : NewBo)
  | emit (c : CsId) (needed : ℕ) (value : BitVec 32) (new : NewBo)
  | grow (c : CsId) (minSize : ℕ) (new : NewBo)
  | finalize (c : CsId)
  | chain (c next : CsId) (preEna : Bool)
  | unchain (c : CsId)
  | other

/-- The BOs that the streams hold. -/
def Sys.used (s : Sys) (b : BoId) : Prop := ∃ c cs, s.cs c = some cs ∧ b ∈ cs.owned

/-- The system after an operation of stream `c`. -/
def Sys.put (s : Sys) (c : CsId) (t : St) : Sys :=
  { ws := t.ws, cs := update s.cs c (some t.cs) }

/-- One operation. A stream is recorded as long as it has an `ib_buffer`; every emit is preceded
by a space check for at least the dword that is emitted. -/
inductive Step (info : Info) : Sys → Op → Sys → Prop
  | create {s : Sys} {c : CsId} {ip : IpType} {isSecondary : Bool} {n : NewBo} {t : St} :
      s.cs c = none → s.ws.Fresh n → csCreate info s.ws ip isSecondary (some n) true = some t →
      t.cs.chainIb = true → Step info s (.create c ip isSecondary n) (s.put c t)
  | emit {s : Sys} {c : CsId} {cs : Cs} {needed : ℕ} {v : BitVec 32} {n : NewBo} :
      s.cs c = some cs → cs.ibBuffer ≠ none → 1 ≤ needed → s.ws.Fresh n →
      Step info s (.emit c needed v n) (s.put c
        (radeonEmitUnchecked (radeonCheckSpace info ⟨s.ws, cs⟩ needed (some n) true) v))
  | grow {s : Sys} {c : CsId} {cs : Cs} {minSize : ℕ} {n : NewBo} :
      s.cs c = some cs → cs.ibBuffer ≠ none → s.ws.Fresh n →
      Step info s (.grow c minSize n) (s.put c (csGrow info ⟨s.ws, cs⟩ minSize (some n) true))
  | finalize {s : Sys} {c : CsId} {cs : Cs} :
      s.cs c = some cs → cs.ibBuffer ≠ none →
      Step info s (.finalize c) (s.put c (csFinalize info ⟨s.ws, cs⟩))
  | chain {s : Sys} {c next : CsId} {cs nextCs : Cs} {preEna : Bool} :
      s.cs c = some cs → cs.ibBuffer = none → s.cs next = some nextCs → nextCs.ibBuffer = none →
      Step info s (.chain c next preEna) (s.put c (csChain ⟨s.ws, cs⟩ next nextCs preEna).2)
  | unchain {s : Sys} {c : CsId} {cs : Cs} :
      s.cs c = some cs → cs.ibBuffer = none →
      Step info s (.unchain c) (s.put c (csUnchain ⟨s.ws, cs⟩))
  | other {s : Sys} {ws' : Ws} :
      (∀ b, s.used b → ws'.bos b = s.ws.bos b) → WsOk ws' s.used →
      Step info s .other { s with ws := ws' }

/-- The dwords an operation emits into stream `c`. -/
def Op.emits (c : CsId) : Op → List (BitVec 32)
  | .emit c' _ v _ => if c' = c then [v] else []
  | _ => []

/-- The dwords emitted into stream `c`, in order. -/
def emittedBy (c : CsId) (ops : List Op) : List (BitVec 32) := ops.flatMap (Op.emits c)

/-- The stream that `c` is chained to after an operation, if it was chained to `old` before. -/
def Op.retarget (c : CsId) (old : Option CsId) : Op → Option CsId
  | .chain c' next _ => if c' = c then some next else old
  | .unchain c' => if c' = c then none else old
  | _ => old

/-- The stream that the last chain or unchain of stream `c` leaves it chained to. -/
def lastChained (c : CsId) (ops : List Op) : Option CsId := ops.foldl (Op.retarget c) none

/-- The stream that an operation is about. -/
def Op.stream : Op → Option CsId
  | .create c _ _ _ | .emit c _ _ _ | .grow c _ _ | .finalize c | .chain c _ _ | .unchain c => some c
  | .other => none

lemma emittedBy_concat (c : CsId) (ops : List Op) (a : Op) :
    emittedBy c (ops ++ [a]) = emittedBy c ops ++ a.emits c := by
  simp [emittedBy]

lemma lastChained_concat (c : CsId) (ops : List Op) (a : Op) :
    lastChained c (ops ++ [a]) = a.retarget c (lastChained c ops) := by
  simp [lastChained]

/-- An operation neither emits into another stream nor chains it. -/
theorem Op.others {a : Op} {d : CsId} (h : a.stream ≠ some d) (ops : List Op) :
    emittedBy d (ops ++ [a]) = emittedBy d ops ∧ lastChained d (ops ++ [a]) = lastChained d ops := by
  rw [emittedBy_concat, lastChained_concat]
  cases a <;> simp_all [Op.stream, Op.emits, Op.retarget]

/-! ## The invariant -/

/-- How a finalized stream ends: in a NOP, or in a packet that jumps to the start of the stream it
is chained to. -/
def TailOk (streams : CsId → Option Cs) (tail : List (BitVec 32)) : Option CsId → Prop
  | none => ∃ body, tail = pkt3 pkt3Nop 2 0 :: body
  | some d => ∃ ds preEna, streams d = some ds ∧ ds.ibBuffer = none ∧
      tail = linkPacket ds.ibMcAddress (ibChainValid ||| ibPreEnaS preEna ||| ds.ibSize)

/-- The stream is in one of its two phases, its IBs hold what was emitted, and it is chained to
`target`. -/
def StreamOk (s : Sys) (cs : Cs) (emitted : List (BitVec 32)) (target : Option CsId) : Prop :=
  (∃ closed b va cur, Recording s.ws cs closed b va cur ∧ chunks closed ++ cur = emitted ∧
    target = none) ∨
  (∃ x rest tail, Finalized s.ws cs x rest tail ∧ chunks (x :: rest) = emitted ∧
    cs.chainedTo = target ∧ TailOk s.cs tail target)

/-- Finalized streams stay finalized, at the same address and size. -/
def KeepsFinalized (streams streams' : CsId → Option Cs) : Prop :=
  ∀ d ds, streams d = some ds → ds.ibBuffer = none → ∃ ds', streams' d = some ds' ∧
    ds'.ibBuffer = none ∧ ds'.ibMcAddress = ds.ibMcAddress ∧ ds'.ibSize = ds.ibSize

section

variable {c : CsId} {tail emitted : List (BitVec 32)} {chainedTo target : Option CsId} {s s' : Sys}
  {cs : Cs} {t : St} {ops : List Op} {a : Op} {info : Info} {closed : List Part}

theorem TailOk.keep {streams streams' : CsId → Option Cs} (h : TailOk streams tail chainedTo)
    (hkeep : KeepsFinalized streams streams') : TailOk streams' tail chainedTo := by
  cases chainedTo with
  | none => exact h
  | some d =>
    obtain ⟨ds, preEna, hd, hds, htail⟩ := h
    obtain ⟨ds', hd', hds', haddr, hsize⟩ := hkeep d ds hd hds
    exact ⟨ds', preEna, hd', hds', by rw [haddr, hsize]; exact htail⟩

/-- A stream does not notice what happens outside the BOs it owns. -/
theorem StreamOk.frame (h : StreamOk s cs emitted target)
    (hbos : ∀ b ∈ cs.owned, s'.ws.bos b = s.ws.bos b) (hkeep : KeepsFinalized s.cs s'.cs) :
    StreamOk s' cs emitted target := by
  rcases h with ⟨closed, b, va, cur, hrec, hemit⟩ | ⟨x, rest, tail, hfin, hemit, hto, htail⟩
  · refine Or.inl ⟨closed, b, va, cur, hrec.frame fun b' hb' => hbos b' ?_, hemit⟩
    rw [hrec.owned_eq]
    exact mem_reverse.mpr hb'
  · refine Or.inr ⟨x, rest, tail, hfin.frame fun b' hb' => hbos b' ?_, hemit, hto, htail.keep hkeep⟩
    rw [hfin.owned_eq]
    exact mem_reverse.mpr hb'

/-- What holds after every run. -/
structure SysOk (ops : List Op) (s : Sys) : Prop where
  stream : ∀ c cs, s.cs c = some cs → StreamOk s cs (emittedBy c ops) (lastChained c ops)
  absent : ∀ c, s.cs c = none → emittedBy c ops = [] ∧ lastChained c ops = none
  disjoint : ∀ c d cs ds, c ≠ d → s.cs c = some cs → s.cs d = some ds →
    ∀ b ∈ cs.owned, b ∉ ds.owned
  ws : WsOk s.ws s.used

/-- The BOs stream `c` holds, none before it is created. -/
def Sys.own (s : Sys) (c : CsId) : List BoId := ((s.cs c).map Cs.owned).getD []

lemma Sys.put_eq_some {d : CsId} {ds : Cs} :
    (s.put c t).cs d = some ds ↔ (d = c ∧ t.cs = ds) ∨ (d ≠ c ∧ s.cs d = some ds) := by
  show update s.cs c (some t.cs) d = _ ↔ _
  rw [update_apply, ite_eq_iff, Option.some_inj]

lemma Sys.put_used (hsub : s.own c ⊆ t.cs.owned) : (s.put c t).used = fun b => s.used b ∨ b ∈ t.cs.owned := by
  funext b
  apply propext
  constructor
  · rintro ⟨d, ds, hd, hb⟩
    rcases Sys.put_eq_some.mp hd with ⟨-, rfl⟩ | ⟨-, hd⟩
    · exact Or.inr hb
    · exact Or.inl ⟨d, ds, hd, hb⟩
  · rintro (⟨d, ds, hd, hb⟩ | hb)
    · by_cases hdc : d = c
      · subst hdc
        refine ⟨d, t.cs, update_self .., hsub ?_⟩
        simpa [Sys.own, hd] using hb
      · exact ⟨d, ds, Sys.put_eq_some.mpr (.inr ⟨hdc, hd⟩), hb⟩
    · exact ⟨c, t.cs, update_self .., hb⟩

/-- Every step has this shape: one stream advances, the others do not notice. -/
theorem SysOk.put (h : SysOk ops s) (hadv : Advance s.used s.ws (s.own c) t.ws t.cs.owned)
    (hkeep : KeepsFinalized s.cs (s.put c t).cs)
    (hstream : StreamOk (s.put c t) t.cs (emittedBy c (ops ++ [a])) (lastChained c (ops ++ [a])))
    (ha : a.stream = some c) : SysOk (ops ++ [a]) (s.put c t) := by
  have hold : ∀ d, d ≠ c → emittedBy d (ops ++ [a]) = emittedBy d ops ∧
      lastChained d (ops ++ [a]) = lastChained d ops := by
    intro d hd
    refine Op.others ?_ ops
    rw [ha]
    exact fun heq => hd (Option.some.inj heq).symm
  -- a BO of another stream is not one that `c` owns now
  have hapart : ∀ d ds, d ≠ c → s.cs d = some ds → ∀ b ∈ ds.owned, b ∉ t.cs.owned := by
    intro d ds hd hds b hb hbt
    rcases hadv.fresh b hbt with hmem | hfree
    · cases hc : s.cs c with
      | none => simp [Sys.own, hc] at hmem
      | some cs =>
        have hmem' : b ∈ cs.owned := by simpa [Sys.own, hc] using hmem
        exact h.disjoint d c ds cs hd hds hc b hb hmem'
    · exact hfree ⟨d, ds, hds, hb⟩
  refine ⟨?_, ?_, ?_, ?_⟩
  · intro d ds hd
    rcases Sys.put_eq_some.mp hd with ⟨rfl, rfl⟩ | ⟨hdc, hd⟩
    · exact hstream
    · rw [(hold d hdc).1, (hold d hdc).2]
      exact (h.stream d ds hd).frame (fun b hb => hadv.frame b (hapart d ds hdc hd b hb)) hkeep
  · intro d hd
    rw [show (s.put c t).cs d = update s.cs c (some t.cs) d from rfl, update_apply, ite_eq_iff] at hd
    rcases hd with ⟨-, ⟨⟩⟩ | ⟨hdc, hd⟩
    rw [(hold d hdc).1, (hold d hdc).2]
    exact h.absent d hd
  · intro d e ds es hne hd he b hb hb'
    rcases Sys.put_eq_some.mp hd with ⟨rfl, rfl⟩ | ⟨hdc, hd'⟩ <;>
      rcases Sys.put_eq_some.mp he with ⟨rfl, rfl⟩ | ⟨hec, he⟩
    · exact hne rfl
    · exact hapart e es hec he b hb' hb
    · exact hapart d ds hdc hd' b hb hb'
    · exact h.disjoint d e ds es hne hd' he b hb hb'
  · rw [Sys.put_used hadv.sub]
    exact hadv.ok

lemma Sys.own_eq (h : s.cs c = some cs) : s.own c = cs.owned := by
  simp [Sys.own, h]

lemma Sys.used_owned (h : s.cs c = some cs) : ∀ b ∈ cs.owned, s.used b := fun _ hb => ⟨c, cs, h, hb⟩

lemma keepsFinalized_put (h : ∀ cs, s.cs c = some cs → cs.ibBuffer = none →
      t.cs.ibBuffer = none ∧ t.cs.ibMcAddress = cs.ibMcAddress ∧ t.cs.ibSize = cs.ibSize) :
    KeepsFinalized s.cs (s.put c t).cs := by
  intro d ds hd hds
  by_cases hdc : d = c
  · subst hdc
    exact ⟨t.cs, update_self .., h ds hd hds⟩
  · exact ⟨ds, Sys.put_eq_some.mpr (.inr ⟨hdc, hd⟩), hds, rfl, rfl⟩

section

variable (h : SysOk ops s)
include h

section

variable (hc : s.cs c = some cs)
include hc

/-- A stream with an `ib_buffer` is being recorded. -/
theorem SysOk.recording (hrec : cs.ibBuffer ≠ none) :
    ∃ closed b va cur, Recording s.ws cs closed b va cur ∧ chunks closed ++ cur = emittedBy c ops ∧
      lastChained c ops = none := by
  rcases h.stream c cs hc with hr | ⟨x, rest, tail, hfin, -⟩
  · exact hr
  · exact absurd hfin.ibBuffer hrec

/-- A stream without one is finalized. -/
theorem SysOk.finalized (hfin : cs.ibBuffer = none) :
    ∃ x rest tail, Finalized s.ws cs x rest tail ∧ chunks (x :: rest) = emittedBy c ops ∧
      cs.chainedTo = lastChained c ops ∧ TailOk s.cs tail (lastChained c ops) := by
  rcases h.stream c cs hc with ⟨closed, b, va, cur, hrec, -⟩ | hf
  · rw [hrec.ibBuffer] at hfin
    cases hfin
  · exact hf

/-- A step of a stream that was being recorded. -/
theorem SysOk.put_recording (hrec : cs.ibBuffer ≠ none)
    (hadv : Advance s.used s.ws cs.owned t.ws t.cs.owned)
    (hto : lastChained c ops = none)
    (hstream : StreamOk (s.put c t) t.cs (emittedBy c ops ++ a.emits c) (a.retarget c none))
    (ha : a.stream = some c) : SysOk (ops ++ [a]) (s.put c t) := by
  refine h.put (by rw [Sys.own_eq hc]; exact hadv) (keepsFinalized_put ?_)
    (by rw [emittedBy_concat, lastChained_concat, hto]; exact hstream) ha
  intro cs' hcs' hnone
  cases hc.symm.trans hcs'
  exact absurd hnone hrec

/-- A step of a stream that was finalized. -/
theorem SysOk.put_finalized {x : Part} {rest : List Part} {tail' : List (BitVec 32)} {ws' : Ws}
    (hfin : Finalized s.ws cs x rest tail) (hemit : chunks (x :: rest) = emittedBy c ops)
    (hfin' : Finalized ws' { cs with chainedTo := chainedTo } x rest tail')
    (hw : Ws.Writes [x.bo] s.ws ws')
    (htail : TailOk (s.put c ⟨ws', { cs with chainedTo := chainedTo }⟩).cs tail' chainedTo)
    (hemits : a.emits c = []) (hto : a.retarget c (lastChained c ops) = chainedTo)
    (ha : a.stream = some c) :
    SysOk (ops ++ [a]) (s.put c ⟨ws', { cs with chainedTo := chainedTo }⟩) := by
  have hadv := (Advance.refl h.ws (Sys.used_owned hc)).writes (hw.mono (by
    rw [hfin.owned_eq]
    simp))
  refine h.put (by rw [Sys.own_eq hc]; exact hadv) (keepsFinalized_put ?_) ?_ ha
  · intro cs' hcs' hnone
    cases hc.symm.trans hcs'
    exact ⟨hnone, rfl, rfl⟩
  · rw [emittedBy_concat, hemits, append_nil, lastChained_concat, hto]
    exact Or.inr ⟨x, rest, tail', hfin', hemit, rfl, htail⟩

end

/-! ## Every step keeps the invariant -/

lemma Step.sysOk (hstep : Step info s a s') : SysOk (ops ++ [a]) s' := by
  cases hstep with
  | @create c ip isSecondary n t hc hfresh hcreate hchain =>
    obtain ⟨b, va, hrec, hadv⟩ := csCreate_recording info h.ws hfresh hcreate hchain
    have hown : s.own c = [] := by simp [Sys.own, hc]
    refine h.put (by rw [hown]; exact hadv) (keepsFinalized_put fun cs hcs _ => ?_) ?_ rfl
    · rw [hc] at hcs
      cases hcs
    · rw [emittedBy_concat, lastChained_concat, (h.absent c hc).1, (h.absent c hc).2]
      exact Or.inl ⟨[], b, va, [], hrec, rfl, rfl⟩
  | @emit c cs needed v n hc hrec hneeded hfresh =>
    obtain ⟨closed, b, va, cur, hr, hemit, hto⟩ := h.recording hc hrec
    obtain ⟨ws1, cs1, closed', b', va', cur', heq1, hr1, hroom, hchunks, hadv⟩ :=
      radeonCheckSpace_recording info hr h.ws (Sys.used_owned hc) hfresh hneeded
    obtain ⟨ws2, heq2, hr2, hw⟩ := radeonEmitUnchecked_recording hr1 hroom v
    rw [heq1, heq2]
    refine h.put_recording hc hrec (hadv.writes (hw.mono ?_)) hto (Or.inl ?_) rfl
    · rw [hr1.owned_eq]
      simp
    · refine ⟨closed', b', va', cur' ++ [v], hr2, ?_, rfl⟩
      rw [← append_assoc, hchunks, hemit]
      simp [Op.emits]
  | @grow c cs minSize n hc hrec hfresh =>
    obtain ⟨closed, b, va, cur, hr, hemit, hto⟩ := h.recording hc hrec
    obtain ⟨ws', cs', pad, b', va', heq, hr', hadv, -⟩ :=
      csGrow_recording info minSize hr h.ws (Sys.used_owned hc) hfresh
    rw [heq]
    refine h.put_recording hc hrec hadv hto (Or.inl ⟨_, b', va', [], hr', ?_, rfl⟩) rfl
    rw [chunks_cons, ← hemit]
    rfl
  | @finalize c cs hc hrec =>
    obtain ⟨closed, b, va, cur, hr, hemit, hto⟩ := h.recording hc hrec
    obtain ⟨ws', cs', pad, body, heq, -, hfin, hw, hchained⟩ := csFinalize_recording info hr
    rw [heq]
    have hown : cs'.owned = cs.owned := by
      rw [hfin.owned_eq, hr.owned_eq]
      rfl
    have hadv := hr.advance h.ws (Sys.used_owned hc) hw
    refine h.put_recording hc hrec (by rw [hown]; exact hadv) hto (Or.inr ?_) rfl
    refine ⟨_, closed, _, hfin, ?_, hchained, ⟨body, rfl⟩⟩
    rw [chunks_cons, ← hemit]
    simp [Op.emits]
  | @chain c next cs nextCs preEna hc hfin hnext hnextFin =>
    obtain ⟨x, rest, tail, hf, hemit, -⟩ := h.finalized hc hfin
    obtain ⟨ws', heq, hf', hw⟩ := csChain_finalized hf next nextCs preEna
    rw [heq]
    refine h.put_finalized hc hf hemit hf' hw ?_ rfl (by simp [Op.retarget]) rfl
    by_cases hnc : next = c
    · subst hnc
      cases hc.symm.trans hnext
      exact ⟨_, preEna, update_self .., hfin, rfl⟩
    · exact ⟨nextCs, preEna, Sys.put_eq_some.mpr (.inr ⟨hnc, hnext⟩), hnextFin, rfl⟩
  | @unchain c cs hc hfin =>
    obtain ⟨x, rest, tail, hf, hemit, hto, htail⟩ := h.finalized hc hfin
    have hnone : (Op.unchain c).retarget c (lastChained c ops) = none := by simp [Op.retarget]
    by_cases hchained : cs.chainedTo = none
    · have heq : csUnchain ⟨s.ws, cs⟩ = ⟨s.ws, { cs with chainedTo := none }⟩ := by
        simp only [csUnchain, hchained, Option.isNone_none, if_true]
        rw [← hchained]
      rw [heq]
      rw [← hto, hchained] at htail
      exact h.put_finalized hc hf hemit (hf.retail hf.holds (.refl _ _) none) (.refl _ _) htail rfl
        hnone rfl
    · obtain ⟨ws', heq, hf', hw⟩ := csUnchain_finalized hf hchained
      rw [heq]
      obtain ⟨w0, w1, w2, w3, rfl⟩ := length_eq_four.mp hf.holds.four
      exact h.put_finalized hc hf hemit hf' hw ⟨[w1, w2, w3], rfl⟩ rfl hnone rfl
  | other hbos hws =>
    have hold := fun d => Op.others (a := .other) (d := d) (fun hd => by cases hd) ops
    refine ⟨fun d ds hd => ?_, fun d hd => ?_, h.disjoint, hws⟩
    · rw [(hold d).1, (hold d).2]
      exact (h.stream d ds hd).frame (fun b hb => hbos b ⟨d, ds, hd, hb⟩)
        fun e es he hes => ⟨es, he, hes, rfl, rfl⟩
    · rw [(hold d).1, (hold d).2]
      exact h.absent d hd

end

lemma sysOk_of_run {ws0 : Ws} (hws : WsOk ws0 fun _ => False)
    (hrun : Run (Step info) ⟨ws0, fun _ => none⟩ ops s) : SysOk ops s := by
  refine hrun.invariant ?_ fun l s a s' h hstep => hstep.sysOk h
  have hused : (Sys.mk ws0 fun _ => none).used = fun _ => False := by
    funext b
    simp [Sys.used]
  exact ⟨by simp, fun _ _ => ⟨rfl, rfl⟩, by simp, by rw [hused]; exact hws⟩

/-! ## Walking a finalized stream -/

/-- Executing the visits executes the dwords `emitted`, in order, and otherwise only NOPs. -/
def Executes (visits : List Visit) (emitted : List (BitVec 32)) : Prop :=
  ∃ parts : List (List (BitVec 32) × List (BitVec 32)),
    visits.map Visit.dws = parts.map (fun p => p.1 ++ p.2) ∧
    (parts.map Prod.fst).flatten = emitted ∧ ∀ p ∈ parts, Nops p.2

/-- The memory holds every closed IB, whatever it links to. -/
theorem Links.holds {n : ℕ} (h : Links ws closed va n) :
    ∀ x ∈ closed, ∃ tail, x.Holds ws tail := by
  induction closed generalizing va n with
  | nil => exact forall_mem_nil _
  | cons y rest ih =>
    exact forall_mem_cons.mpr ⟨⟨_, h.1⟩, ih h.2⟩

lemma Links.nops {n : ℕ} (h : Links ws closed va n) :
    ∀ x ∈ closed, Nops x.pad := by
  intro x hx
  obtain ⟨tail, hx⟩ := h.holds x hx
  exact hx.nops

lemma executes_visits (h : ∀ x ∈ closed, Nops x.pad) :
    Executes (closed.reverse.map Part.visit) (chunks closed) := by
  refine ⟨closed.reverse.map fun x => (x.chunk, x.pad), ?_, ?_, ?_⟩
  · simp only [map_map]
    rfl
  · simp only [map_map, chunks]
    rfl
  · intro p hp
    obtain ⟨x, hx, rfl⟩ := mem_map.mp hp
    exact h x (mem_reverse.mp hx)

lemma Executes.concat {visits : List Visit} {chunk pad : List (BitVec 32)} {v : Visit}
    (h : Executes visits emitted) (hv : v.dws = chunk ++ pad) (hpad : Nops pad) :
    Executes (visits ++ [v]) (emitted ++ chunk) := by
  obtain ⟨parts, hdws, hchunks, hnops⟩ := h
  refine ⟨parts ++ [(chunk, pad)], ?_, ?_, ?_⟩
  · simp [hdws, hv]
  · simp [hchunks]
  · exact forall_mem_append.mpr ⟨hnops, forall_mem_singleton.mpr hpad⟩

end

section Walk

variable {ws : Ws} {cs : Cs} {x : Part} {rest : List Part} {tail : List (BitVec 32)} {va : BitVec 64}

lemma Finalized.size_toNat (h : Finalized ws cs x rest tail) :
    cs.ibSize.toNat = (first rest x.va x.size).2 := by
  have hsmall := first_small h.links h.holds.small
  rw [h.size, BitVec.toNat_ofNat]
  exact Nat.mod_eq_of_lt (by omega)

/-- The walk up to the last IB. -/
theorem Finalized.walk_rest (h : Finalized ws cs x rest tail) :
    CpWalk ws cs.ibMcAddress cs.ibSize.toNat (rest.reverse.map Part.visit) (some (x.va, x.size)) := by
  have hwalk := h.links.walk h.holds.small
  rw [← h.addr, ← h.size_toNat] at hwalk
  exact hwalk

section

variable (hinj : ws.VaInj)
include hinj

/-- Starting on the only BO at an address, where the IB has no jump, the walk is one visit. -/
theorem CpWalk.stop_unique {size : ℕ} {v : Visit} (h : CpWalk ws va size [v] none) {vs : List Visit}
    (hvs : CpWalk ws va size vs none) : vs = [v] := by
  generalize hnone : (none : Option (BitVec 64 × ℕ)) = e at h
  generalize hl : [v] = l at h
  cases h with
  | here => cases hnone
  | @jump _ _ _ _ _ _ _ _ _ _ hrest =>
    cases hl
    subst hnone
    cases hrest
  | @stop b bo size hb hsize htarget =>
    cases hl
    generalize hva : bo.va = va at hvs
    cases hvs with
    | @stop b' bo' _ hb' _ _ =>
      obtain rfl := hinj b b' bo bo' hb hb' hva
      cases hb.symm.trans hb'
      rfl
    | @jump b' bo' _ _ _ _ _ hb' _ htarget' _ =>
      obtain rfl := hinj b b' bo bo' hb hb' hva
      cases hb.symm.trans hb'
      cases htarget.symm.trans htarget'

/-- The visits of a stream that is not chained: the last IB runs to its end. -/
def ownVisits (x : Part) (rest : List Part) (tail : List (BitVec 32)) : List Visit :=
  rest.reverse.map Part.visit ++ [⟨x.va, x.size, x.chunk ++ x.pad ++ tail⟩]

lemma Finalized.walk_unchained {body : List (BitVec 32)}
    (h : Finalized ws cs x rest (pkt3 pkt3Nop 2 0 :: body)) (vs : List Visit) :
    CpWalk ws cs.ibMcAddress cs.ibSize.toNat vs none ↔ vs = ownVisits x rest (pkt3 pkt3Nop 2 0 :: body) := by
  have hlast := h.holds.walk_nop
  rw [h.walk_rest.complete_iff hinj vs]
  constructor
  · rintro ⟨vs', rfl, hvs'⟩
    rw [hlast.stop_unique hinj hvs']
    rfl
  · rintro rfl
    exact ⟨_, rfl, hlast⟩

end

lemma Finalized.walk_chained {n : ℕ} {preEna : Bool} (hn : n < 2 ^ 20)
    (h : Finalized ws cs x rest (linkPacket va (ibChainValid ||| ibPreEnaS preEna ||| BitVec.ofNat 32 n))) :
    CpWalk ws cs.ibMcAddress cs.ibSize.toNat ((x :: rest).reverse.map Part.visit) (some (va, n)) := by
  have hlast := h.holds.walk_link (ibChainG_control preEna hn)
  rw [ibSizeG_control, ibSizeG_ofNat hn] at hlast
  rw [reverse_cons, map_append, map_singleton]
  exact h.walk_rest.trans hlast

end Walk

lemma head_ibs (x : Part) (rest : List Part) :
    ((x :: rest).reverse.map fun y => (y.va, y.size)).head? = some (first rest x.va x.size) := by
  induction rest generalizing x with
  | nil => rfl
  | cons y rest ih =>
    rw [reverse_cons, map_append, head?_append, ih y]
    rfl

/-- In every run, the command processor that is started on a finalized stream, at its first IB and
with the size in `ib.size`, executes exactly what was emitted into the stream, with only NOPs in
between, and then goes on to the stream that the last chain or unchain left it chained to. Each IB
is read with the size that was written to it, of which the last four dwords are the jump where there
is one. -/
theorem cpWalk_of_run {info : Info} {ws0 : Ws} {ops : List Op} {s : Sys} {c : CsId} {cs : Cs}
    (hws : WsOk ws0 fun _ => False) (hrun : Run (Step info) ⟨ws0, fun _ => none⟩ ops s)
    (hc : s.cs c = some cs) (hfin : cs.ibBuffer = none) :
    cs.chainedTo = lastChained c ops ∧ ∃ own : List Visit, Executes own (emittedBy c ops) ∧
      own.map (fun v => (v.va, v.size)) = cs.ibBuffers.map (fun ib => (ib.va, ib.cdw)) ∧
      (own.map fun v => (v.va, v.size)).head? = some (cs.ibMcAddress, cs.ibSize.toNat) ∧
      (∀ v ∈ own.dropLast, v.size = v.dws.length + 4) ∧
      (lastChained c ops = none → (∀ v ∈ own.getLast?, v.size = v.dws.length) ∧
        ∀ vs, CpWalk s.ws cs.ibMcAddress cs.ibSize.toNat vs none ↔ vs = own) ∧
      (∀ d, lastChained c ops = some d → (∀ v ∈ own.getLast?, v.size = v.dws.length + 4) ∧
        ∃ ds, s.cs d = some ds ∧ ds.ibBuffer = none ∧
          CpWalk s.ws cs.ibMcAddress cs.ibSize.toNat own
            (some (ds.ibMcAddress, ds.ibSize.toNat)) ∧
          ∀ vs, CpWalk s.ws cs.ibMcAddress cs.ibSize.toNat vs none ↔
            ∃ vs', vs = own ++ vs' ∧ CpWalk s.ws ds.ibMcAddress ds.ibSize.toNat vs' none) := by
  have hok := sysOk_of_run hws hrun
  obtain ⟨x, rest, tail, hf, hemit, hto, htail⟩ := hok.finalized hc hfin
  refine ⟨hto, ?_⟩
  have hibs : cs.ibBuffers.map (fun ib => (ib.va, ib.cdw)) = (x :: rest).reverse.map fun y =>
    (y.va, y.size) := by
    rw [hf.ibs, map_map]
    rfl
  have hstart : some (first rest x.va x.size) = some (cs.ibMcAddress, cs.ibSize.toNat) := by
    rw [hf.addr, hf.size_toNat]
  have hvisit : ∀ y : Part, y.visit.size = y.visit.dws.length + 4 := by
    intro y
    simp only [Part.visit, Part.size, length_append]
  have hrest := executes_visits hf.links.nops
  rw [← hemit, chunks_cons]
  cases hchained : lastChained c ops with
  | none =>
    rw [hchained] at htail
    obtain ⟨body, rfl⟩ := htail
    have hfour := hf.holds.four
    have hown : (ownVisits x rest (pkt3 pkt3Nop 2 0 :: body)).map (fun v => (v.va, v.size)) =
        (x :: rest).reverse.map fun y => (y.va, y.size) := by
      simp [ownVisits, Part.visit]
    refine ⟨ownVisits x rest _, ?_, by rw [hibs, hown],
      by rw [hown, head_ibs, hstart], ?_, fun _ => ⟨?_, hf.walk_unchained hok.ws.va_inj⟩,
      (fun d hd => by cases hd)⟩
    · refine hrest.concat (append_assoc ..) (hf.holds.nops.append (Nops.tail ?_))
      simpa using hfour
    · intro v hv
      rw [ownVisits, dropLast_concat] at hv
      obtain ⟨y, -, rfl⟩ := mem_map.mp hv
      exact hvisit y
    · intro v hv
      rw [ownVisits, getLast?_concat, Option.mem_some_iff] at hv
      subst hv
      simp only [length_append, hfour, Part.size]
  | some d =>
    rw [hchained] at htail
    obtain ⟨ds, preEna, hd, hdsFin, rfl⟩ := htail
    -- the target is finalized, so its size fits the 20-bit field
    obtain ⟨y, rest', tail', hf', -, -⟩ := hok.finalized hd hdsFin
    have hsmall : ds.ibSize.toNat < 2 ^ 20 := by
      rw [hf'.size_toNat]
      exact first_small hf'.links hf'.holds.small
    have hsize : ds.ibSize = BitVec.ofNat 32 ds.ibSize.toNat := by simp
    rw [hsize] at hf
    have hwalk := hf.walk_chained hsmall
    have hown : ((x :: rest).reverse.map Part.visit).map (fun v => (v.va, v.size)) =
        (x :: rest).reverse.map fun y => (y.va, y.size) := by
      rw [map_map]
      rfl
    refine ⟨(x :: rest).reverse.map Part.visit, ?_, by rw [hibs, hown],
      by rw [hown, head_ibs, hstart], ?_, (fun hnone => by cases hnone), fun d' hd' => ⟨?_, ds, ?_⟩⟩
    · rw [reverse_cons, map_append]
      exact hrest.concat rfl hf.holds.nops
    · intro v hv
      obtain ⟨y, -, rfl⟩ := mem_map.mp (dropLast_subset _ hv)
      exact hvisit y
    · intro v hv
      obtain ⟨y, -, rfl⟩ := mem_map.mp (mem_of_getLast? hv)
      exact hvisit y
    · obtain rfl : d = d' := Option.some.inj hd'
      exact ⟨hd, hdsFin, hwalk, hwalk.complete_iff hok.ws.va_inj⟩

/-- A device that chains IBs, with the alignments of a current kernel. -/
def exampleInfo : Info :=
  { gfx6 := false, gfx8Plus := true, gfxIbPadWithType2 := false, gfx11ShaderCore := true,
    canChainIb2 := true, chainIb := true, csDomain := .gtt, ibAlignment := fun _ => 256,
    ibAlignment_pot := fun _ => ⟨8, le_refl 8, by decide, rfl⟩ }

/-- A winsys without any BO. -/
def emptyWs : Ws := { bos := fun _ => none, ibCache := [], badStore := false, badRestore := false }

lemma emptyWs_ok : WsOk emptyWs fun _ => False := by
  refine ⟨?_, ?_, .nil, ?_, ?_⟩
  · intro b b' bo bo' h
    cases h
  · intro b h
    exact h.elim
  · intro e h
    cases h
  · intro e h
    cases h

/-- The BOs that the kernel gives, each at an address of its own. -/
def exampleNewBo (id : BoId) : NewBo := ⟨id, 0x100000 * (BitVec.ofNat 64 id + 1), fun _ => 0, id⟩

/-- A first stream, and a second one on the same winsys. -/
def exampleFirst : St := (csCreate exampleInfo emptyWs .gfx false (some (exampleNewBo 0)) true).get rfl

def exampleSecond : St :=
  (csCreate exampleInfo exampleFirst.ws .gfx false (some (exampleNewBo 1)) true).get rfl

/-- The first stream after a dword, after a grow, after another dword and at its end. -/
def exampleEmitted : St := radeonEmitUnchecked
  (radeonCheckSpace exampleInfo ⟨exampleSecond.ws, exampleFirst.cs⟩ 1 (some (exampleNewBo 2)) true)
  0x11111111

def exampleGrown : St := csGrow exampleInfo exampleEmitted 1 (some (exampleNewBo 2)) true

def exampleLast : St := radeonEmitUnchecked
  (radeonCheckSpace exampleInfo exampleGrown 1 (some (exampleNewBo 3)) true) 0x22222222

/-- What the steps of the two streams ask for. -/
theorem exampleStates : ∃ first second emitted grown last : St,
    csCreate exampleInfo emptyWs .gfx false (some (exampleNewBo 0)) true = some first ∧
    csCreate exampleInfo first.ws .gfx false (some (exampleNewBo 1)) true = some second ∧
    radeonEmitUnchecked (radeonCheckSpace exampleInfo ⟨second.ws, first.cs⟩ 1
      (some (exampleNewBo 2)) true) 0x11111111 = emitted ∧
    csGrow exampleInfo emitted 1 (some (exampleNewBo 2)) true = grown ∧
    radeonEmitUnchecked (radeonCheckSpace exampleInfo grown 1 (some (exampleNewBo 3)) true)
      0x22222222 = last ∧
    (first.cs.chainIb = true ∧ second.cs.chainIb = true) ∧
    (first.ws.Fresh (exampleNewBo 1) ∧ second.ws.Fresh (exampleNewBo 2) ∧
      emitted.ws.Fresh (exampleNewBo 2) ∧ grown.ws.Fresh (exampleNewBo 3)) ∧
    first.cs.ibBuffer = some 0 ∧ second.cs.ibBuffer = some 1 ∧ emitted.cs.ibBuffer = some 0 ∧
    grown.cs.ibBuffer = some 2 ∧ last.cs.ibBuffer = some 2 :=
  ⟨exampleFirst, exampleSecond, exampleEmitted, exampleGrown, exampleLast, rfl, rfl, rfl, rfl, rfl,
    ⟨rfl, rfl⟩, ⟨Ws.fresh_of_boVa 1 (fun _ => rfl) rfl (by decide),
      Ws.fresh_of_boVa 2 (fun _ => rfl) rfl (by decide), Ws.fresh_of_boVa 2 (fun _ => rfl) rfl (by decide),
      Ws.fresh_of_boVa 3 (fun _ => rfl) rfl (by decide)⟩, rfl, rfl, rfl, rfl, rfl⟩

/-- A stream that grows between its two dwords is chained to a second one: the command processor
executes its two dwords and goes on to the second stream. -/
theorem cpWalk_of_run_chained : ∃ ops s cs ds,
    Run (Step exampleInfo) ⟨emptyWs, fun _ => none⟩ ops s ∧ s.cs 0 = some cs ∧ s.cs 1 = some ds ∧
    emittedBy 0 ops = [0x11111111, 0x22222222] ∧ lastChained 0 ops = some 1 ∧
    cs.chainedTo = some 1 ∧ ∃ own, Executes own [0x11111111, 0x22222222] ∧
      CpWalk s.ws cs.ibMcAddress cs.ibSize.toNat own (some (ds.ibMcAddress, ds.ibSize.toNat)) := by
  obtain ⟨first, second, emitted, grown, last, hfirst, hsecond, hemitted, hgrown, hlast,
    ⟨hchain1, hchain2⟩, ⟨hfresh1, hfresh2, hfresh3, hfresh4⟩, hbuf1, hbuf2, hbuf3, hbuf4, hbuf5⟩ :=
    exampleStates
  have hbuf : ∀ {cs : Cs} {b : BoId}, cs.ibBuffer = some b → cs.ibBuffer ≠ none :=
    fun h => by simp [h]
  let s0 : Sys := ⟨emptyWs, fun _ => none⟩
  let s1 := s0.put 0 first
  let s2 := s1.put 1 second
  let s3 := s2.put 0 emitted
  let s4 := s3.put 0 grown
  let s5 := s4.put 0 last
  let closed := csFinalize exampleInfo last
  let next := csFinalize exampleInfo ⟨closed.ws, second.cs⟩
  let s7 := (s5.put 0 closed).put 1 next
  have h1 : Step exampleInfo s0 (.create 0 .gfx false (exampleNewBo 0)) s1 :=
    .create rfl (Ws.fresh_of_boVa 0 (fun _ => rfl) rfl (by decide)) hfirst hchain1
  have h2 : Step exampleInfo s1 (.create 1 .gfx false (exampleNewBo 1)) s2 :=
    .create rfl hfresh1 hsecond hchain2
  have h3 : Step exampleInfo s2 (.emit 0 1 0x11111111 (exampleNewBo 2)) (s2.put 0 emitted) :=
    hemitted ▸ .emit rfl (hbuf hbuf1) le_rfl hfresh2
  have h4 : Step exampleInfo s3 (.grow 0 1 (exampleNewBo 2)) (s3.put 0 grown) :=
    hgrown ▸ .grow rfl (hbuf hbuf3) hfresh3
  have h5 : Step exampleInfo s4 (.emit 0 1 0x22222222 (exampleNewBo 3)) (s4.put 0 last) :=
    hlast ▸ .emit rfl (hbuf hbuf4) le_rfl hfresh4
  have h6 : Step exampleInfo s5 (.finalize 0) (s5.put 0 closed) := .finalize rfl (hbuf hbuf5)
  have h7 : Step exampleInfo (s5.put 0 closed) (.finalize 1) s7 := .finalize rfl (hbuf hbuf2)
  have h8 : Step exampleInfo s7 (.chain 0 1 false)
      (s7.put 0 (csChain ⟨next.ws, closed.cs⟩ 1 next.cs false).2) := .chain rfl rfl rfl rfl
  have hrun := (((((((Run.nil.snoc h1).snoc h2).snoc h3).snoc h4).snoc h5).snoc h6).snoc h7).snoc h8
  have hfin : (csChain ⟨next.ws, closed.cs⟩ 1 next.cs false).2.cs.ibBuffer = none := by
    unfold csChain
    split_ifs <;> rfl
  obtain ⟨hto, own, hexec, -, -, -, -, hnext⟩ := cpWalk_of_run (c := 0) emptyWs_ok hrun rfl hfin
  obtain ⟨-, ds, hds, -, hwalk, -⟩ := hnext 1 rfl
  exact ⟨_, _, _, ds, hrun, rfl, hds, rfl, rfl, hto, own, hexec, hwalk⟩

end RadvXclipse.RadvAmdgpu
