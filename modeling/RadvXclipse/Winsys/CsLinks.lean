import RadvXclipse.Winsys.CsMemory

/-!
# The shape of a chained stream

A stream with `chain_ib` is a list of closed IBs followed by the one being recorded. Each closed
IB ends in a packet that points at its successor; the size field of the newest such packet is
still zero, and `ibSizePtr` points at it. Closed IBs are listed newest first, so that growing
the stream is a `cons` and the pending size field belongs to the head.

`Recording` and `Finalized` are the two phases of a stream; the lemmas of this file say how
`csFinalize`, `csGrow`, `csChain` and `csUnchain` move between them.
-/

namespace RadvXclipse.RadvAmdgpu

open Lib Util List Option Nat BitVec

/-! ## Which memory an operation may touch -/

/-- `ws'` is `ws` after stores, all in bounds, into the BOs `bs`. -/
structure Ws.Writes (bs : List BoId) (ws ws' : Ws) : Prop where
  others : ∀ b, b ∉ bs → ws'.bos b = ws.bos b
  shape : ∀ b, (ws'.bos b).map (fun bo => (bo.va, bo.size)) =
    (ws.bos b).map fun bo => (bo.va, bo.size)
  ibCache : ws'.ibCache = ws.ibCache
  badStore : ws'.badStore = ws.badStore
  badRestore : ws'.badRestore = ws.badRestore

lemma Ws.Writes.refl (bs : List BoId) (ws : Ws) : Ws.Writes bs ws ws :=
  ⟨fun _ _ => rfl, fun _ => rfl, rfl, rfl, rfl⟩

section

variable {bs : List BoId} {ws ws' : Ws} {b : BoId} {bo : Bo}

lemma Ws.Writes.trans {ws1 ws2 ws3 : Ws} (h : Ws.Writes bs ws1 ws2) (h' : Ws.Writes bs ws2 ws3) :
    Ws.Writes bs ws1 ws3 where
  others b hb := (h'.others b hb).trans (h.others b hb)
  shape b := (h'.shape b).trans (h.shape b)
  ibCache := h'.ibCache.trans h.ibCache
  badStore := h'.badStore.trans h.badStore
  badRestore := h'.badRestore.trans h.badRestore

lemma Ws.Writes.mono {bs' : List BoId} (h : Ws.Writes bs ws ws') (hsub : bs ⊆ bs') :
    Ws.Writes bs' ws ws' :=
  { h with others := fun b hb => h.others b fun hmem => hb (hsub hmem) }

lemma Ws.writes_setDw (h : ws.bos b = some bo) (f : ℕ → BitVec 32) :
    Ws.Writes [b] ws (ws.setDw b bo f) where
  others b' hb := Ws.setDw_bos_of_ne ws bo f (by simpa using hb)
  shape b' := by
    by_cases hb : b' = b
    · subst hb
      rw [Ws.setDw_bos_self, h]
      rfl
    · rw [Ws.setDw_bos_of_ne ws bo f hb]
  ibCache := rfl
  badStore := rfl
  badRestore := rfl

/-- A BO of the same shape has the same address and size. -/
theorem exists_of_shape {x x' : Option Bo} (h : x'.map (fun bo => (bo.va, bo.size)) =
    x.map fun bo => (bo.va, bo.size)) (hx : x = some bo) :
    ∃ bo', x' = some bo' ∧ bo'.va = bo.va ∧ bo'.size = bo.size := by
  rw [hx] at h
  obtain ⟨bo', hbo', heq⟩ := map_eq_some_iff.mp h
  exact ⟨bo', hbo', congrArg Prod.fst heq, congrArg Prod.snd heq⟩

theorem Ws.Writes.live (h : Ws.Writes bs ws ws') (hb : ws.bos b = some bo) :
    ∃ bo', ws'.bos b = some bo' ∧ bo'.va = bo.va ∧ bo'.size = bo.size :=
  exists_of_shape (h.shape b) hb

/-! ## Closed IBs -/

/-- A closed IB: the BO it lives in, its address, the dwords emitted into it and the padding
after them. Four more dwords follow. -/
structure Part where
  bo : BoId
  va : BitVec 64
  chunk : List (BitVec 32)
  pad : List (BitVec 32)

/-- The number of dwords written to the IB. -/
def Part.size (x : Part) : ℕ := x.chunk.length + x.pad.length + 4

/-- The entry of `ib_buffers` for the IB. -/
def Part.ib (x : Part) : Ib := ⟨x.bo, x.va, x.size⟩

/-- The chaining `INDIRECT_BUFFER` packet. -/
def linkPacket (va : BitVec 64) (control : BitVec 32) : List (BitVec 32) :=
  [pkt3 pkt3IndirectBuffer 2 0, va.setWidth 32, (va >>> 32).setWidth 32, control]

/-- The memory of the winsys holds the IB, with `tail` as its last four dwords. -/
structure Part.Holds (ws : Ws) (x : Part) (tail : List (BitVec 32)) : Prop where
  live : ∃ bo, ws.bos x.bo = some bo ∧ bo.va = x.va ∧ 4 * x.size ≤ bo.size ∧
    Begins bo.dw (x.chunk ++ x.pad ++ tail)
  four : tail.length = 4
  small : x.size < 2 ^ 20
  nops : Nops x.pad

variable {x : Part} {tail cur : List (BitVec 32)} {va : BitVec 64} {n : ℕ} {control : BitVec 32}
  {cs : Cs} {rest : List Part}

theorem Part.Holds.frame (h : x.Holds ws tail) (heq : ws'.bos x.bo = ws.bos x.bo) :
    x.Holds ws' tail :=
  { h with live := by rw [heq]; exact h.live }

/-- The closed IBs, newest first, lead to the address `va` with the size `n`. -/
def Links (ws : Ws) : List Part → BitVec 64 → ℕ → Prop
  | [], _, _ => True
  | x :: rest, va, n =>
    x.Holds ws (linkPacket va (ibChainValid ||| BitVec.ofNat 32 n)) ∧ Links ws rest x.va x.size

theorem Links.frame {closed : List Part} (h : Links ws closed va n)
    (heq : ∀ b ∈ closed.map Part.bo, ws'.bos b = ws.bos b) : Links ws' closed va n := by
  induction closed generalizing va n with
  | nil => trivial
  | cons x rest ih =>
    refine ⟨h.1.frame (heq x.bo (by simp)), ih h.2 fun b hb => heq b ?_⟩
    exact mem_cons_of_mem _ hb

theorem Links.writes {closed : List Part} (h : Links ws closed va n) (hw : Ws.Writes [b] ws ws')
    (hb : b ∉ closed.map Part.bo) : Links ws' closed va n := by
  refine h.frame fun b' hb' => hw.others b' fun hmem => hb ?_
  rwa [← mem_singleton.mp hmem]

/-- Where the stream starts: the oldest closed IB, or the target itself when there is none. -/
def first : List Part → BitVec 64 → ℕ → BitVec 64 × ℕ
  | [], va, n => (va, n)
  | x :: rest, _, _ => first rest x.va x.size

/-- What `ib_size_ptr` points at while the stream is recorded. -/
def sizePtr : List Part → SizePtr
  | [] => .ibSize
  | x :: _ => .dword x.bo (x.size - 1)

/-! ## The size field -/

lemma ibSizeG_ofNat (h : n < 2 ^ 20) : (ibSizeG (BitVec.ofNat 32 n)).toNat = n := by
  have hmask : (0xFFFFF : BitVec 32).toNat = 2 ^ 20 - 1 := by decide
  rw [ibSizeG, toNat_and, hmask, and_two_pow_sub_one_eq_mod, toNat_ofNat]
  omega

lemma ibSizeG_control (preEna : Bool) (x : BitVec 32) :
    ibSizeG (ibChainValid ||| ibPreEnaS preEna ||| x) = ibSizeG x := by
  have hc : (ibChainValid ||| ibPreEnaS preEna) &&& 0xFFFFF = 0 := by
    cases preEna <;> decide
  rw [ibSizeG, BitVec.and_or_distrib_right, hc]
  simp [ibSizeG]

lemma ibSizeG_link (x : BitVec 32) : ibSizeG (ibChainValid ||| x) = ibSizeG x := by
  have h := ibSizeG_control false x
  simpa [ibPreEnaS] using h

lemma ofNat_shiftRight_eq_zero (h : n < 2 ^ 20) : BitVec.ofNat 32 n >>> 20 = 0 := by
  apply eq_of_toNat_eq
  rw [toNat_ushiftRight, toNat_ofNat, shiftRight_eq_div_pow]
  have : n % 2 ^ 32 < 2 ^ 20 := lt_of_le_of_lt (mod_le _ _) h
  simpa using div_eq_of_lt this

lemma ibChainG_control (preEna : Bool) (h : n < 2 ^ 20) :
    ibChainG (ibChainValid ||| ibPreEnaS preEna ||| BitVec.ofNat 32 n) = 1 := by
  rw [ibChainG, ushiftRight_or_distrib, ofNat_shiftRight_eq_zero h]
  cases preEna <;> decide

lemma ibChainG_link (h : n < 2 ^ 20) : ibChainG (ibChainValid ||| BitVec.ofNat 32 n) = 1 := by
  have h' := ibChainG_control false h
  simpa [ibPreEnaS] using h'

/-! ## Patching the pending size -/

lemma St.orSizePtr_dword {s : St} {idx : ℕ} (h : s.cs.ibSizePtr = .dword b idx) (v : BitVec 32) :
    s.orSizePtr v = { s with ws := s.ws.store (some b) idx (s.ws.load b idx ||| v) } := by
  rw [St.orSizePtr, h]

/-- The last four dwords of a closed IB. -/
theorem Part.Holds.dw_tail (h : x.Holds ws tail) (hbo : ws.bos x.bo = some bo) (k : ℕ)
    (hk : k < tail.length) :
    bo.dw (x.size - (4 - k)) = tail[k] := by
  obtain ⟨bo', hbo', -, -, hbeg⟩ := h.live
  obtain rfl : bo' = bo := Option.some.inj (hbo'.symm.trans hbo)
  have hidx : x.size - (4 - k) = (x.chunk ++ x.pad).length + k := by
    have hfour := h.four
    rw [length_append, Part.size]
    omega
  rw [hidx]
  exact hbeg.at k hk

lemma Part.Holds.load_control (h : x.Holds ws (linkPacket va control)) :
    ws.load x.bo (x.size - 1) = control := by
  obtain ⟨bo, hbo, -⟩ := h.live
  rw [Ws.load, hbo]
  exact h.dw_tail hbo 3 (lt_succ_self 3)

/-- A store to one of the last four dwords of a closed IB. -/
theorem Part.Holds.store_tail (h : x.Holds ws tail) (k : ℕ) (hk : k < 4) (v : BitVec 32) :
    x.Holds (ws.store (some x.bo) (sub32 x.size (4 - k)) v) (tail.set k v) ∧
      Ws.Writes [x.bo] ws (ws.store (some x.bo) (sub32 x.size (4 - k)) v) := by
  obtain ⟨bo, hbo, hva, hsize, hbeg⟩ := h.live
  have hsmall := h.small
  have hlen : x.size = (x.chunk ++ x.pad).length + 4 := by rw [length_append, Part.size]
  have hidx : sub32 x.size (4 - k) = (x.chunk ++ x.pad).length + k := by
    rw [sub32_of_le (by omega) (by omega)]
    omega
  rw [hidx, Ws.store_live hbo _ _ (by omega)]
  refine ⟨{ h with live := ⟨_, Ws.setDw_bos_self .., hva, hsize, ?_⟩, four := ?_ },
    Ws.writes_setDw hbo _⟩
  · exact hbeg.store_right k v
  · rw [length_set]
    exact h.four

/-- The control dword is the last one. -/
theorem Part.Holds.sub32_one (h : x.Holds ws tail) : sub32 x.size 1 = x.size - 1 :=
  sub32_of_le (le_add_left 1 _) (h.small.trans (by decide))

/-- Storing to the last dword of a linked IB replaces the control dword. -/
theorem Part.Holds.store_control (h : x.Holds ws (linkPacket va control)) (control' : BitVec 32) :
    x.Holds (ws.store (some x.bo) (x.size - 1) control') (linkPacket va control') ∧
      Ws.Writes [x.bo] ws (ws.store (some x.bo) (x.size - 1) control') := by
  have hstore := h.store_tail 3 (by decide) control'
  rwa [h.sub32_one] at hstore

/-- `*ib_size_ptr |= n` completes the link to the IB that was just closed. -/
theorem orSizePtr_links {ws : Ws} {cs : Cs} {closed : List Part} {va : BitVec 64} {n : ℕ}
    (hlinks : Links ws closed va 0) (hptr : cs.ibSizePtr = sizePtr closed)
    (hsize : cs.ibSize = BitVec.ofNat 32 (first closed va 0).2)
    (hnodup : (closed.map Part.bo).Nodup) (hn : n < 2 ^ 20) :
    ∃ ws', St.orSizePtr ⟨ws, cs⟩ (BitVec.ofNat 32 n) =
        ⟨ws', { cs with ibSize := BitVec.ofNat 32 (first closed va n).2 }⟩ ∧
      Links ws' closed va n ∧ Ws.Writes (closed.map Part.bo) ws ws' ∧
      (ibSizeG (St.readSizePtr ⟨ws', { cs with ibSize := BitVec.ofNat 32 (first closed va n).2 }⟩)).toNat = n := by
  cases closed with
  | nil =>
    refine ⟨ws, ?_, trivial, .refl _ _, ?_⟩
    · simp [St.orSizePtr, hptr, sizePtr, hsize, first]
    · simpa [St.readSizePtr, hptr, sizePtr, first] using ibSizeG_ofNat hn
  | cons x rest =>
    have hfirst : (first (x :: rest) va n).2 = (first (x :: rest) va 0).2 := rfl
    rw [hfirst, ← hsize]
    have hload := hlinks.1.load_control
    obtain ⟨hx, hwrites⟩ := hlinks.1.store_control _
    have hor : ibChainValid ||| BitVec.ofNat 32 0 ||| BitVec.ofNat 32 n =
        ibChainValid ||| BitVec.ofNat 32 n := by simp
    -- the older IBs are other BOs
    refine ⟨_, ?_, ⟨hx, hlinks.2.writes hwrites (nodup_cons.mp hnodup).1⟩, hwrites.mono (by simp), ?_⟩
    · rw [St.orSizePtr_dword hptr, hload, hor]
    · simp only [St.readSizePtr, hptr, sizePtr, hx.load_control]
      rw [ibSizeG_link, ibSizeG_ofNat hn]

/-! ## The two phases of a stream -/

/-- What holds of a graphics or compute stream, with or without `chain_ib`, at any time. -/
structure IpStream (chain : Bool) (cs : Cs) : Prop where
  chain : cs.chainIb = chain
  ip : cs.hwIp = .gfx ∨ cs.hwIp = .compute
  status : cs.status = .success
  dvd : 64 ∣ cs.maxDw + 4
  le : cs.maxDw + 4 ≤ 2 ^ 19

/-- The stream records into BO `b` at address `va`; `cur` was emitted since the last grow. -/
structure Filling (chain : Bool) (ws : Ws) (cs : Cs) (closed : List Part) (b : BoId)
    (va : BitVec 64) (cur : List (BitVec 32)) : Prop where
  stream : IpStream chain cs
  buf : cs.buf = some b
  ibBuffer : cs.ibBuffer = some b
  cdw : cs.cdw = cur.length
  live : ∃ bo, ws.bos b = some bo ∧ bo.va = va ∧ bo.size = 4 * (cs.maxDw + 4) ∧ Begins bo.dw cur
  nodup : (b :: closed.map Part.bo).Nodup

/-- A stream with `chain_ib` that is being recorded. -/
structure Recording (ws : Ws) (cs : Cs) (closed : List Part) (b : BoId) (va : BitVec 64)
    (cur : List (BitVec 32)) : Prop extends Filling true ws cs closed b va cur where
  fits : cur.length ≤ cs.maxDw
  links : Links ws closed va 0
  ptr : cs.ibSizePtr = sizePtr closed
  ibs : cs.ibBuffers = closed.reverse.map Part.ib
  addr : cs.ibMcAddress = (first closed va 0).1
  size : cs.ibSize = BitVec.ofNat 32 (first closed va 0).2

/-- The stream is finalized: `x` is its last IB, which ends in `tail`, and `rest` the others. -/
structure Finalized (ws : Ws) (cs : Cs) (x : Part) (rest : List Part) (tail : List (BitVec 32)) :
    Prop where
  stream : IpStream true cs
  buf : cs.buf = some x.bo
  ibBuffer : cs.ibBuffer = none
  cdw : cs.cdw = x.size
  holds : x.Holds ws tail
  links : Links ws rest x.va x.size
  ibs : cs.ibBuffers = (x :: rest).reverse.map Part.ib
  addr : cs.ibMcAddress = (first rest x.va x.size).1
  size : cs.ibSize = BitVec.ofNat 32 (first rest x.va x.size).2
  nodup : ((x :: rest).map Part.bo).Nodup

theorem Recording.frame {closed : List Part} (h : Recording ws cs closed b va cur)
    (heq : ∀ b' ∈ b :: closed.map Part.bo, ws'.bos b' = ws.bos b') :
    Recording ws' cs closed b va cur :=
  { h with
    live := by rw [heq b (by simp)]; exact h.live
    links := h.links.frame fun b' hb => heq b' (mem_cons_of_mem _ hb) }

theorem Finalized.frame (h : Finalized ws cs x rest tail)
    (heq : ∀ b' ∈ (x :: rest).map Part.bo, ws'.bos b' = ws.bos b') : Finalized ws' cs x rest tail :=
  { h with
    holds := h.holds.frame (heq x.bo (by simp))
    links := h.links.frame fun b' hb => heq b' (by rw [map_cons]; exact mem_cons_of_mem _ hb) }

/-! ## Finalizing -/

/-- The stream after `csClose` has padded its IB and patched the size of the link to it. -/
def Cs.closed (cs : Cs) (cdw : ℕ) (size : ℕ) : Cs :=
  { cs with cdw := cdw, ibSize := BitVec.ofNat 32 size }

lemma csClose_recording (info : Info) {closed : List Part} (h : Recording ws cs closed b va cur) :
    ∃ ws' pad body, body.length = 3 ∧
      let x : Part := ⟨b, va, cur, pad⟩
      csClose info ⟨ws, cs⟩ = ⟨ws', cs.closed x.size (first closed va x.size).2⟩ ∧
      x.Holds ws' (pkt3 pkt3Nop 2 0 :: body) ∧ Links ws' closed va x.size ∧
      Ws.Writes (b :: closed.map Part.bo) ws ws' ∧
      (ibSizeG (St.readSizePtr ⟨ws', cs.closed x.size (first closed va x.size).2⟩)).toNat = x.size := by
  obtain ⟨bo, hbo, hva, hsize, hbeg⟩ := h.live
  have hcdw := h.cdw
  have hfits := h.fits
  have hle := h.stream.le
  obtain ⟨f, pad, body, heq, hlen, hnops, hpad, hbegins⟩ := chainPadding info hbo h.buf h.stream.ip
    h.stream.dvd (by omega) (by omega)
  let x : Part := ⟨b, va, cur, pad⟩
  have hx : cs.cdw + pad.length + 4 = x.size := by
    simp only [x, Part.size, hcdw]
  have hsmall : x.size < 2 ^ 20 := by omega
  have hb : ∀ b' ∈ closed.map Part.bo, b' ≠ b := by
    intro b' hb' heq
    exact (nodup_cons.mp h.nodup).1 (heq ▸ hb')
  have hwrites := Ws.writes_setDw hbo f
  have hlinks : Links (ws.setDw b bo f) closed va 0 :=
    h.links.frame fun b' hb' => Ws.setDw_bos_of_ne ws bo f (hb b' hb')
  have hholds : x.Holds (ws.setDw b bo f) (pkt3 pkt3Nop 2 0 :: body) :=
    ⟨⟨_, Ws.setDw_bos_self .., hva, by simp only; omega, hbegins cur hcdw.symm hbeg⟩,
      by simp [hlen], hsmall, hnops⟩
  obtain ⟨ws', heq3, hlinks', hwrites', hread⟩ :=
    @orSizePtr_links _ { cs with cdw := x.size } _ _ _ hlinks h.ptr h.size
      (nodup_cons.mp h.nodup).2 hsmall
  refine ⟨ws', pad, body, hlen, ?_, ?_, hlinks', ?_, hread⟩
  · simp only [csClose, h.stream.chain, if_true]
    rw [heq, hx]
    exact heq3
  · -- the size field lies in another BO
    refine hholds.frame (hwrites'.others b fun hmem => hb b hmem rfl)
  · exact (hwrites.mono (by simp)).trans (hwrites'.mono (by simp))

/-- `csFinalize` closes the IB that is being recorded. -/
theorem csFinalize_recording (info : Info) {closed : List Part}
    (h : Recording ws cs closed b va cur) :
    ∃ ws' cs' pad body, csFinalize info ⟨ws, cs⟩ = ⟨ws', cs'⟩ ∧ body.length = 3 ∧
      Finalized ws' cs' ⟨b, va, cur, pad⟩ closed (pkt3 pkt3Nop 2 0 :: body) ∧
      Ws.Writes (b :: closed.map Part.bo) ws ws' ∧ cs'.chainedTo = none := by
  obtain ⟨ws', pad, body, hlen, heq, hholds, hlinks, hwrites, hread⟩ := csClose_recording info h
  obtain ⟨bo, hbo, hva, -, -⟩ := hholds.live
  have haddr : ws'.boVa (some b) = va := by
    simp only [Ws.boVa, bind_some]
    rw [hbo]
    exact hva
  let x : Part := ⟨b, va, cur, pad⟩
  have hchain : (cs.closed x.size (first closed va x.size).2).chainIb = true := h.stream.chain
  have hfin : csFinalize info ⟨ws, cs⟩ = ⟨ws', { cs.closed x.size (first closed va x.size).2 with
      ibBuffers := cs.ibBuffers ++ [x.ib], ibBuffer := none, chainedTo := none }⟩ := by
    simp only [csFinalize, heq, csAddIbBuffer]
    rw [if_pos hchain, hread]
    simp only [Cs.closed, h.ibBuffer, haddr, getD_some, Part.ib, x]
  refine ⟨_, _, pad, body, hfin, hlen, ?_, hwrites, rfl⟩
  refine
    { stream := { h.stream with }
      buf := h.buf
      ibBuffer := rfl
      cdw := rfl
      holds := hholds
      links := hlinks
      ibs := ?_
      addr := ?_
      size := rfl
      nodup := h.nodup }
  · simp only [h.ibs, reverse_cons, map_append, map_singleton, x]
  · have hfirst : (first closed va x.size).1 = (first closed va 0).1 := by
      cases closed <;> rfl
    exact h.addr.trans hfirst.symm

/-! ## Linking, chaining and unchaining -/

lemma Part.Holds.storeLink (h : x.Holds ws tail) (va : BitVec 64) (control : BitVec 32) :
    x.Holds (ws.storeLink (some x.bo) x.size va control) (linkPacket va control) ∧
      Ws.Writes [x.bo] ws (ws.storeLink (some x.bo) x.size va control) := by
  obtain ⟨h0, w0⟩ := h.store_tail 0 (by decide) _
  obtain ⟨h1, w1⟩ := h0.store_tail 1 (by decide) (va.setWidth 32)
  obtain ⟨h2, w2⟩ := h1.store_tail 2 (by decide) _
  obtain ⟨h3, w3⟩ := h2.store_tail 3 (by decide) control
  refine ⟨?_, w0.trans (w1.trans (w2.trans w3))⟩
  -- after four stores nothing of the old tail is left
  obtain ⟨a, b, c, d, rfl⟩ := length_eq_four.mp h.four
  exact h3

section

variable (h : Finalized ws cs x rest tail)
include h

/-- Rewriting the last dwords of a finalized stream leaves everything else in place. -/
theorem Finalized.retail {tail' : List (BitVec 32)} (hholds : x.Holds ws' tail')
    (hwrites : Ws.Writes [x.bo] ws ws') (chainedTo : Option CsId) :
    Finalized ws' { cs with chainedTo := chainedTo } x rest tail' :=
  { h with
    stream := { h.stream with }
    holds := hholds
    links := h.links.writes hwrites (nodup_cons.mp h.nodup).1 }

lemma csChain_finalized (next : CsId) (nextCs : Cs) (preEna : Bool) :
    ∃ ws', csChain ⟨ws, cs⟩ next nextCs preEna =
        (true, ⟨ws', { cs with chainedTo := some next }⟩) ∧
      Finalized ws' { cs with chainedTo := some next } x rest
        (linkPacket nextCs.ibMcAddress (ibChainValid ||| ibPreEnaS preEna ||| nextCs.ibSize)) ∧
      Ws.Writes [x.bo] ws ws' := by
  obtain ⟨hholds, hwrites⟩ := h.holds.storeLink nextCs.ibMcAddress _
  refine ⟨_, ?_, ?_, hwrites⟩
  · simp only [csChain, h.stream.chain, h.buf, h.cdw]
    rfl
  · exact h.retail hholds hwrites _

lemma csUnchain_finalized (hchained : cs.chainedTo ≠ none) :
    ∃ ws', csUnchain ⟨ws, cs⟩ = ⟨ws', { cs with chainedTo := none }⟩ ∧
      Finalized ws' { cs with chainedTo := none } x rest (tail.set 0 (pkt3 pkt3Nop 2 0)) ∧
      Ws.Writes [x.bo] ws ws' := by
  obtain ⟨hholds, hwrites⟩ := h.holds.store_tail 0 (by decide) _
  refine ⟨_, ?_, ?_, hwrites⟩
  · have hsome : cs.chainedTo.isNone = false := by
      rw [isNone_eq_false_iff]
      exact isSome_iff_ne_none.mpr hchained
    simp only [csUnchain, hsome, h.buf, h.cdw]
    rfl
  · exact h.retail hholds hwrites _

end

/-! ## Growing and emitting -/

/-- `csAddBuffer` only touches the buffer list. -/
theorem csAddBuffer_eq (s : St) (b : Option BoId) :
    ∃ l, csAddBuffer s b = { s with cs := { s.cs with buffers := l } } := by
  unfold csAddBuffer
  split
  · split_ifs
    · exact ⟨s.cs.buffers, rfl⟩
    · exact ⟨s.cs.buffers, rfl⟩
    · exact ⟨s.cs.buffers, rfl⟩
    · exact ⟨_, rfl⟩
  · exact ⟨s.cs.buffers, rfl⟩

/-- The stream after a grow into BO `b` of `n` bytes. -/
def Cs.grown (cs : Cs) (b : BoId) (n : ℕ) (l : BufferList) : Cs :=
  { cs with
    ibBuffer := some b, ibMapped := some b, buffers := l, buf := some b, cdw := 0, reservedDw := 0,
    maxDw := n / 4 - 4 }

lemma growTail_eq (n : ℕ) (ws : Ws) (cs : Cs) (b : BoId) :
    ∃ l, (cs.chainIb = false → growTail n .success true ⟨ws, { cs with ibBuffer := some b }⟩ =
        ⟨ws, cs.grown b n l⟩) ∧
      ∀ b0 k, cs.chainIb = true → cs.buf = some b0 → cs.cdw = k →
        growTail n .success true ⟨ws, { cs with ibBuffer := some b }⟩ =
          ⟨ws.storeLink (some b0) k (ws.boVa (some b)) ibChainValid,
            { cs.grown b n l with ibSizePtr := .dword b0 (sub32 k 1) }⟩ := by
  obtain ⟨l, hl⟩ := csAddBuffer_eq ⟨ws, { cs with ibBuffer := some b, ibMapped := some b }⟩ (some b)
  simp only [growTail, ne_eq, not_true_eq_false, if_false, if_true, isNone_some, Bool.false_eq_true, hl]
  refine ⟨l, fun hchain => ?_, fun b0 k hchain hbuf hcdw => ?_⟩
  · simp only [hchain, Bool.false_eq_true, if_false, Cs.grown]
  · simp only [hchain, if_true, linkNewIb, hbuf, hcdw, Ws.storeLink, getD_some, Cs.grown]

/-- A successful grow, from the BO it obtained on: the finalized IB is linked to the new one. -/
theorem growTail_finalized (h : Finalized ws cs x rest tail) (hn : IbBytes n)
    (hb : b ∉ (x :: rest).map Part.bo) (hbo : ws.bos b = some bo) (hsize : bo.size = n) :
    ∃ ws' cs', growTail n .success true ⟨ws, { cs with ibBuffer := some b }⟩ = ⟨ws', cs'⟩ ∧
      Recording ws' cs' (x :: rest) b bo.va [] ∧ Ws.Writes [x.bo] ws ws' := by
  obtain ⟨hholds, hwrites⟩ := h.holds.storeLink bo.va ibChainValid
  obtain ⟨hdw, hdvd, hle⟩ := hn.dwords
  obtain ⟨l, -, hgrow⟩ := growTail_eq n ws cs b
  have hgrow := hgrow x.bo x.size h.stream.chain h.buf h.cdw
  have hva : ws.boVa (some b) = bo.va := by simp [Ws.boVa, hbo]
  rw [hva, h.holds.sub32_one] at hgrow
  have hlive : (ws.storeLink (some x.bo) x.size bo.va ibChainValid).bos b = some bo := by
    rw [hwrites.others b fun hmem => hb (by simp at hmem; simp [hmem]), hbo]
  refine ⟨_, _, hgrow, ?_, hwrites⟩
  exact
    { stream := { h.stream with dvd := hdvd, le := hle }
      buf := rfl
      ibBuffer := rfl
      cdw := rfl
      fits := zero_le _
      live := ⟨bo, hlive, rfl, hsize.trans hdw, .nil _⟩
      links := ⟨by simpa using hholds, h.links.writes hwrites (nodup_cons.mp h.nodup).1⟩
      ptr := rfl
      ibs := h.ibs
      addr := h.addr
      size := h.size
      nodup := nodup_cons.mpr ⟨hb, h.nodup⟩ }

section Write

variable {chain : Bool} {closed : List Part} {bo : Bo} (hbo : ws.bos b = some bo)
  {l : List (BitVec 32)} {f : ℕ → BitVec 32} (hf : Begins f (cur ++ l))
include hbo hf

/-- Dwords are appended to the current IB. -/
theorem Filling.write (h : Filling chain ws cs closed b va cur) :
    Filling chain (ws.setDw b bo f) { cs with cdw := cs.cdw + l.length } closed b va (cur ++ l) := by
  obtain ⟨bo', hbo', hva, hsize, -⟩ := h.live
  obtain rfl : bo' = bo := Option.some.inj (hbo'.symm.trans hbo)
  exact { h with
    stream := { h.stream with }
    cdw := by rw [h.cdw, length_append]
    live := ⟨_, Ws.setDw_bos_self .., hva, hsize, hf⟩ }

lemma Recording.write (h : Recording ws cs closed b va cur) (hroom : (cur ++ l).length ≤ cs.maxDw) :
    Recording (ws.setDw b bo f) { cs with cdw := cs.cdw + l.length } closed b va (cur ++ l) :=
  { h.toFilling.write hbo hf, h with
    fits := hroom
    links := h.links.writes (Ws.writes_setDw hbo f) (nodup_cons.mp h.nodup).1 }

end Write

/-- Emitting a dword for which there is room. -/
theorem radeonEmitUnchecked_recording {closed : List Part} (h : Recording ws cs closed b va cur)
    (hroom : cur.length < cs.maxDw) (v : BitVec 32) :
    ∃ ws', radeonEmitUnchecked ⟨ws, cs⟩ v = ⟨ws', { cs with cdw := cs.cdw + 1 }⟩ ∧
      Recording ws' { cs with cdw := cs.cdw + 1 } closed b va (cur ++ [v]) ∧
      Ws.Writes [b] ws ws' := by
  obtain ⟨bo, hbo, hva, hsize, hbeg⟩ := h.live
  have hcdw := h.cdw
  have hemit : radeonEmitUnchecked ⟨ws, cs⟩ v =
      ⟨ws.setDw b bo (Function.update bo.dw cs.cdw v), { cs with cdw := cs.cdw + 1 }⟩ := by
    have h' := radeonEmitUnchecked_setDw ws bo.dw v h.buf (show 4 * (cs.cdw + 1) ≤ bo.size by omega)
    rwa [Ws.setDw_dw hbo] at h'
  have hwrites := Ws.writes_setDw hbo (Function.update bo.dw cs.cdw v)
  refine ⟨_, hemit, h.write (l := [v]) hbo ?_ ?_, hwrites⟩
  · rw [hcdw]
    exact hbeg.store_end v
  · rw [length_append, length_singleton]
    exact hroom

end

end RadvXclipse.RadvAmdgpu
