import RadvXclipse.Winsys.CsRecorder

/-!
# Executing a secondary stream

`radv_amdgpu_cs_execute_secondary` executes a secondary stream (the child) from another (the parent)
by IB2 packets, one for each IB or one for the whole chain, or by copying the dwords of its IBs. The
loops are followed here from the parent's side: what the command processor executes for the parent
grows by what the IBs of the child give, unless a copied IB does not fit into any IB of the parent.
-/

namespace RadvXclipse.RadvAmdgpu

open Lib Util List Function Nat

section

variable {s : St} {n : NewBo} (info : Info)

lemma csEmitSecondaryIb2_eq (s : St) (child : Cs) (news : ℕ → NewBo) :
    csEmitSecondaryIb2 info s child news = emitIb2s info child.submitted news s := by
  unfold csEmitSecondaryIb2 Cs.submitted
  split_ifs <;> simp

variable (minSize : ℕ)

lemma csGrow_fields (n : NewBo) (hstatus : s.cs.status = .success) :
    (csGrow info s minSize (some n) true).cs.hwIp = s.cs.hwIp ∧
      (csGrow info s minSize (some n) true).cs.chainIb = s.cs.chainIb := by
  obtain ⟨ws, b, heq, -⟩ := csGrow_eq info minSize n hstatus
  obtain ⟨cdw, size, -, hcs⟩ := csClose_cs info s
  obtain ⟨l, hl⟩ := csAddBuffer_eq ⟨ws,
    { (csFinalize info s).cs with ibBuffer := some b, ibMapped := some b }⟩ (some b)
  rw [heq]
  simp only [growTail, ne_eq, not_true_eq_false, if_false, if_true, Option.isNone_some,
    Bool.false_eq_true, hl]
  split_ifs <;> simp [linkNewIb, csFinalize, csAddIbBuffer, hcs]

/-- A store outside of a BO stays on record. -/
theorem csGrow_badStore (n : NewBo)
    (h : s.ws.badStore = true ∨ s.cs.status = .success ∧ (csFinalize info s).ws.badStore = true) :
    (csGrow info s minSize (some n) true).ws.badStore = true := by
  by_cases hstatus : s.cs.status = .success
  · obtain ⟨ws, b, -, hobtains, halike⟩ := csGrow_eq info minSize n hstatus
    have hfin : (csFinalize info s).ws.badStore = true := by
      rcases h with h | h
      · exact (alike_csClose info s).ws.badStore h
      · exact h.2
    refine halike.ws.badStore ?_
    cases hobtains <;> exact hfin
  · rw [csGrow, if_pos hstatus]
    exact h.resolve_right fun h => hstatus h.1

/-! ## New BOs -/

/-- The kernel's promise about the next `k` BOs it will give: they are new, and differ from each
other. -/
structure Supply (ws : Ws) (news : ℕ → NewBo) (k : ℕ) : Prop where
  fresh : ∀ i < k, ws.Fresh (news i)
  apart : ∀ i < k, ∀ j < k, i ≠ j → (news i).id ≠ (news j).id ∧ (news i).va ≠ (news j).va

lemma Ws.Fresh.alike {ws ws' : Ws} (h : ws.Fresh n) (ha : ws.Alike ws') : ws'.Fresh n :=
  h.of_shape ha.shape

lemma csGrow_fresh {m : NewBo} (h : s.ws.Fresh m) (hid : n.id ≠ m.id) (hva : n.va ≠ m.va) :
    (csGrow info s minSize (some n) true).ws.Fresh m := by
  by_cases hstatus : s.cs.status = .success
  · obtain ⟨ws, b, -, hobtains, halike⟩ := csGrow_eq info minSize n hstatus
    have hfin : (csFinalize info s).ws.Fresh m := h.alike (alike_csClose info s).ws
    refine Ws.Fresh.alike ?_ halike.ws
    cases hobtains with
    | cached => exact hfin
    | created hn hbo =>
      cases hn
      refine ⟨(update_of_ne hid.symm ..).trans hfin.1, fun b' bo' hb' => ?_⟩
      dsimp only at hb'
      by_cases hb : b' = n.id
      · rw [hb, update_self, Option.some.injEq] at hb'
        rw [← hb', hbo]
        exact hva
      · rw [update_of_ne hb] at hb'
        exact hfin.2 b' bo' hb'
  · rw [csGrow, if_pos hstatus]
    exact h

end

section

variable {s : St} {news : ℕ → NewBo} {k : ℕ}

lemma Supply.tail {ws : Ws} (h : Supply ws news (k + 1)) : Supply ws (fun i => news (i + 1)) k :=
  ⟨fun i hi => h.fresh (i + 1) (by omega),
    fun i hi j hj hij => h.apart _ (by omega) _ (by omega) (by omega)⟩

theorem Supply.grow (info : Info) (h : Supply s.ws news (k + 1)) (n : ℕ) :
    Supply (csGrow info s n (some (news 0)) true).ws (fun i => news (i + 1)) k := by
  refine ⟨fun i hi => ?_, h.tail.apart⟩
  have happart := h.apart 0 (by omega) (i + 1) (by omega) (by omega)
  exact csGrow_fresh info n (h.tail.fresh i hi) happart.1 happart.2

lemma Supply.makeRoom (info : Info) (h : Supply s.ws news (k + 1)) (n : ℕ) :
    Supply (csMakeRoom info s n (some (news 0)) true).ws (fun i => news (i + 1)) k := by
  unfold csMakeRoom
  split_ifs
  · exact h.grow info n
  · exact h.tail

theorem Supply.writes {ws ws' : Ws} {bs : List BoId} (h : Supply ws news k)
    (hw : Ws.Writes bs ws ws') : Supply ws' news k :=
  ⟨fun i hi => (h.fresh i hi).writes hw, h.apart⟩

lemma Supply.mono {ws : Ws} {k' : ℕ} (h : Supply ws news k) (hle : k' ≤ k) : Supply ws news k' :=
  ⟨fun i hi => h.fresh i (by omega), fun i hi j hj => h.apart i (by omega) j (by omega)⟩

end

/-! ## The parent -/

/-- What executing the dwords emitted so far gives. -/
def Yields (info : Info) (ws : Ws) (reads : BoId → Prop) (closed : List Part)
    (cur : List (BitVec 32)) (out : List Packet) : Prop :=
  ∃ outs o, Forall₂ (fun x o => CpExec info ws reads false x.chunk false o) closed outs ∧
    CpExec info ws reads false cur false o ∧ out = outs.reverse.flatten ++ o

/-- The parent is recorded next to streams whose BOs are `used`. It may execute the BOs that
`reads` says as IB2s; they are not its own, and are as they were in `ws0`. -/
structure Parent (info : Info) (ws0 : Ws) (used reads : BoId → Prop) (s : St) (closed : List Part)
    (b : BoId) (va : BitVec 64) (cur : List (BitVec 32)) (out : List Packet) : Prop where
  recorder : Recorder s.ws s.cs closed b va cur
  yields : Yields info ws0 reads closed cur out
  ok : WsOk s.ws fun b => used b ∨ b ∈ s.cs.owned
  apart : ∀ b, reads b → used b ∧ b ∉ s.cs.owned
  memory : ∀ b, reads b → s.ws.bos b = ws0.bos b
  room : s.cs.maxDw ≤ maxIbDw info s.cs.hwIp
  badStore : s.ws.badStore = false

section

variable {info : Info} {ws0 : Ws} {used reads : BoId → Prop} {s : St} {closed : List Part}
  {b : BoId} {va : BitVec 64} {cur : List (BitVec 32)} {out : List Packet}

theorem Parent.grow (h : Parent info ws0 used reads s closed b va cur out) (minSize : ℕ)
    {n : NewBo} (hfresh : s.ws.Fresh n) :
    ∃ pad b' va', Parent info ws0 used reads (csGrow info s minSize (some n) true)
      (⟨b, va, cur, pad⟩ :: closed) b' va' [] out := by
  obtain ⟨ws', cs', pad, b', va', heq, hrec, hadv, hbad⟩ :=
    h.recorder.grow info minSize h.ok (fun _ hb => Or.inr hb) hfresh
  obtain ⟨hip, -⟩ := csGrow_fields info minSize n h.recorder.stream.status
  have hmax := csGrow_maxDw info minSize h.recorder.stream.status (some n) true
  obtain ⟨hroom, -, -⟩ := growIbSize_room info s.cs minSize
  have happart : ∀ b, reads b → b ∉ cs'.owned := by
    intro b hb hmem
    rcases hadv.fresh b hmem with hown | hnot
    · exact (h.apart b hb).2 hown
    · exact hnot (Or.inl (h.apart b hb).1)
  have hused : (fun b => (used b ∨ b ∈ s.cs.owned) ∨ b ∈ cs'.owned) = fun b => used b ∨ b ∈ cs'.owned := by
    funext b
    rw [or_assoc, or_iff_right_of_imp (a := b ∈ s.cs.owned) fun hb => hadv.sub hb]
  obtain ⟨outs, o, hclosed, hcur, rfl⟩ := h.yields
  refine ⟨pad, b', va', ?_⟩
  rw [heq] at hip hmax ⊢
  exact
    { recorder := hrec
      yields := ⟨o :: outs, [], .cons hcur hclosed, .done false, by simp⟩
      ok := hused ▸ hadv.ok
      apart := fun b hb => ⟨(h.apart b hb).1, happart b hb⟩
      memory := fun b hb => (hadv.frame b (happart b hb)).trans (h.memory b hb)
      room := by
        rw [hmax, hip]
        exact hroom
      badStore := hbad.trans h.badStore }

theorem Parent.reserve (h : Parent info ws0 used reads s closed b va cur out) (r : ℕ)
    (l : BufferList) :
    Parent info ws0 used reads { s with cs := { s.cs with reservedDw := r, buffers := l } } closed b
      va cur out :=
  { h with recorder := h.recorder.reserve r l }

section

variable {n : ℕ} {bo : Bo} {o : List Packet} {ws : Ws} {ib : Ib} {ibs : List Ib}
  {os : List (List Packet)} {news : ℕ → NewBo} {child : Cs}

section

variable (h : Parent info ws0 used reads s closed b va cur out)
include h

/-- Room for `n` dwords, unless no IB has it. -/
theorem Parent.makeRoom (hn : n < 2 ^ 20) {new : NewBo} (hfresh : s.ws.Fresh new) :
    ∃ t closed' b' va' cur', csMakeRoom info s n (some new) true = t ∧
      Parent info ws0 used reads t closed' b' va' cur' out ∧ t.cs.chainIb = s.cs.chainIb ∧
      t.cs.hwIp = s.cs.hwIp ∧ (n ≤ maxIbDw info s.cs.hwIp → cur'.length + n ≤ t.cs.maxDw) ∧
      (maxIbDw info s.cs.hwIp < n → cur' = [] ∧ t.cs.maxDw = maxIbDw info s.cs.hwIp) := by
  have hcdw := h.recorder.cdw
  have hroom := h.room
  refine ⟨csMakeRoom info s n (some new) true, ?_⟩
  by_cases hgrow : s.cs.cdw + n > s.cs.maxDw
  · obtain ⟨pad, b', va', hparent⟩ := h.grow n hfresh
    obtain ⟨hip, hchain⟩ := csGrow_fields info n new h.recorder.stream.status
    have hmax := csGrow_maxDw info n h.recorder.stream.status (some new) true
    obtain ⟨-, hfits, hover⟩ := growIbSize_room info s.cs n
    refine ⟨⟨b, va, cur, pad⟩ :: closed, b', va', [], rfl, ?_, ?_⟩
    · simp only [csMakeRoom, if_pos hgrow]
      exact hparent.reserve _ _
    · simp only [csMakeRoom, if_pos hgrow, hip, hchain, hmax, length_nil, zero_add, true_and]
      exact ⟨hfits, hover hn⟩
  · refine ⟨closed, b, va, cur, rfl, ?_, ?_⟩
    · simp only [csMakeRoom, if_neg hgrow]
      exact h.reserve _ _
    · simp only [csMakeRoom, if_neg hgrow, true_and]
      exact ⟨fun _ => by omega, fun hlt => absurd hlt (by omega)⟩

/-- Appending dwords appends what executing them gives. -/
theorem Parent.write (hbo : s.ws.bos b = some bo) {block : List (BitVec 32)} {f : ℕ → BitVec 32}
    (hf : Begins f (cur ++ block)) (hroom : cur.length + block.length ≤ s.cs.limit)
    (hblock : CpExec info ws0 reads false block false o) :
    Parent info ws0 used reads
      ⟨s.ws.setDw b bo f, { s.cs with cdw := s.cs.cdw + block.length }⟩ closed b va (cur ++ block)
      (out ++ o) := by
  have hw := Ws.writes_setDw hbo f
  obtain ⟨outs, o', hclosed, hcur, rfl⟩ := h.yields
  exact
    { recorder := h.recorder.write hbo hf hroom
      yields := ⟨outs, o' ++ o, hclosed, hcur.append hblock, append_assoc ..⟩
      ok := h.ok.writes hw
      apart := h.apart
      memory := by
        intro b' hb'
        have hne : b' ≠ b := by
          rintro rfl
          exact (h.apart b' hb').2 h.recorder.mem_owned
        exact (Ws.setDw_bos_of_ne s.ws bo f hne).trans (h.memory b' hb')
      room := h.room
      badStore := h.badStore }

end

/-! ## One IB of the child -/

theorem Parent.emit (h : Parent info ws0 used reads s closed b va cur out)
    {block : List (BitVec 32)} {o : List Packet} (hroom : cur.length + block.length ≤ s.cs.limit)
    (hblock : CpExec info ws0 reads false block false o) :
    Parent info ws0 used reads (block.foldl radeonEmitUnchecked s) closed b va (cur ++ block)
        (out ++ o) ∧
      Ws.Writes [b] s.ws (block.foldl radeonEmitUnchecked s).ws ∧
      (block.foldl radeonEmitUnchecked s).cs = { s.cs with cdw := s.cs.cdw + block.length } := by
  obtain ⟨bo, hbo, -, hsize, hbeg⟩ := h.recorder.live
  have hcdw := h.recorder.cdw
  have hlimit := s.cs.limit_le
  obtain ⟨f, heq, hf⟩ := emitAll_setDw s.ws b bo block bo.dw s.cs h.recorder.buf (by omega)
  rw [Ws.setDw_dw hbo] at heq
  rw [heq]
  exact ⟨h.write hbo (hf cur hcdw.symm hbeg) hroom hblock, Ws.writes_setDw hbo f, rfl⟩

/-- An IB2 packet stands for the packets of the IB it executes. -/
theorem cpExec_ib2 (hsmall : ib.cdw < 2 ^ 20) (h : IbExec info ws0 reads true ib.va ib.cdw o) :
    CpExec info ws0 reads false (linkPacket ib.va (BitVec.ofNat 32 ib.cdw)) false o := by
  obtain ⟨dws, jumped, hfetch, hlen, hexec⟩ := h
  have hchain : ibChainG (BitVec.ofNat 32 ib.cdw) ≠ 1 := by
    rw [ibChainG, ofNat_shiftRight_eq_zero hsmall]
    decide
  have hcall := CpExec.call hchain hfetch (by rw [ibSizeG_ofNat hsmall]; exact hlen) hexec (.done false)
  rwa [append_nil, append_nil] at hcall

/-- What copying `n` dwords of the IB reads, and what executing them gives. -/
structure Copies (info : Info) (ws : Ws) (reads : BoId → Prop) (ib : Ib) (n : ℕ) (o : List Packet) :
    Prop where
  readable : reads ib.bo
  block : ∃ bo block, ws.bos ib.bo = some bo ∧ block.length = n ∧ 4 * n ≤ bo.size ∧
    Begins bo.dw block ∧ CpExec info ws reads false block false o

section

variable (h : Parent info ws0 used reads s closed b va cur out)
include h

theorem Parent.copy (hib : Copies info ws0 reads ib n o) (hroom : cur.length + n ≤ s.cs.limit) :
    ∃ cur', Parent info ws0 used reads
        ⟨s.ws.memcpy s.cs.buf s.cs.cdw ib.bo n, { s.cs with cdw := s.cs.cdw + n }⟩ closed b va cur'
        (out ++ o) ∧
      Ws.Writes [b] s.ws (s.ws.memcpy s.cs.buf s.cs.cdw ib.bo n) := by
  obtain ⟨bo', block, hbo', rfl, hread, hbeg', hblock⟩ := hib.block
  obtain ⟨bo, hbo, -, hsize, hbeg⟩ := h.recorder.live
  have hcdw := h.recorder.cdw
  have hlimit := s.cs.limit_le
  rw [← h.memory ib.bo hib.readable] at hbo'
  rw [h.recorder.buf, Ws.memcpy_setDw hbo hbo' (by omega) hread, hcdw]
  have hwrite := h.write hbo (hbeg.copy_end hbeg') hroom hblock
  rw [hcdw] at hwrite
  exact ⟨_, hwrite, Ws.writes_setDw hbo _⟩

/-! ## All IBs of the child -/

lemma Parent.of_emitIb2s (hnews : Supply s.ws news ibs.length)
    (hibs : Forall₂ (fun ib o => ib.cdw < 2 ^ 20 ∧ IbExec info ws0 reads true ib.va ib.cdw o) ibs os) :
    ∃ closed' b' va' cur', Parent info ws0 used reads (emitIb2s info ibs news s) closed' b' va' cur'
      (out ++ os.flatten) := by
  induction hibs generalizing s closed b va cur out news with
  | nil =>
    rw [flatten_nil, append_nil]
    exact ⟨closed, b, va, cur, h⟩
  | @cons ib o ibs os hib _ ih =>
    have hge := le_maxIbDw info s.cs.hwIp
    obtain ⟨t, closed1, b1, va1, cur1, heq, ht, -, -, hroom, -⟩ :=
      h.makeRoom (show 4 < 2 ^ 20 by decide) (hnews.fresh 0 (succ_pos _))
    have hlimit := t.cs.limit_le
    have hlink : cur1.length + (linkPacket ib.va (BitVec.ofNat 32 ib.cdw)).length ≤ t.cs.limit := by
      simp only [linkPacket, length_cons, length_nil]
      omega
    obtain ⟨hemit, hw, -⟩ := ht.emit hlink (cpExec_ib2 hib.1 hib.2)
    have hsupply := hnews.makeRoom info 4
    rw [heq] at hsupply
    obtain ⟨closed2, b2, va2, cur2, hrest⟩ := ih hemit (hsupply.writes hw)
    refine ⟨closed2, b2, va2, cur2, ?_⟩
    have hcode : emitCpIndirectBuffer t ib.va ib.cdw false false false =
        (linkPacket ib.va (BitVec.ofNat 32 ib.cdw)).foldl radeonEmitUnchecked t := by
      simp [emitCpIndirectBuffer, linkPacket]
    rw [flatten_cons, ← append_assoc, emitIb2s, emitIb2, heq, hcode]
    exact hrest

lemma Parent.of_copyIbs (hnews : Supply s.ws news ibs.length)
    (hibs : Forall₂ (fun ib o => Copies info ws0 reads ib (child.copyDw ib) o) ibs os)
    (hbound : ∀ ib ∈ ibs, child.copyDw ib ≤ maxIbDw info s.cs.hwIp + 4)
    (hfits : s.cs.chainIb = true → ∀ ib ∈ ibs, child.copyDw ib ≤ maxIbDw info s.cs.hwIp) :
    ∃ closed' b' va' cur', Parent info ws0 used reads (copyIbs info child ibs news s) closed' b' va'
      cur' (out ++ os.flatten) := by
  induction hibs generalizing s closed b va cur out news with
  | nil =>
    rw [flatten_nil, append_nil]
    exact ⟨closed, b, va, cur, h⟩
  | @cons ib o ibs os hib _ ih =>
    have hk : child.copyDw ib ≤ maxIbDw info s.cs.hwIp + 4 := hbound ib mem_cons_self
    have hcap := maxIbDw_le info s.cs.hwIp
    obtain ⟨t, closed1, b1, va1, cur1, heq, ht, hchain, hip, hroom, hover⟩ :=
      h.makeRoom (show child.copyDw ib < 2 ^ 20 by omega) (hnews.fresh 0 (succ_pos _))
    have hlimit : cur1.length + child.copyDw ib ≤ t.cs.limit := by
      by_cases hle : child.copyDw ib ≤ maxIbDw info s.cs.hwIp
      · exact (hroom hle).trans t.cs.limit_le.1
      · -- only a parent that does not chain gets here, in an IB of its own
        obtain ⟨rfl, hmax⟩ := hover (not_le.mp hle)
        have hflat : t.cs.chainIb = false := by
          rw [hchain, Bool.eq_false_iff]
          exact fun hc => hle (hfits hc ib mem_cons_self)
        rw [Cs.limit, hflat, hmax, length_nil, zero_add]
        exact hk
    obtain ⟨cur2, hcopy, hw⟩ := ht.copy hib hlimit
    have hsupply := hnews.makeRoom info (child.copyDw ib)
    rw [heq] at hsupply
    obtain ⟨closed3, b3, va3, cur3, hrest⟩ := ih hcopy (hsupply.writes hw)
      (fun ib' hib' => by rw [hip]; exact hbound ib' (mem_cons_of_mem _ hib'))
      (fun hc ib' hib' => by
        rw [hip]
        exact hfits (hchain.symm.trans hc) ib' (mem_cons_of_mem _ hib'))
    refine ⟨closed3, b3, va3, cur3, ?_⟩
    rw [flatten_cons, ← append_assoc, copyIbs, copyIb, heq]
    exact hrest

end

/-! ## Too many dwords -/

/-- A stream that chains has used dwords which its chaining packet needs. -/
structure Overfull (s : St) : Prop where
  chain : s.cs.chainIb = true
  ip : s.cs.hwIp = .gfx ∨ s.cs.hwIp = .compute
  status : s.cs.status = .success
  dvd : 64 ∣ s.cs.maxDw + 4
  live : ∃ b bo, s.cs.buf = some b ∧ s.ws.bos b = some bo ∧ bo.size = 4 * (s.cs.maxDw + 4)
  past : s.cs.maxDw < s.cs.cdw

/-- Padding leaves the position of the chaining packet aligned. -/
theorem padCount_aligned {ip : IpType} (hip : ip = .gfx ∨ ip = .compute) (cdw : ℕ) :
    8 ∣ cdw + padCount ip cdw 4 + 4 := by
  have hmask : ipTypeDwPaddingMinus1 ip = 7 := by rcases hip with rfl | rfl <;> rfl
  have hother : ip ≠ .vcnEnc ∧ ip ≠ .uvd := by rcases hip with rfl | rfl <;> decide
  simp only [padCount, hmask, if_neg hother.1, hother.2, false_and, if_false]
  split_ifs <;> omega

/-- The chaining packet of an overfull stream is stored outside of the IB. -/
theorem Overfull.finalize (h : Overfull s) : (csFinalize info s).ws.badStore = true := by
  obtain ⟨b, bo, hbuf, hbo, hsize⟩ := h.live
  have hover := h.past
  have hdvd := padCount_aligned h.ip s.cs.cdw
  have hdvd' := h.dvd
  have hpad := winsysCsPad_cs info s 4
  obtain ⟨bo', hbo', -, hsize'⟩ := exists_of_shape ((alike_winsysCsPad info s 4).ws.shape b) hbo
  have hout : ¬ 4 * (s.cs.cdw + padCount s.cs.hwIp s.cs.cdw 4) + 4 ≤ bo'.size := by omega
  have hnops : (csEmitNops info (winsysCsPad info s 4) 4).ws.badStore = true := by
    have hip : (winsysCsPad info s 4).cs.hwIp = .gfx ∨ (winsysCsPad info s 4).cs.hwIp = .compute := by
      rw [hpad]
      exact h.ip
    rw [csEmitNops, if_neg (by decide), if_pos ⟨by decide, hip⟩]
    simp [csEmitPkt3Nop, radeonEmitUnchecked, Ws.store, hpad, hbuf, hbo', hout]
  have hclose : (csClose info s).ws.badStore = true := by
    rw [csClose, if_pos h.chain]
    exact (alike_orSizePtr _ _).ws.badStore hnops
  exact hclose

lemma memcpy_badStore (h : ws.badStore = true) (buf : Option BoId) (pos : ℕ) (src : BoId) (n : ℕ) :
    (ws.memcpy buf pos src n).badStore = true := by
  unfold Ws.memcpy
  split
  · split
    · split_ifs
      · exact h
      · rfl
    · rfl
  · rfl

lemma copyIbs_badStore (ibs : List Ib) (news : ℕ → NewBo) (h : s.ws.badStore = true) :
    (copyIbs info child ibs news s).ws.badStore = true := by
  induction ibs generalizing s news with
  | nil => exact h
  | cons ib ibs ih =>
    refine ih _ (memcpy_badStore ?_ _ _ _ _)
    unfold csMakeRoom
    split_ifs
    · exact csGrow_badStore info _ _ (.inl h)
    · exact h

/-- However the copy goes on, the overfull IB is closed. -/
theorem Overfull.badStore_copyIbs (h : Overfull s) (ibs : List Ib) (news : ℕ → NewBo) :
    (csFinalize info (copyIbs info child ibs news s)).ws.badStore = true := by
  cases ibs with
  | nil => exact h.finalize
  | cons ib ibs =>
    have hover := h.past
    have hbad : (copyIbs info child (ib :: ibs) news s).ws.badStore = true := by
      refine copyIbs_badStore ibs _ (memcpy_badStore ?_ _ _ _ _)
      simp only [csMakeRoom, if_pos (show s.cs.cdw + child.copyDw ib > s.cs.maxDw by omega)]
      exact csGrow_badStore info _ _ (.inr ⟨h.status, h.finalize⟩)
    exact (alike_csClose info _).ws.badStore hbad

/-- A parent that chains cannot hold a copy which is larger than its largest IB. -/
theorem Parent.badStore_copyIbs (h : Parent info ws0 used reads s closed b va cur out)
    (hnews : Supply s.ws news ibs.length)
    (hibs : Forall₂ (fun ib o => Copies info ws0 reads ib (child.copyDw ib) o) ibs os)
    (hbound : ∀ ib ∈ ibs, child.copyDw ib ≤ maxIbDw info s.cs.hwIp + 4)
    (hchain : s.cs.chainIb = true) (hover : ∃ ib ∈ ibs, maxIbDw info s.cs.hwIp < child.copyDw ib) :
    (csFinalize info (copyIbs info child ibs news s)).ws.badStore = true := by
  induction hibs generalizing s closed b va cur out news with
  | nil =>
    obtain ⟨ib, hib, -⟩ := hover
    exact absurd hib not_mem_nil
  | @cons ib o ibs os hib _ ih =>
    have hk : child.copyDw ib ≤ maxIbDw info s.cs.hwIp + 4 := hbound ib mem_cons_self
    have hcap := maxIbDw_le info s.cs.hwIp
    obtain ⟨t, closed1, b1, va1, cur1, heq, ht, hchain1, hip, hroom, hlarge⟩ :=
      h.makeRoom (show child.copyDw ib < 2 ^ 20 by omega) (hnews.fresh 0 (succ_pos _))
    simp only [copyIbs, copyIb, heq, if_true]
    by_cases hle : child.copyDw ib ≤ maxIbDw info s.cs.hwIp
    · -- this IB fits, a later one does not
      obtain ⟨cur2, hcopy, hw⟩ := ht.copy hib ((hroom hle).trans t.cs.limit_le.1)
      have hsupply := hnews.makeRoom info (child.copyDw ib)
      rw [heq] at hsupply
      refine ih hcopy (hsupply.writes hw) (fun ib' hib' => ?_) (hchain1.trans hchain) ?_
      · rw [hip]
        exact hbound ib' (mem_cons_of_mem _ hib')
      · obtain ⟨ib', hib', hlt⟩ := hover
        refine ⟨ib', ?_, ?_⟩
        · rcases mem_cons.mp hib' with rfl | hib'
          · exact absurd hle (not_le.mpr hlt)
          · exact hib'
        · rw [hip]
          exact hlt
    · obtain ⟨rfl, hmax⟩ := hlarge (not_le.mp hle)
      obtain ⟨bo', block, hbo', hlen, hread, -, -⟩ := hib.block
      obtain ⟨bo, hbo, -, hsize, -⟩ := ht.recorder.live
      have hcdw := ht.recorder.cdw
      rw [length_nil] at hcdw
      rw [← ht.memory ib.bo hib.readable] at hbo'
      obtain ⟨bo2, hbo2, hsize2⟩ : ∃ bo2,
          (t.ws.memcpy t.cs.buf t.cs.cdw ib.bo (child.copyDw ib)).bos b1 = some bo2 ∧
          bo2.size = bo.size := by
        rw [ht.recorder.buf, Ws.memcpy_setDw hbo hbo' (by omega) hread]
        exact ⟨_, Ws.setDw_bos_self .., rfl⟩
      refine Overfull.badStore_copyIbs ?_ _ _
      exact
        { ht.recorder.stream with
          chain := hchain1.trans hchain
          live := ⟨b1, bo2, ht.recorder.buf, hbo2, hsize2.trans hsize⟩
          past := by
            simp only [hcdw, hmax]
            omega }

/-! ## Execution of the parent -/

/-- The command processor executes the stream as it is submitted. -/
def StreamExec (info : Info) (ws : Ws) (cs : Cs) (out : List Packet) : Prop :=
  ∃ os, Forall₂ (fun ib o => IbExec info ws (fun _ => True) false ib.va ib.cdw o) cs.submitted
    os ∧ os.flatten = out

lemma StreamExec.unique {cs : Cs} {out' : List Packet} (hinj : ws.VaInj)
    (h : StreamExec info ws cs out) (h' : StreamExec info ws cs out') : out = out' := by
  obtain ⟨os, hos, rfl⟩ := h
  obtain ⟨os', hos', rfl⟩ := h'
  have hright : Relator.RightUnique fun (ib : Ib) o =>
      IbExec info ws (fun _ => True) false ib.va ib.cdw o :=
    fun _ _ _ ho ho' => ho.unique hinj ho'
  rw [right_unique_forall₂' hright hos hos']

end

theorem Parent.finalize (h : Parent info ws0 used reads s closed b va cur out) :
    (csFinalize info s).ws.badStore = false ∧
      ∀ o, StreamExec info (csFinalize info s).ws (csFinalize info s).cs o ↔ o = out := by
  obtain ⟨ws', cs', pad, heq, hfin, hw⟩ := h.recorder.finalize info
  have heq' : csFinalize info s = ⟨ws', cs'⟩ := heq
  rw [heq']
  refine ⟨hw.badStore.trans h.badStore, ?_⟩
  have hmemory : ∀ b, reads b → ws'.bos b = ws0.bos b := fun b hb =>
    (hw.others b (h.apart b hb).2).trans (h.memory b hb)
  have hframe : ∀ {dws o}, CpExec info ws0 reads false dws false o →
      CpExec info ws' (fun _ => True) false dws false o :=
    fun hexec => hexec.frame (fun _ _ => trivial) hmemory
  obtain ⟨outs, o, hclosed, hcur, rfl⟩ := h.yields
  have hchunks : Forall₂ (fun x o => CpExec info ws' (fun _ => True) false x.chunk false o)
      (⟨b, va, cur, pad⟩ :: closed) (o :: outs) :=
    .cons (hframe hcur) (hclosed.imp fun _ _ hx => hframe hx)
  obtain ⟨os, hos, hflatten⟩ :=
    hfin.submitted_exec (fun _ _ => trivial) (fun hib2 => absurd hib2 (by decide)) hchunks
  have hexec : StreamExec info ws' cs' (outs.reverse.flatten ++ o) :=
    ⟨os, hos.imp fun _ _ hib => hib.2, by rw [hflatten]; simp⟩
  intro o'
  constructor
  · exact fun ho' => ho'.unique (h.ok.writes hw).va_inj hexec
  · rintro rfl
    exact hexec

end

end RadvXclipse.RadvAmdgpu
