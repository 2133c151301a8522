import RadvXclipse.Lib.Words
import RadvXclipse.Winsys.Cs

/-!
# What the command stream operations write

Every operation on a stream changes memory by stores into one BO at a time. `Ws.setDw` is the
winsys after such stores: the BO keeps its address and size, only its dwords differ. The lemmas
of this file say, for each operation that emits padding, which dwords it leaves behind.
-/

namespace RadvXclipse.RadvAmdgpu

open Lib Util List Function Nat

/-! ## Stores into one BO -/

/-- The winsys with the dwords of `b`, which is the BO `bo`, replaced. -/
def Ws.setDw (ws : Ws) (b : BoId) (bo : Bo) (f : ℕ → BitVec 32) : Ws :=
  { ws with bos := update ws.bos b (some { bo with dw := f }) }

@[simp] lemma Ws.setDw_bos_self (ws : Ws) (b : BoId) (bo : Bo) (f : ℕ → BitVec 32) :
    (ws.setDw b bo f).bos b = some { bo with dw := f } := by
  simp [Ws.setDw]

lemma Ws.setDw_bos_of_ne (ws : Ws) {b b' : BoId} (bo : Bo) (f : ℕ → BitVec 32) (h : b' ≠ b) :
    (ws.setDw b bo f).bos b' = ws.bos b' := by
  simp [Ws.setDw, h]

lemma Ws.setDw_dw {ws : Ws} {b : BoId} {bo : Bo} (h : ws.bos b = some bo) :
    ws.setDw b bo bo.dw = ws := by
  simp only [Ws.setDw]
  rw [update_eq_self_iff.mpr]
  rw [h]

lemma Ws.store_live {ws : Ws} {b : BoId} {bo : Bo} (h : ws.bos b = some bo) (idx : ℕ)
    (v : BitVec 32) (hi : 4 * idx + 4 ≤ bo.size) :
    ws.store (some b) idx v = ws.setDw b bo (update bo.dw idx v) := by
  simp [Ws.store, Ws.setDw, h, hi]

lemma Ws.setDw_store (ws : Ws) (b : BoId) {bo : Bo} (f : ℕ → BitVec 32) (idx : ℕ)
    (v : BitVec 32) (hi : 4 * idx + 4 ≤ bo.size) :
    (ws.setDw b bo f).store (some b) idx v = ws.setDw b bo (update f idx v) := by
  rw [Ws.store_live (Ws.setDw_bos_self ws b bo f) idx v hi]
  simp [Ws.setDw]

lemma Ws.memcpy_setDw {ws : Ws} {b src : BoId} {bo from_ : Bo} {pos n : ℕ}
    (hbo : ws.bos b = some bo) (hsrc : ws.bos src = some from_) (hfit : 4 * (pos + n) ≤ bo.size)
    (hread : 4 * n ≤ from_.size) :
    ws.memcpy (some b) pos src n = ws.setDw b bo fun i =>
      if pos ≤ i ∧ i < pos + n then from_.dw (i - pos) else bo.dw i := by
  simp [Ws.memcpy, Ws.setDw, hbo, hsrc, hfit, hread]

/-! ## NOP packets -/

/-- Dwords that the command processor skips: one-dword pads and `NOP` packets, whose body of
`count + 1` dwords is ignored. -/
inductive Nops : List (BitVec 32) → Prop
  | nil : Nops []
  | pad2 {l : List (BitVec 32)} : Nops l → Nops (pkt2NopPad :: l)
  | pad3 {l : List (BitVec 32)} : Nops l → Nops (pkt3NopPad :: l)
  | packet {count : ℕ} {body l : List (BitVec 32)} : count < 0x3fff → body.length = count + 1 →
      Nops l → Nops (pkt3 pkt3Nop (BitVec.ofNat 32 count) 0 :: (body ++ l))

lemma Nops.append {l m : List (BitVec 32)} (hl : Nops l) (hm : Nops m) : Nops (l ++ m) := by
  induction hl with
  | nil => exact hm
  | pad2 _ ih => exact .pad2 ih
  | pad3 _ ih => exact .pad3 ih
  | packet hc hb _ ih =>
    rw [cons_append, append_assoc]
    exact .packet hc hb ih

/-- The four dwords a finalized IB ends in while it is not chained. -/
theorem Nops.tail {body : List (BitVec 32)} (h : body.length = 3) :
    Nops (pkt3 pkt3Nop 2 0 :: body) := by
  have hp : Nops (pkt3 pkt3Nop (BitVec.ofNat 32 2) 0 :: (body ++ [])) := .packet (by decide) h .nil
  rwa [append_nil] at hp

lemma Nops.replicate {info : Info} {ip : IpType} (hip : ip = .gfx ∨ ip = .compute) (n : ℕ) :
    Nops (replicate n (getNopPacket info ip)) := by
  have hp : getNopPacket info ip = pkt2NopPad ∨ getNopPacket info ip = pkt3NopPad := by
    rcases hip with rfl | rfl <;> simp only [getNopPacket] <;> split <;> simp
  induction n with
  | zero => exact .nil
  | succ n ih =>
    rcases hp with hp | hp
    · rw [hp] at ih ⊢
      exact .pad2 ih
    · rw [hp] at ih ⊢
      exact .pad3 ih

/-! ## Emitting padding -/

/-- What an operation does that appends `n` dwords of padding to the current IB `b`: it stays
inside the BO, and on a queue with chaining the appended dwords are NOPs. -/
def Pads (op : St → St) (ws : Ws) (b : BoId) (bo : Bo) (f : ℕ → BitVec 32) (cs : Cs) (n : ℕ) :
    Prop :=
  ∃ f' pad, op ⟨ws.setDw b bo f, cs⟩ = ⟨ws.setDw b bo f', { cs with cdw := cs.cdw + n }⟩ ∧
    pad.length = n ∧ (cs.hwIp = .gfx ∨ cs.hwIp = .compute → Nops pad) ∧
    ∀ l : List (BitVec 32), l.length = cs.cdw → Begins f l → Begins f' (l ++ pad)

section Pads

variable {b : BoId} {bo : Bo} {cs : Cs} {n : ℕ}

lemma radeonEmitUnchecked_setDw (ws : Ws) (f : ℕ → BitVec 32) (v : BitVec 32)
    (hbuf : cs.buf = some b) (hfit : 4 * (cs.cdw + 1) ≤ bo.size) :
    radeonEmitUnchecked ⟨ws.setDw b bo f, cs⟩ v =
      ⟨ws.setDw b bo (update f cs.cdw v), { cs with cdw := cs.cdw + 1 }⟩ := by
  simp only [radeonEmitUnchecked, hbuf]
  rw [Ws.setDw_store ws b f cs.cdw v (by omega)]

/-- Emitting dwords for which there is room. -/
theorem emitAll_setDw (ws : Ws) (b : BoId) (bo : Bo) (block : List (BitVec 32)) :
    ∀ (f : ℕ → BitVec 32) (cs : Cs), cs.buf = some b → 4 * (cs.cdw + block.length) ≤ bo.size →
      ∃ f', block.foldl radeonEmitUnchecked ⟨ws.setDw b bo f, cs⟩ =
          ⟨ws.setDw b bo f', { cs with cdw := cs.cdw + block.length }⟩ ∧
        ∀ l : List (BitVec 32), l.length = cs.cdw → Begins f l → Begins f' (l ++ block) := by
  induction block with
  | nil =>
    intro f cs _ _
    exact ⟨f, rfl, fun l _ hl => by simpa using hl⟩
  | cons v block ih =>
    intro f cs hbuf hfit
    rw [length_cons] at hfit
    obtain ⟨f', heq, hbeg⟩ := ih _ { cs with cdw := cs.cdw + 1 } hbuf (by simp only; omega)
    refine ⟨f', ?_, fun l hlen hl => ?_⟩
    · rw [foldl_cons, radeonEmitUnchecked_setDw ws f v hbuf (by omega), heq, length_cons]
      simp only [add_assoc, add_comm 1]
    · have hl' := hbeg (l ++ [v]) (by simp [hlen]) (hlen ▸ hl.store_end v)
      rwa [append_assoc, singleton_append] at hl'

lemma emitNopLoop_eq (nop : BitVec 32) (n : ℕ) (s : St) :
    emitNopLoop nop n s = (replicate n nop).foldl radeonEmitUnchecked s := by
  induction n generalizing s with
  | zero => rfl
  | succ n ih => exact ih _

/-- A large NOP is its header followed by whatever the BO held there. -/
theorem csEmitPkt3Nop_setDw (ws : Ws) (f : ℕ → BitVec 32) (hbuf : cs.buf = some b)
    (hfit : 4 * (cs.cdw + n) ≤ bo.size) (hn : 2 ≤ n) :
    ∃ f' body, csEmitPkt3Nop ⟨ws.setDw b bo f, cs⟩ n =
        ⟨ws.setDw b bo f', { cs with cdw := cs.cdw + n }⟩ ∧ body.length = n - 1 ∧
      ∀ l : List (BitVec 32), l.length = cs.cdw → Begins f l →
        Begins f' (l ++ pkt3 pkt3Nop (BitVec.ofNat 32 (n - 2)) 0 :: body) := by
  let header := pkt3 pkt3Nop (BitVec.ofNat 32 (n - 2)) 0
  let f' := update f cs.cdw header
  refine ⟨f', (range (n - 1)).map fun i => f' (cs.cdw + 1 + i), ?_, ?_, fun l hlen hl => ?_⟩
  · simp only [csEmitPkt3Nop]
    rw [radeonEmitUnchecked_setDw ws f _ hbuf (by omega)]
    simp only [St.mk.injEq, Cs.mk.injEq, and_true, true_and, f', header]
    omega
  · rw [length_map, length_range]
  · have h1 : Begins f' (l ++ [header]) := by
      have := hl.store_end header
      rwa [hlen] at this
    have h2 := h1.skip (n - 1)
    rwa [length_append, length_singleton, hlen, append_assoc, singleton_append] at h2

variable (info : Info)

/-- `csEmitNops` appends the dwords it is asked for. -/
theorem csEmitNops_pads (ws : Ws) (f : ℕ → BitVec 32) (hbuf : cs.buf = some b)
    (hfit : 4 * (cs.cdw + n) ≤ bo.size) (hn : n ≤ 64) :
    Pads (fun s => csEmitNops info s n) ws b bo f cs n := by
  by_cases hzero : n = 0
  · subst hzero
    exact ⟨f, [], by simp [csEmitNops], rfl, fun _ => .nil, fun l _ hl => by simpa using hl⟩
  by_cases hlarge : n > 1 ∧ (cs.hwIp = .gfx ∨ cs.hwIp = .compute)
  · obtain ⟨f', body, heq, hlen, hbeg⟩ := csEmitPkt3Nop_setDw ws f hbuf hfit hlarge.1
    refine ⟨f', _, ?_, ?_, fun _ => ?_, hbeg⟩
    · simp only [csEmitNops, if_neg hzero, if_pos hlarge, heq]
    · rw [length_cons, hlen]
      omega
    · have hp := Nops.packet (show n - 2 < 0x3fff by omega) (show body.length = n - 2 + 1 by omega) .nil
      rwa [append_nil] at hp
  · have hlen := @length_replicate _ n (getNopPacket info cs.hwIp)
    obtain ⟨f', heq, hbeg⟩ := emitAll_setDw ws b bo _ f cs hbuf (by rw [hlen]; exact hfit)
    refine ⟨f', _, ?_, hlen, ?_, hbeg⟩
    · simp only [csEmitNops, if_neg hzero, if_neg hlarge, emitNopLoop_eq, heq, hlen]
    · intro hip
      exact Nops.replicate hip n

/-- The four NOPs that a chaining packet may replace. -/
theorem csEmitNops_four (ws : Ws) (f : ℕ → BitVec 32) (hip : cs.hwIp = .gfx ∨ cs.hwIp = .compute)
    (hbuf : cs.buf = some b) (hfit : 4 * (cs.cdw + 4) ≤ bo.size) :
    ∃ f' body, csEmitNops info ⟨ws.setDw b bo f, cs⟩ 4 =
        ⟨ws.setDw b bo f', { cs with cdw := cs.cdw + 4 }⟩ ∧ body.length = 3 ∧
      ∀ l : List (BitVec 32), l.length = cs.cdw → Begins f l → Begins f' (l ++ pkt3 pkt3Nop 2 0 :: body) := by
  obtain ⟨f', body, heq, hlen, hbeg⟩ := csEmitPkt3Nop_setDw ws f hbuf hfit (by decide)
  refine ⟨f', body, ?_, hlen, hbeg⟩
  rw [csEmitNops, if_neg (by decide), if_pos ⟨by decide, hip⟩, heq]

/-! ## Padding to the alignment of the queue -/

/-- The number of dwords `winsysCsPad` adds. -/
def padCount (ip : IpType) (cdw leaveDwSpace : ℕ) : ℕ :=
  if ip = .vcnEnc then 0
  else if ip = .uvd ∧ cdw = 0 then 0
  else
    let m := ipTypeDwPaddingMinus1 ip + 1
    if (cdw + leaveDwSpace) % m ≠ 0 then m - (cdw + leaveDwSpace) % m
    else if cdw = 0 ∧ leaveDwSpace = 0 then m
    else 0

variable (ip : IpType)

lemma and_ipTypeDwPaddingMinus1 (x : ℕ) :
    x &&& ipTypeDwPaddingMinus1 ip = x % (ipTypeDwPaddingMinus1 ip + 1) := by
  cases ip
  all_goals first
    | exact and_two_pow_sub_one_eq_mod x 3
    | exact and_two_pow_sub_one_eq_mod x 4
    | exact and_two_pow_sub_one_eq_mod x 6

lemma ipTypeDwPaddingMinus1_dvd : ipTypeDwPaddingMinus1 ip + 1 ∣ 64 := by
  cases ip <;> decide

lemma padCount_le (cdw leaveDwSpace : ℕ) : padCount ip cdw leaveDwSpace ≤ 64 := by
  have h := le_of_dvd (by decide) (ipTypeDwPaddingMinus1_dvd ip)
  simp only [padCount]
  split_ifs <;> omega

/-- Padding never passes the end of an IB whose size is a multiple of 64 dwords. -/
theorem padCount_fits {cdw leaveDwSpace size : ℕ} (hsize : 64 ∣ size) (hpos : 0 < size)
    (hle : cdw + leaveDwSpace ≤ size) :
    cdw + padCount ip cdw leaveDwSpace + leaveDwSpace ≤ size := by
  have hdvd : ipTypeDwPaddingMinus1 ip + 1 ∣ size := (ipTypeDwPaddingMinus1_dvd ip).trans hsize
  have hmle := le_of_dvd hpos hdvd
  simp only [padCount]
  generalize ipTypeDwPaddingMinus1 ip = m at *
  -- the next multiple of the alignment is at most `size`, which is one
  have hup : (cdw + leaveDwSpace) % (m + 1) ≠ 0 →
      cdw + leaveDwSpace + (m + 1) - (cdw + leaveDwSpace) % (m + 1) ≤ size := by
    intro hne
    obtain ⟨q, rfl⟩ := hdvd
    have hdm := div_add_mod (cdw + leaveDwSpace) (m + 1)
    have hlt : (cdw + leaveDwSpace) / (m + 1) < q := by
      apply Nat.lt_of_mul_lt_mul_left (a := m + 1)
      omega
    have hmul := Nat.mul_le_mul_left (m + 1) (succ_le_of_lt hlt)
    rw [mul_succ] at hmul
    omega
  split_ifs with h1 h2 h3 h4
  · exact hle
  · exact hle
  · have := hup h3
    omega
  · omega
  · exact hle

/-- `winsysCsPad` appends `padCount` dwords. -/
theorem winsysCsPad_pads (ws : Ws) (f : ℕ → BitVec 32) (leaveDwSpace : ℕ) (hbuf : cs.buf = some b)
    (hfit : 4 * (cs.cdw + padCount cs.hwIp cs.cdw leaveDwSpace) ≤ bo.size) :
    Pads (fun s => winsysCsPad info s leaveDwSpace) ws b bo f cs (padCount cs.hwIp cs.cdw leaveDwSpace) := by
  have hle := padCount_le cs.hwIp cs.cdw leaveDwSpace
  have hnops := csEmitNops_pads info ws f hbuf hfit hle
  have heq : winsysCsPad info ⟨ws.setDw b bo f, cs⟩ leaveDwSpace =
      csEmitNops info ⟨ws.setDw b bo f, cs⟩ (padCount cs.hwIp cs.cdw leaveDwSpace) := by
    simp only [winsysCsPad, padCount, and_ipTypeDwPaddingMinus1]
    split_ifs <;> simp_all [csEmitNops]
  simpa only [Pads, heq] using hnops

/-- A stream that chains closes its IB with padding and four more NOP dwords, all inside a BO
that has room for `maxDw + 4` dwords. -/
theorem chainPadding {ws : Ws} (hbo : ws.bos b = some bo) (hbuf : cs.buf = some b)
    (hip : cs.hwIp = .gfx ∨ cs.hwIp = .compute) (hdvd : 64 ∣ cs.maxDw + 4)
    (hcdw : cs.cdw ≤ cs.maxDw) (hsize : 4 * (cs.maxDw + 4) ≤ bo.size) :
    ∃ f pad body, csEmitNops info (winsysCsPad info ⟨ws, cs⟩ 4) 4 =
        ⟨ws.setDw b bo f, { cs with cdw := cs.cdw + pad.length + 4 }⟩ ∧
      body.length = 3 ∧ Nops pad ∧ cs.cdw + pad.length + 4 ≤ cs.maxDw + 4 ∧
      ∀ l : List (BitVec 32), l.length = cs.cdw → Begins bo.dw l →
        Begins f (l ++ pad ++ pkt3 pkt3Nop 2 0 :: body) := by
  have hfit := padCount_fits cs.hwIp hdvd (succ_pos _) (show cs.cdw + 4 ≤ cs.maxDw + 4 by omega)
  obtain ⟨f1, pad, heq1, hlen, hnops, hbeg1⟩ := winsysCsPad_pads info ws bo.dw 4 hbuf
    (show 4 * (cs.cdw + padCount cs.hwIp cs.cdw 4) ≤ bo.size by omega)
  rw [Ws.setDw_dw hbo, ← hlen] at heq1
  rw [← hlen] at hfit
  obtain ⟨f2, body, heq2, hlen2, hbeg2⟩ := csEmitNops_four info ws f1
    (show ({ cs with cdw := cs.cdw + pad.length } : Cs).hwIp = .gfx ∨ _ from hip) hbuf
    (show 4 * (cs.cdw + pad.length + 4) ≤ bo.size by omega)
  dsimp only at heq1 heq2
  refine ⟨f2, pad, body, by rw [heq1, heq2], hlen2, hnops hip, hfit, fun l hl hbeg => ?_⟩
  refine hbeg2 (l ++ pad) ?_ (hbeg1 l hl hbeg)
  rw [length_append, hl]

end Pads

/-! ## IB sizes -/

/-- What every IB size in bytes satisfies. -/
structure IbBytes (n : ℕ) : Prop where
  dvd : 256 ∣ n
  pos : 0 < n
  le : n ≤ 2 ^ 21

theorem IbBytes.dwords {n : ℕ} (h : IbBytes n) :
    n = 4 * (n / 4 - 4 + 4) ∧ 64 ∣ n / 4 - 4 + 4 ∧ n / 4 - 4 + 4 ≤ 2 ^ 19 := by
  obtain ⟨q, rfl⟩ := h.dvd
  have hpos := h.pos
  have hle := h.le
  have hq : 256 * q / 4 - 4 + 4 = 64 * q := by omega
  rw [hq]
  exact ⟨by omega, dvd_mul_right 64 q, by omega⟩

lemma align_ibBytes (info : Info) (ip : IpType) {v : ℕ} (hpos : 0 < v) (hle : v ≤ 2 ^ 20) :
    IbBytes (align v (info.ibAlignment ip)) ∧ v ≤ align v (info.ibAlignment ip) := by
  obtain ⟨k, hk, hk', hpot⟩ := info.ibAlignment_pot ip
  have hup : alignUp v (2 ^ k) ≤ 2 ^ 21 :=
    alignUp_le_of_dvd (Nat.two_pow_pos k) (pow_dvd_pow 2 hk') (by omega)
  have heq : align v (info.ibAlignment ip) = alignUp v (2 ^ k) := by
    rw [hpot, align_two_pow (by omega), mod_eq_of_lt (by omega)]
  have hge : v ≤ alignUp v (2 ^ k) := le_alignUp (Nat.two_pow_pos k) v
  rw [heq]
  refine ⟨⟨?_, by omega, hup⟩, hge⟩
  exact (pow_dvd_pow 2 hk).trans (dvd_alignUp v (2 ^ k))

lemma csGetInitialSize_ibBytes (info : Info) (ip : IpType) :
    IbBytes (csGetInitialSize info ip) :=
  (align_ibBytes info ip (by decide) (by decide)).1

lemma growIbSize_ibBytes (info : Info) (cs : Cs) (minSize : ℕ) (hpos : 0 < cs.maxDw)
    (hle : cs.maxDw ≤ 2 ^ 19) : IbBytes (growIbSize info cs minSize) := by
  have hmax : cs.maxDw * 4 * 2 % 2 ^ 32 = cs.maxDw * 4 * 2 := mod_eq_of_lt (by omega)
  refine (align_ibBytes info cs.hwIp ?_ ?_).1
  · simp only [ibSizeMax]
    omega
  · simp only [ibSizeMax]
    omega

end RadvXclipse.RadvAmdgpu
