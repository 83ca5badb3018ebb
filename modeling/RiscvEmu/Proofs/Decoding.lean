import RiscvEmu.Proofs.Frame

/-!
# Decoding: sizes, the table bound, and the secondary dispatch

`decode_size` reads the size off a successful `Decode`: 2 exactly for a
compressed first byte, 4 otherwise, and `decode_ok_cases` names the decoder
each size comes from. For a standard first byte `Decode`
either returns an error of its own or is the 32-bit decoder on the
little-endian word of the first four bytes (`decode_eq_decodeRvi`); the
only panic left is the table lookup of an R-type key
(`decode_panic_rtype_key`). The rest of the module runs `Decode` on single
words where the table or a secondary dispatcher goes wrong:

* a R-type key indexes `rvi64Instructions` past its end and panics, where
  the `nil` check after the lookup shows an error was meant;
* EBREAK reaches `ecall`, because `ecallOrBreak` switches on `imm >> 12`
  of a 12-bit immediate;
* SRAI panics in `shiftRight`, whose `0xFC00` mask never yields `0x10`;
* SRAIW gets the key of SRLIW, because the I-type key leaves `funct7` out;
* C.ANDI hands `andi` its 6-bit immediate unextended, where C.ADDI, C.LI and
  C.ADDIW sign-extend theirs;
* SLTIU compares with its raw 12-bit field, and AUIPC sign-extends the sum
  `imm + PC` instead of the immediate.
-/

namespace RiscvEmu

/-! ## The size of a decoded instruction -/

theorem byteAt_of_lt {b : Array (BitVec 8)} {k : Nat} (h : k < b.size) :
    byteAt b k = .ok (b.getD k 0) := by
  unfold byteAt
  rw [dif_pos h]
  simp [Array.getD, h]
  rfl

theorem byteAt_ok {b : Array (BitVec 8)} {k : Nat} {x : BitVec 8} (h : byteAt b k = .ok x) :
    x = b.getD k 0 := by
  unfold byteAt at h
  split at h
  · cases h; simp [Array.getD, *]
  · cases h

/-- `decodeSize` reports 2 bytes exactly for the compressed encodings. -/
theorem decodeSize_two {b : Array (BitVec 8)} {s : Nat} {ok : Bool}
    (h : decodeSize b = .ok (s, ok)) : s = 2 ↔ b.getD 0 0 &&& 3 ≠ 3 := by
  unfold decodeSize at h
  obtain ⟨b0, h0, h⟩ := bind_eq_ok.mp h
  rw [← byteAt_ok h0]
  rcases ite_eq_iff.mp h with ⟨h1, h⟩ | ⟨h1, h⟩
  · cases h; exact iff_of_true rfl h1
  refine iff_of_false ?_ h1
  rintro rfl
  rcases ite_eq_iff.mp h with ⟨-, ⟨⟩⟩ | ⟨-, h⟩
  rcases ite_eq_iff.mp h with ⟨-, ⟨⟩⟩ | ⟨-, h⟩
  rcases ite_eq_iff.mp h with ⟨-, ⟨⟩⟩ | ⟨-, h⟩
  rcases ite_eq_iff.mp h with ⟨-, h⟩ | ⟨-, ⟨⟩⟩
  obtain ⟨b1, -, h⟩ := bind_eq_ok.mp h
  rcases ite_eq_iff.mp h with ⟨-, ⟨⟩⟩ | ⟨-, h⟩
  injection h with h; injection h with h; omega

theorem rviLookup_ok {pc w f imm : BitVec 64} {i : Instruction} {size : Nat}
    (h : rviLookup pc w f imm = .ok (.ok (i, size))) :
    rvi64At (rviKey f w) = .ok (some i.fn) ∧ i.imm = imm ∧ size = 4 := by
  obtain ⟨x, hx, h⟩ := bind_eq_ok.mp h
  cases x with
  | none => cases h
  | some fn => cases h; exact ⟨hx, rfl, rfl⟩

theorem rviLookup_panic {pc w f imm : BitVec 64} {p : Panic} (h : rviLookup pc w f imm = .error p) :
    rvi64At (rviKey f w) = .error p := by
  rcases bind_eq_error.mp h with h | ⟨x, -, h⟩
  · exact h
  · cases x <;> cases h

/-- Every instruction of the 32-bit decoder is 4 bytes long. -/
theorem decodeRvi_size {pc w : BitVec 64} {instr : Instruction} {size : Nat}
    (h : decodeRvi pc w = .ok (.ok (instr, size))) : size = 4 := by
  unfold decodeRvi at h
  split at h <;> first | exact (rviLookup_ok h).2.2 | (split at h <;> cases h <;> rfl) | cases h <;> rfl

/-- **The size `Decode` returns**: 2 for a compressed word, 4 otherwise. -/
theorem decode_size {pc : BitVec 64} {b : Array (BitVec 8)} {instr : Instruction} {size : Nat}
    (h : decode pc b = .ok (.ok (instr, size))) :
    size = if b.getD 0 0 &&& 3 = 3 then 4 else 2 := by
  unfold decode at h
  dsimp only at h
  rcases ite_eq_iff.mp h with ⟨-, ⟨⟩⟩ | ⟨-, h⟩
  obtain ⟨_, -, h⟩ := bind_eq_ok.mp h
  obtain ⟨⟨s, ok⟩, hs, h⟩ := bind_eq_ok.mp h
  have h2 := decodeSize_two hs
  rcases ite_eq_iff.mp h with ⟨-, ⟨⟩⟩ | ⟨-, h⟩
  obtain ⟨_, -, h⟩ := bind_eq_ok.mp h
  rcases ite_eq_iff.mp h with ⟨-, ⟨⟩⟩ | ⟨-, h⟩
  obtain ⟨_, -, h⟩ := bind_eq_ok.mp h
  rcases ite_eq_iff.mp h with ⟨h5, h⟩ | ⟨h5, h⟩
  · obtain ⟨_, -, h⟩ := bind_eq_ok.mp h
    obtain ⟨_, -, h⟩ := bind_eq_ok.mp h
    obtain ⟨c, -, h⟩ := bind_eq_ok.mp h
    cases c <;> cases h
    rw [if_neg (h2.mp h5)]
  · obtain ⟨_, -, h⟩ := bind_eq_ok.mp h
    rcases ite_eq_iff.mp h with ⟨-, ⟨⟩⟩ | ⟨-, h⟩
    iterate 5 obtain ⟨_, -, h⟩ := bind_eq_ok.mp h
    rw [if_pos (not_not.mp (mt h2.mpr h5)), decodeRvi_size h]

/-- **What `Decode` accepts**: a compressed instruction, from `rvcDecode`,
of size 2, or an instruction of the 32-bit decoder, of size 4. -/
theorem decode_ok_cases {pc : BitVec 64} {b : Array (BitVec 8)} {instr : Instruction} {size : Nat}
    (h : decode pc b = .ok (.ok (instr, size))) :
    (size = 2 ∧ ∃ c, rvcDecode c = .ok (.ok instr)) ∨
      (size = 4 ∧ ∃ w, decodeRvi pc w = .ok (.ok (instr, size))) := by
  unfold decode at h
  dsimp only at h
  rcases ite_eq_iff.mp h with ⟨-, ⟨⟩⟩ | ⟨-, h⟩
  obtain ⟨_, -, h⟩ := bind_eq_ok.mp h
  obtain ⟨_, -, h⟩ := bind_eq_ok.mp h
  rcases ite_eq_iff.mp h with ⟨-, ⟨⟩⟩ | ⟨-, h⟩
  obtain ⟨_, -, h⟩ := bind_eq_ok.mp h
  rcases ite_eq_iff.mp h with ⟨-, ⟨⟩⟩ | ⟨-, h⟩
  obtain ⟨_, -, h⟩ := bind_eq_ok.mp h
  rcases ite_eq_iff.mp h with ⟨-, h⟩ | ⟨-, h⟩
  · iterate 2 obtain ⟨_, -, h⟩ := bind_eq_ok.mp h
    obtain ⟨c, hc, h⟩ := bind_eq_ok.mp h
    cases c with
    | error e => cases h
    | ok i => cases h; exact .inl ⟨rfl, _, hc⟩
  · obtain ⟨_, -, h⟩ := bind_eq_ok.mp h
    rcases ite_eq_iff.mp h with ⟨-, ⟨⟩⟩ | ⟨-, h⟩
    iterate 5 obtain ⟨_, -, h⟩ := bind_eq_ok.mp h
    exact .inr ⟨decodeRvi_size h, _, h⟩

/-! ## Panics -/

/-- The first-byte patterns `decodeSize` tests leave no byte to its
`unreachable` panic. -/
theorem decodeSize_covers : ∀ b0 : BitVec 8, b0 &&& 3 = 3 → b0 &&& 0x1f = 0x1f →
    b0 &&& 0x3f ≠ 0x1f → b0 &&& 0x7f ≠ 0x3f → b0 &&& 0x7f = 0x7f := by
  decide

theorem decodeSize_ok {b : Array (BitVec 8)} (h2 : 2 ≤ b.size) : ∃ r, decodeSize b = .ok r := by
  cases h : decodeSize b with
  | ok r => exact ⟨r, rfl⟩
  | error p =>
    exfalso
    unfold decodeSize at h
    rw [byteAt_of_lt (by omega), ok_bind] at h
    rcases ite_eq_iff.mp h with ⟨-, ⟨⟩⟩ | ⟨h1, h⟩
    rcases ite_eq_iff.mp h with ⟨-, ⟨⟩⟩ | ⟨h2, h⟩
    rcases ite_eq_iff.mp h with ⟨-, ⟨⟩⟩ | ⟨h3, h⟩
    rcases ite_eq_iff.mp h with ⟨-, ⟨⟩⟩ | ⟨h4, h⟩
    rcases ite_eq_iff.mp h with ⟨-, h⟩ | ⟨h5, -⟩
    · rw [byteAt_of_lt (by omega), ok_bind] at h
      rcases ite_eq_iff.mp h with ⟨-, ⟨⟩⟩ | ⟨-, ⟨⟩⟩
    · exact h5 (decodeSize_covers _ (not_not.mp h1) (not_not.mp h2) h3 h4)

/-- The little-endian word `Decode` assembles from the first four bytes. -/
def wordOf (b : Array (BitVec 8)) : BitVec 64 :=
  (b.getD 3 0).setWidth 64 <<< 24 ||| (b.getD 2 0).setWidth 64 <<< 16 |||
    (b.getD 1 0).setWidth 64 <<< 8 ||| (b.getD 0 0).setWidth 64

/-- For a standard first byte, `Decode` returns an error of its own
(length, size) or is the 32-bit decoder on `wordOf b`. -/
theorem decode_eq_decodeRvi (pc : BitVec 64) (b : Array (BitVec 8))
    (hb : b.getD 0 0 &&& 3 = 3) :
    (∃ e, decode pc b = .ok (.error e)) ∨ decode pc b = decodeRvi pc (wordOf b) := by
  generalize hr : decode pc b = r
  unfold decode at hr
  dsimp only at hr
  rcases ite_eq_iff.mp hr with ⟨-, rfl⟩ | ⟨h0, hr⟩
  · exact .inl ⟨_, rfl⟩
  obtain ⟨⟨s, ok⟩, hs⟩ := decodeSize_ok (b := b) (by omega)
  have hs2 := decodeSize_two hs
  rw [pure_bind, hs, ok_bind] at hr
  rcases ite_eq_iff.mp hr with ⟨-, rfl⟩ | ⟨-, hr⟩
  · exact .inl ⟨_, rfl⟩
  rw [pure_bind] at hr
  rcases ite_eq_iff.mp hr with ⟨-, rfl⟩ | ⟨h4, hr⟩
  · exact .inl ⟨_, rfl⟩
  rw [pure_bind] at hr
  rcases ite_eq_iff.mp hr with ⟨h5, -⟩ | ⟨-, hr⟩
  · exact absurd (hs2.mp h5) (not_not.mpr hb)
  rw [pure_bind] at hr
  rcases ite_eq_iff.mp hr with ⟨-, rfl⟩ | ⟨h6, hr⟩
  · exact .inl ⟨_, rfl⟩
  rw [pure_bind] at hr
  rw [byteAt_of_lt (show 3 < b.size by omega), ok_bind, byteAt_of_lt (show 2 < b.size by omega),
    ok_bind, byteAt_of_lt (show 1 < b.size by omega), ok_bind,
    byteAt_of_lt (show 0 < b.size by omega), ok_bind] at hr
  exact .inr hr.symm

/-- The little-endian halfword `Decode` assembles from the first two bytes. -/
def halfOf (b : Array (BitVec 8)) : BitVec 16 :=
  (b.getD 1 0).setWidth 16 <<< 8 ||| (b.getD 0 0).setWidth 16

/-- The quadrant `inst[1:0]` of `halfOf b` is the low two bits of the first byte. -/
theorem halfOf_quadrant (b : Array (BitVec 8)) :
    ((halfOf b).extractLsb' 0 2).toNat = (b.getD 0 0 &&& 3).toNat := by
  have h : (halfOf b).extractLsb' 0 2 = (b.getD 0 0).extractLsb' 0 2 := by
    ext ⟨i, hi⟩
    simp only [halfOf, BitVec.getLsbD_extractLsb', BitVec.getLsbD_or, BitVec.getLsbD_shiftLeft,
      BitVec.getLsbD_setWidth]
    interval_cases i <;> simp
  rw [h, BitVec.extractLsb'_toNat, BitVec.toNat_and, Nat.shiftRight_zero,
    show (3 : BitVec 8).toNat = 2 ^ 2 - 1 from rfl, Nat.and_pow_two_sub_one_eq_mod]

/-- For a compressed first byte and 2 or 4 bytes, `Decode` is `rvcDecode` on
`halfOf b`, with size 2. -/
theorem decode_eq_rvcDecode (pc : BitVec 64) (b : Array (BitVec 8))
    (hs : b.size = 2 ∨ b.size = 4) (hb : ¬ b.getD 0 0 &&& 3 = 3) :
    decode pc b = (rvcDecode (halfOf b)).map fun r => r.map fun i => (i, 2) := by
  have hsz : decodeSize b = .ok (2, true) := by
    unfold decodeSize
    rw [byteAt_of_lt (by omega), ok_bind, if_pos hb]
    rfl
  unfold decode
  simp only [show ¬(b.size = 0 ∨ b.size % 2 ≠ 0) by omega, hsz, if_false, pure_bind, ok_bind,
    Bool.not_true, show ¬ b.size < 2 by omega, if_true, byteAt_of_lt (show 1 < b.size by omega),
    byteAt_of_lt (show 0 < b.size by omega)]
  rfl

/-- For a compressed first byte, a panic of `Decode` is a panic of
`rvcDecode`. -/
theorem decode_panic_rvc {pc : BitVec 64} {b : Array (BitVec 8)} {p : Panic}
    (hb : ¬ b.getD 0 0 &&& 3 = 3) (h : decode pc b = .error p) : ∃ c, rvcDecode c = .error p := by
  unfold decode at h
  dsimp only at h
  rcases ite_eq_iff.mp h with ⟨-, ⟨⟩⟩ | ⟨h0, h⟩
  obtain ⟨⟨s, ok⟩, hs⟩ := decodeSize_ok (b := b) (by omega)
  rw [pure_bind, hs, ok_bind] at h
  rcases ite_eq_iff.mp h with ⟨-, ⟨⟩⟩ | ⟨-, h⟩
  rw [pure_bind] at h
  rcases ite_eq_iff.mp h with ⟨-, ⟨⟩⟩ | ⟨h4, h⟩
  rw [pure_bind] at h
  rcases ite_eq_iff.mp h with ⟨h5, h⟩ | ⟨h5, -⟩
  · rw [byteAt_of_lt (by omega), ok_bind, byteAt_of_lt (by omega), ok_bind] at h
    rcases bind_eq_error.mp h with h | ⟨_, -, h⟩
    · exact ⟨_, h⟩
    · cases h
  · exact absurd ((decodeSize_two hs).mpr hb) h5

theorem rvi64At_panic {k : BitVec 64} {p : Panic} (h : rvi64At k = .error p) :
    rvi64Len ≤ k.toNat ∧ p = .indexOutOfRange k.toNat rvi64Len := by
  unfold rvi64At at h
  split at h
  · cases h
  · cases h; exact ⟨by omega, rfl⟩

/-- Without `funct7` the key has eight bits, so it is inside the table. -/
theorem rviKey_zero_lt (w : BitVec 64) : (rviKey 0 w).toNat < rvi64Len := by
  have : (rviKey 0 w).toNat < 2 ^ 8 := by
    simp only [rviKey, BitVec.toNat_or, BitVec.toNat_and]
    exact Nat.or_lt_two_pow (Nat.or_lt_two_pow (by simp) (Nat.and_lt_two_pow _ (by simp)))
      (Nat.and_lt_two_pow _ (by simp))
  unfold rvi64Len; omega

/-- The 32-bit decoder panics only at the table lookup of an R-type key
(AMO, OP, OP-32, OP-FP) at or past the end of the table. -/
theorem decodeRvi_panic {pc w : BitVec 64} {p : Panic} (h : decodeRvi pc w = .error p) :
    (w >>> 2 &&& 0x1f).toNat ∈ [0x0b, 0x0c, 0x0e, 0x14] ∧
      rvi64Len ≤ (rviKey (w >>> 17 &&& 0x7f00) w).toNat ∧
      p = .indexOutOfRange (rviKey (w >>> 17 &&& 0x7f00) w).toNat rvi64Len := by
  unfold decodeRvi at h
  split at h
  all_goals
    first
    | obtain ⟨hk, rfl⟩ := rvi64At_panic (rviLookup_panic h)
      first
      | exact absurd hk (Nat.not_le.mpr (rviKey_zero_lt w))
      | exact ⟨by simp only [List.mem_cons, List.mem_singleton, List.not_mem_nil, or_false]; omega,
          hk, rfl⟩
    | split at h <;> cases h
    | cases h

/-- **`Decode` panics on a standard-length word only at an R-type key past
the table**: for every buffer whose first byte has both low bits set, a
runtime panic of `Decode` is the index `rvi64Instructions[key]` with
`key >= len(rvi64Instructions)` for an AMO, OP, OP-32 or OP-FP word. -/
theorem decode_panic_rtype_key (pc : BitVec 64) (b : Array (BitVec 8)) (p : Panic)
    (hb : b.getD 0 0 &&& 3 = 3) (h : decode pc b = .error p) :
    (wordOf b >>> 2 &&& 0x1f).toNat ∈ [0x0b, 0x0c, 0x0e, 0x14] ∧
      rvi64Len ≤ (rviKey (wordOf b >>> 17 &&& 0x7f00) (wordOf b)).toNat ∧
      p = .indexOutOfRange (rviKey (wordOf b >>> 17 &&& 0x7f00) (wordOf b)).toNat rvi64Len := by
  rcases decode_eq_decodeRvi pc b hb with ⟨e, he⟩ | he
  · cases he.symm.trans h
  · exact decodeRvi_panic (he ▸ h)

theorem decode_panic_rtype_key_fe :
    rvi64Len ≤ (rviKey (wordOf #[0x33, 0x00, 0x00, 0xFE] >>> 17 &&& 0x7f00)
      (wordOf #[0x33, 0x00, 0x00, 0xFE])).toNat :=
  (decode_panic_rtype_key 0 #[0x33, 0x00, 0x00, 0xFE] (.indexOutOfRange 0x7F0C 0x20AF)
    (by decide) rfl).2.1

/-! ## The table bound -/

/-- **An R-type key past the table panics.** The word `0xFE000033` (an OP
word with `funct7 = 0x7F`) builds the key `0x7F0C`, and the lookup indexes
the 8367-entry `rvi64Instructions` with it instead of reaching the `nil`
check that reports an unmapped key. -/
theorem decode_rtype_key_past_table :
    decode 0 #[0x33, 0x00, 0x00, 0xFE] = .error (.indexOutOfRange 0x7F0C 0x20AF) := rfl

/-! ## The secondary dispatch -/

/-- **EBREAK and SRAIW run the wrong handler.** `0x00100073` decodes to
`ecallOrBreak` with `imm = 1`; `imm >> 12` is then 0, so on every host and
machine the handler is `ecall`'s (with `a7 = 0x5D` it exits). `0x4010D09B`
(`sraiw x1, x1, 1`) gets the I-type key `0xA6` of SRLIW and decodes to
`srliw`. -/
theorem decode_ebreak_sraiw_misrouted :
    (decode 0 #[0x73, 0x00, 0x10, 0x00] =
        .ok (.ok ({ fn := .ecallOrBreak, rs2 := 1, imm := 1 }, 4)) ∧
      ∀ host vm, Op.ecallOrBreak.exec host vm { fn := .ecallOrBreak, rs2 := 1, imm := 1 } =
        ecall host vm { fn := .ecallOrBreak, rs2 := 1, imm := 1 }) ∧
    decode 0 #[0x9B, 0xD0, 0x10, 0x40] =
      .ok (.ok ({ fn := .srliw, rd := 1, rs1 := 1, rs2 := 1, imm := 0x401 }, 4)) :=
  ⟨⟨rfl, fun _ _ => by unfold Op.exec ecallOrBreak; exact if_pos (by decide)⟩, rfl⟩

/-! ## Compressed words -/

/-- **C.ANDI loses the sign of its immediate.** `0x987D` is
`c.andi x8, -1`, whose expansion `andi x8, x8, -1` is `0xFFF47413`.
`rvcDecode` passes the raw field `0x3f` where C.ADDI and C.LI call
`signExtend(imm, 5)`, so on every machine the compressed form computes
`x8 & 0x3f` and the expansion leaves `x8` as it is. -/
theorem rvc_andi_unextended :
    rvcDecode 0x987D = .ok (.ok { fn := .andi, rd := 8, rs1 := 8, imm := 0x3f }) ∧
      decode 0 #[0x13, 0x74, 0xF4, 0xFF] =
        .ok (.ok ({ fn := .andi, rd := 8, rs1 := 8, rs2 := 31, imm := 0xfff }, 4)) ∧
      ∀ vm : VM,
        andi vm { fn := .andi, rd := 8, rs1 := 8, imm := 0x3f } =
            .ok ⟨{}, none, vm.store 8 (vm.reg 8 &&& 0x3f)⟩ ∧
          andi vm { fn := .andi, rd := 8, rs1 := 8, rs2 := 31, imm := 0xfff } =
            .ok ⟨{}, none, vm.store 8 (vm.reg 8)⟩ :=
  ⟨rfl, rfl, fun vm => ⟨rfl, by
    unfold andi writeRd; dsimp only
    rw [show signExtend 0xfff 11 = BitVec.allOnes 64 from rfl, BitVec.and_allOnes]
    rfl⟩⟩

/-! ## Immediates -/

/-- **SLTIU and AUIPC do not extend their immediates.** `0xFFF13093` is
`sltiu x1, x2, -1`: the decoder hands `sltiu` the raw field `0xfff`, which it
compares with `x2` unsigned, so `x2 = 0x1000` gives 0 where the ISA compares
with `sext(0xfff) = 2^64 - 1` and gives 1. `0xFFFFF097` is
`auipc x1, 0xFFFFF`: `auipc` sign-extends `imm + PC` from bit 31 instead of
adding the extended immediate, so at `PC = 0x2000` it writes `0x100001000`
where the ISA writes `0x2000 - 0x1000 = 0x1000`. -/
theorem sltiu_auipc_unextended :
    decode 0 #[0x93, 0x30, 0xF1, 0xFF] =
        .ok (.ok ({ fn := .sltiu, rd := 1, rs1 := 2, rs2 := 31, imm := 0xfff }, 4)) ∧
      (∀ vm : VM, sltiu (vm.store 2 0x1000) { fn := .sltiu, rd := 1, rs1 := 2, rs2 := 31, imm := 0xfff } =
        .ok ⟨{}, none, (vm.store 2 0x1000).store 1 0⟩) ∧
      (0x1000 : BitVec 64).ult ((0xfff : BitVec 12).signExtend 64) = true ∧
      decode 0 #[0x97, 0xF0, 0xFF, 0xFF] =
        .ok (.ok ({ fn := .auipc, rd := 1, rs1 := 31, rs2 := 31, imm := 0xFFFFF000 }, 4)) ∧
      (∀ vm : VM, auipc { vm with pc := 0x2000 }
          { fn := .auipc, rd := 1, rs1 := 31, rs2 := 31, imm := 0xFFFFF000 } =
        .ok ⟨{}, none, { vm with pc := 0x2000 }.store 1 0x100001000⟩) ∧
      0x2000 + ((0xFFFFF000 : BitVec 32).signExtend 64 : BitVec 64) = 0x1000 := by
  refine ⟨rfl, fun vm => ?_, by decide, rfl, fun vm => ?_, by decide⟩
  · have h2 : (vm.store 2 0x1000).reg 2 = 0x1000 := by simp [store_reg]
    simp only [sltiu, writeRd, h2]
    rfl
  · simp only [auipc, writeRd]
    rw [show signExtend (0xFFFFF000 + 0x2000) 31 = 0x100001000 by decide]
    rfl

end RiscvEmu
