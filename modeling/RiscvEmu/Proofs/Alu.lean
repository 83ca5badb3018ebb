import RiscvEmu.Core.Run

/-!
# The integer operations

The RV64I register-immediate and register-register operations compute on
the 64-bit registers and the sign-extended 12-bit immediate; `aluOp` is
their result as the ISA defines it (the spec side), and every handler but
`sltiu` writes it (`aluOps_isa`) when the immediate is a 12-bit field, as
`Decode` gives it. The handlers extend the field with
`signExtend(in.imm, 11)`, which is the ISA's extension on such a field
(`sext12_eq`); `addi` masks it first (`sext12_mask_eq`).

RV64 computes ADDIW, the word shifts, ADDW, SUBW and the word multiply and
divides on the low 32 bits of their operands and writes the 32-bit result
sign-extended to 64 bits. `wordOp` is that 32-bit result as the ISA defines
it. The handlers build the 64-bit value in three ways: Go's `int32`
arithmetic converted back, `uint64(int32(..))`, which the model writes as
`signExtend 64`; `signExtend(x, 31)` of a `uint32` result
(`signExtend_setWidth`); and, in `divw`, both at once
(`signExtend_signExtend32`). Every word handler writes
`(wordOp fn a b imm).signExtend 64` (`wordOps_signExtend`), except `remw` and
`remuw` when the low word of the divisor is zero: they test all 64 bits of
it.
-/

namespace RiscvEmu

/-! ## The ISA's results -/

/-- The result the ISA gives an RV64I register-immediate or register-register
operation, from `a = x[rs1]`, `b = x[rs2]` and the 12-bit immediate `imm`,
which it sign-extends; the shifts take the low six bits of `imm` or `b`.
`none` for every other operation. -/
def aluOp : Op → BitVec 64 → BitVec 64 → BitVec 12 → Option (BitVec 64)
  | .addi, a, _, imm => some (a + imm.signExtend 64)
  | .slti, a, _, imm => some (if a.slt (imm.signExtend 64) then 1 else 0)
  | .sltiu, a, _, imm => some (if a.ult (imm.signExtend 64) then 1 else 0)
  | .xori, a, _, imm => some (a ^^^ imm.signExtend 64)
  | .ori, a, _, imm => some (a ||| imm.signExtend 64)
  | .andi, a, _, imm => some (a &&& imm.signExtend 64)
  | .slli, a, _, imm => some (a <<< (imm.setWidth 6).toNat)
  | .srli, a, _, imm => some (a >>> (imm.setWidth 6).toNat)
  | .srai, a, _, imm => some (a.sshiftRight (imm.setWidth 6).toNat)
  | .add, a, b, _ => some (a + b)
  | .sub, a, b, _ => some (a - b)
  | .sll, a, b, _ => some (a <<< (b.setWidth 6).toNat)
  | .slt, a, b, _ => some (if a.slt b then 1 else 0)
  | .sltu, a, b, _ => some (if a.ult b then 1 else 0)
  | .xor, a, b, _ => some (a ^^^ b)
  | .srl, a, b, _ => some (a >>> (b.setWidth 6).toNat)
  | .sra, a, b, _ => some (a.sshiftRight (b.setWidth 6).toNat)
  | .or, a, b, _ => some (a ||| b)
  | .and, a, b, _ => some (a &&& b)
  | _, _, _, _ => none

/-- The 32-bit result the ISA gives a word operation, from the low words `a`
of `rs1` and `b` of `rs2` and the decoded immediate `imm`: its low 12 bits,
sign-extended, for ADDIW, and its low 5 bits as the shift amount of SLLIW,
SRLIW and SRAIW. The register shifts take the low 5 bits of `b`; a zero
divisor gives all ones as quotient and the dividend as remainder. `none` for
every operation that is not a word operation. -/
def wordOp : Op → BitVec 32 → BitVec 32 → BitVec 64 → Option (BitVec 32)
  | .addiw, a, _, imm => some (a + (imm.setWidth 12).signExtend 32)
  | .slliw, a, _, imm => some (a <<< (imm.setWidth 5).toNat)
  | .srliw, a, _, imm => some (a >>> (imm.setWidth 5).toNat)
  | .sraiw, a, _, imm => some (a.sshiftRight (imm.setWidth 5).toNat)
  | .addw, a, b, _ => some (a + b)
  | .subw, a, b, _ => some (a - b)
  | .sllw, a, b, _ => some (a <<< (b.setWidth 5).toNat)
  | .srlw, a, b, _ => some (a >>> (b.setWidth 5).toNat)
  | .sraw, a, b, _ => some (a.sshiftRight (b.setWidth 5).toNat)
  | .mulw, a, b, _ => some (a * b)
  | .divw, a, b, _ => some (if b = 0 then BitVec.allOnes 32 else a.sdiv b)
  | .divuw, a, b, _ => some (if b = 0 then BitVec.allOnes 32 else a / b)
  | .remw, a, b, _ => some (if b = 0 then a else a.srem b)
  | .remuw, a, b, _ => some (if b = 0 then a else a % b)
  | _, _, _, _ => none

/-! ## The handlers' expressions -/

/-- A mask `x & (2^k - 1)` keeps the low `k` bits of `x`. -/
theorem and_low_toNat (x : BitVec 64) {k : Nat} (hk : k < 64) :
    (x &&& BitVec.ofNat 64 (2 ^ k - 1)).toNat = x.toNat % 2 ^ k := by
  have : 2 ^ k < 2 ^ 64 := Nat.pow_lt_pow_right (by decide) hk
  rw [BitVec.toNat_and, BitVec.toNat_ofNat, Nat.mod_eq_of_lt (by omega),
    Nat.and_pow_two_sub_one_eq_mod]

theorem and_0x1f_toNat (x : BitVec 64) : (x &&& 0x1f).toNat = (x.setWidth 5).toNat :=
  (and_low_toNat x (k := 5) (by decide)).trans (BitVec.toNat_setWidth _ _).symm

theorem and_0x3f_toNat (x : BitVec 64) : (x &&& 0x3f).toNat = (x.setWidth 6).toNat :=
  (and_low_toNat x (k := 6) (by decide)).trans (BitVec.toNat_setWidth _ _).symm

/-- `signExtend(in.imm, 11)` of a 12-bit field is its sign extension, at
width 12. -/
theorem sext12_eq (imm : BitVec 64) (h : imm.toNat < 2 ^ 12) :
    signExtend imm 11 = (imm.setWidth 12).signExtend 64 :=
  signExtend_eq_signExtend imm 11 h

/-- `signExtend(in.imm&0xfff, 11)` is the sign extension of the low 12 bits. -/
theorem sext12_mask_eq (imm : BitVec 64) :
    signExtend (imm &&& 0xfff) 11 = (imm.setWidth 12).signExtend 64 := by
  have hm : (imm &&& 0xfff).toNat = imm.toNat % 2 ^ 12 := and_low_toNat imm (k := 12) (by decide)
  rw [sext12_eq _ (hm ▸ Nat.mod_lt _ (by decide))]
  congr 1
  apply BitVec.eq_of_toNat_eq
  rw [BitVec.toNat_setWidth, BitVec.toNat_setWidth, hm, Nat.mod_mod]

/-- The shift amount `in.imm & 0x3f` of the 64-bit immediate shifts. -/
theorem imm_shamt_eq (imm : BitVec 64) :
    (imm &&& 0x3f).toNat = ((imm.setWidth 12).setWidth 6).toNat := by
  rw [BitVec.setWidth_setWidth_of_le _ (by decide), and_0x3f_toNat]

/-- `signExtend(x, 31)` of a word that is already the sign extension of its
low 32 bits leaves it as it is. -/
theorem signExtend_signExtend32 (q : BitVec 32) :
    signExtend (q.signExtend 64) 31 = q.signExtend 64 :=
  signExtend_of_copies _ 31 fun j hj hj64 => by
    simp only [BitVec.getLsbD_signExtend, BitVec.msb_eq_getLsbD_last, decide_eq_true hj64,
      show ((31 : Fin 32) : Nat) = 31 from rfl]
    split
    · simp [show j = 31 by omega]
    · rfl

/-- ADDIW's `signExtend(in.imm&0xfff, 11)`, cut to 32 bits, is the 12-bit
immediate sign-extended to 32 bits. -/
theorem imm12_eq (imm : BitVec 64) :
    (signExtend (imm &&& 0xfff) 11).setWidth 32 = (imm.setWidth 12).signExtend 32 := by
  rw [sext12_mask_eq]
  ext j
  have hj := j.isLt
  simp [BitVec.getLsbD_setWidth, BitVec.getLsbD_signExtend, show j.val < 64 by omega]

/-- The register shift amount `rs2 & 0x1f` is the low five bits of the low word. -/
theorem shamt_eq (x : BitVec 64) : (x &&& 0x1f).toNat = ((x.setWidth 32).setWidth 5).toNat := by
  rw [BitVec.setWidth_setWidth_of_le _ (by decide), and_0x1f_toNat]

/-! ## Every integer handler -/

/-- **The RV64I integer operations compute the ISA's result.** For every
operation `aluOp` defines but SLTIU, on every machine and every instruction
whose immediate is a 12-bit field, the handler writes the ISA's result to
`rd`. -/
theorem aluOps_isa (fn : Op) (host : Host) (vm : VM) (i : Instruction) (r : BitVec 64)
    (hr : aluOp fn (vm.reg i.rs1) (vm.reg i.rs2) (i.imm.setWidth 12) = some r)
    (himm : i.imm.toNat < 2 ^ 12) (hfn : fn ≠ .sltiu) :
    fn.exec host vm i = pure ⟨{}, none, vm.store i.rd r⟩ := by
  have hs := sext12_eq i.imm himm
  cases fn <;> cases hr <;> unfold Op.exec
  case sltiu => exact absurd rfl hfn
  case add | sub | slt | sltu | xor | or | and => rfl
  case addi => simp only [addi, writeRd, sext12_mask_eq]
  case slti | xori | ori | andi => simp only [slti, xori, ori, andi, writeRd, hs]
  case slli | srli | srai => simp only [slli, srli, srai, writeRd, imm_shamt_eq]
  case sll | srl | sra => simp only [sll, srl, sra, writeRd, and_0x3f_toNat]

/-- A machine with `x1 = 0x7FFFFFFF`, `x2 = 1` and no memory. -/
def addwVM : VM :=
  { reg := fun r => if r = 1 then 0x7FFFFFFF else if r = 2 then 1 else 0, csr := fun _ => 0,
    pc := 0, steps := 0, mem := ⟨#[], by decide⟩, lastInstr := none, lastPC := 0 }

/-- ADDI on `addwVM`: `0x7FFFFFFF + 1` is `0x80000000`, with no extension
from bit 31. -/
theorem aluOps_isa_addi :
    aluOp .addi (addwVM.reg 1) (addwVM.reg 0) ((1 : BitVec 64).setWidth 12) = some 0x80000000 ∧
      Op.addi.exec .complete addwVM { fn := .addi, rd := 3, rs1 := 1, imm := 1 } =
        pure ⟨{}, none, addwVM.store 3 0x80000000⟩ := by
  have h : aluOp .addi (addwVM.reg 1) (addwVM.reg 0) ((1 : BitVec 64).setWidth 12) =
      some 0x80000000 := by decide
  exact ⟨h, aluOps_isa .addi .complete addwVM { fn := .addi, rd := 3, rs1 := 1, imm := 1 }
    0x80000000 h (by decide) (by decide)⟩

/-! ## Every word handler -/

/-- **The word operations write the ISA's 32-bit result, sign-extended.**
For every operation `wordOp` defines, on every machine and instruction, the
handler writes `r.signExtend 64` to `rd`, `r` the ISA's result on the low
words of `rs1` and `rs2` and the immediate; for REMW and REMUW this needs a
non-zero low word of `rs2`. -/
theorem wordOps_signExtend (fn : Op) (host : Host) (vm : VM) (i : Instruction) (r : BitVec 32)
    (hr : wordOp fn ((vm.reg i.rs1).setWidth 32) ((vm.reg i.rs2).setWidth 32) i.imm = some r)
    (hrem : fn = .remw ∨ fn = .remuw → (vm.reg i.rs2).setWidth 32 ≠ 0) :
    fn.exec host vm i = pure ⟨{}, none, vm.store i.rd (r.signExtend 64)⟩ := by
  cases fn <;> cases hr <;> unfold Op.exec
  case addw | subw | mulw => rfl
  case addiw => simp only [addiw, writeRd, imm12_eq]
  case sraiw => simp only [sraiw, writeRd, and_0x1f_toNat]
  case sraw => simp only [sraw, writeRd, shamt_eq]
  case slliw =>
    simp only [slliw, writeRd, and_0x1f_toNat]
    rw [signExtend_setWidth 31]
  case srliw =>
    simp only [srliw, writeRd, and_0x1f_toNat]
    rw [signExtend_setWidth 31]
  case sllw =>
    simp only [sllw, writeRd, shamt_eq]
    rw [signExtend_setWidth 31]
  case srlw =>
    simp only [srlw, writeRd, shamt_eq]
    rw [signExtend_setWidth 31]
  case divw =>
    simp only [divw, writeRd]
    split
    · rfl
    · rw [signExtend_signExtend32]
  case divuw =>
    simp only [divuw, writeRd]
    split
    · rfl
    · rw [signExtend_setWidth 31]
  case remw =>
    have hlow := hrem (.inl rfl)
    have hne : vm.reg i.rs2 ≠ 0 := fun h => hlow (by rw [h]; rfl)
    simp only [remw, if_neg hne, if_neg hlow]
  case remuw =>
    have hlow := hrem (.inr rfl)
    have hne : vm.reg i.rs2 ≠ 0 := fun h => hlow (by rw [h]; rfl)
    simp only [remuw, if_neg hne, if_neg hlow]
    rw [signExtend_setWidth 31]

/-- ADDW on `addwVM`, carrying into bit 31, writes `0xFFFFFFFF80000000`. -/
theorem wordOps_signExtend_addw :
    wordOp .addw ((addwVM.reg 1).setWidth 32) ((addwVM.reg 2).setWidth 32) 0 = some 0x80000000 ∧
      Op.addw.exec .complete addwVM { fn := .addw, rd := 3, rs1 := 1, rs2 := 2 } =
        pure ⟨{}, none, addwVM.store 3 0xFFFFFFFF80000000⟩ := by
  have h : wordOp .addw ((addwVM.reg 1).setWidth 32) ((addwVM.reg 2).setWidth 32) 0 =
      some 0x80000000 := by decide
  refine ⟨h, ?_⟩
  rw [wordOps_signExtend .addw .complete addwVM { fn := .addw, rd := 3, rs1 := 1, rs2 := 2 }
    0x80000000 h (by decide)]
  rfl

end RiscvEmu
