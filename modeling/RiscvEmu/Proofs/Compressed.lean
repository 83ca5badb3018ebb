import RiscvEmu.Proofs.Control

/-!
# Compressed instructions: `rvcDecode` against the RV64C expansion table

`isaRvc` is the expansion table of the RISC-V "C" extension for RV64
(quadrants 0 to 2), written from the ISA's tables and not from `rvc.go`: for
a 16-bit word it gives the RVI instruction the word stands for, with every
immediate laid out bit by bit as the ISA lays it out (`inst[12]`,
`inst[6:2]`, ... concatenated), or `none` for the reserved encodings and for
the floating-point loads and stores, which the emulator leaves out. Hints
(C.NOP, C.LI with `rd = 0`, ...) expand like the instructions they are
forms of. The compressed jumps expand to the emulator's own handlers
`rvcJAL` and `rvcJALR`, which link `PC + 2`.

`step_rvc_expansion`: on every machine whose next instruction is a
compressed word the table expands, an iteration of `Run` executes the
table's instruction as an instruction of 2 bytes, except that C.ANDI keeps
its immediate as the unextended 6-bit field where the ISA sign-extends it.
It rests on `rvcDecode_expands`, the same statement for `rvcDecode` alone.

The decoder gathers each immediate with masks and shifts, and the table lays
it out with `extractLsb'` and `++`. Both are maps of the 16-bit word that
distribute over `|||` (`OrHom`, closed under the operations they are built
from), and two such maps agree as soon as they agree on the 16 one-bit words
(`OrHom.eq_of_basis`). Each immediate (`clw_imm`, `cj_imm`, ...) and the
two selectors (`rvcSel_eq`, `arithSel_eq`) are then 16 evaluations; the
register fields (`rvcRegP_eq`, `rvcReg_eq`) are proved once for every field
position.
-/

namespace RiscvEmu

/-! ## The expansion table -/

/-- The register named by the 3-bit field `inst[lo+2:lo]`: `x8 + field`. -/
def rvcRegP (c : BitVec 16) (lo : Nat) : Fin 32 :=
  ⟨(c.extractLsb' lo 3).toNat + 8, by have := (c.extractLsb' lo 3).isLt; omega⟩

/-- The register named by the 5-bit field `inst[lo+4:lo]`. -/
def rvcReg (c : BitVec 16) (lo : Nat) : Fin 32 :=
  ⟨(c.extractLsb' lo 5).toNat, (c.extractLsb' lo 5).isLt⟩

/-- C.ADDI4SPN: `nzuimm[9:6|5:4|3|2] = inst[10:7|12:11|5|6]`. -/
def addi4spnImm (c : BitVec 16) : BitVec 10 :=
  (c.extractLsb' 7 4 ++ c.extractLsb' 11 2 ++ c.extractLsb' 5 1 ++ c.extractLsb' 6 1 ++
    0#2).setWidth 10

/-- C.LW and C.SW: `offset[6|5:3|2] = inst[5|12:10|6]`. -/
def clwImm (c : BitVec 16) : BitVec 7 :=
  (c.extractLsb' 5 1 ++ c.extractLsb' 10 3 ++ c.extractLsb' 6 1 ++ 0#2).setWidth 7

/-- C.LD and C.SD: `offset[7:6|5:3] = inst[6:5|12:10]`. -/
def cldImm (c : BitVec 16) : BitVec 8 :=
  (c.extractLsb' 5 2 ++ c.extractLsb' 10 3 ++ 0#3).setWidth 8

/-- The CI-format immediate `imm[5|4:0] = inst[12|6:2]`: signed for C.ADDI,
C.ADDIW, C.LI and C.ANDI, the shift amount of C.SLLI, C.SRLI and C.SRAI. -/
def ciImm (c : BitVec 16) : BitVec 6 :=
  (c.extractLsb' 12 1 ++ c.extractLsb' 2 5).setWidth 6

/-- C.ADDI16SP: `nzimm[9|8:7|6|5|4] = inst[12|4:3|5|2|6]`. -/
def addi16spImm (c : BitVec 16) : BitVec 10 :=
  (c.extractLsb' 12 1 ++ c.extractLsb' 3 2 ++ c.extractLsb' 5 1 ++ c.extractLsb' 2 1 ++
    c.extractLsb' 6 1 ++ 0#4).setWidth 10

/-- C.LUI: `nzimm[17|16:12] = inst[12|6:2]`. -/
def cluiImm (c : BitVec 16) : BitVec 18 :=
  (c.extractLsb' 12 1 ++ c.extractLsb' 2 5 ++ 0#12).setWidth 18

/-- C.J: `offset[11|4|9:8|10|6|7|3:1|5] = inst[12:2]`. -/
def cjImm (c : BitVec 16) : BitVec 12 :=
  (c.extractLsb' 12 1 ++ c.extractLsb' 8 1 ++ c.extractLsb' 9 2 ++ c.extractLsb' 6 1 ++
    c.extractLsb' 7 1 ++ c.extractLsb' 2 1 ++ c.extractLsb' 11 1 ++ c.extractLsb' 3 3 ++
    0#1).setWidth 12

/-- C.BEQZ and C.BNEZ: `offset[8|4:3] = inst[12:10]`, `offset[7:6|2:1|5] = inst[6:2]`. -/
def cbImm (c : BitVec 16) : BitVec 9 :=
  (c.extractLsb' 12 1 ++ c.extractLsb' 5 2 ++ c.extractLsb' 2 1 ++ c.extractLsb' 10 2 ++
    c.extractLsb' 3 2 ++ 0#1).setWidth 9

/-- C.LWSP: `offset[5] = inst[12]`, `offset[4:2|7:6] = inst[6:2]`. -/
def lwspImm (c : BitVec 16) : BitVec 8 :=
  (c.extractLsb' 2 2 ++ c.extractLsb' 12 1 ++ c.extractLsb' 4 3 ++ 0#2).setWidth 8

/-- C.LDSP: `offset[5] = inst[12]`, `offset[4:3|8:6] = inst[6:2]`. -/
def ldspImm (c : BitVec 16) : BitVec 9 :=
  (c.extractLsb' 2 3 ++ c.extractLsb' 12 1 ++ c.extractLsb' 5 2 ++ 0#3).setWidth 9

/-- C.SWSP: `offset[5:2|7:6] = inst[12:7]`. -/
def swspImm (c : BitVec 16) : BitVec 8 :=
  (c.extractLsb' 7 2 ++ c.extractLsb' 9 4 ++ 0#2).setWidth 8

/-- C.SDSP: `offset[5:3|8:6] = inst[12:7]`. -/
def sdspImm (c : BitVec 16) : BitVec 9 :=
  (c.extractLsb' 7 3 ++ c.extractLsb' 10 3 ++ 0#3).setWidth 9

/-- The RV64C expansion of `c`, by quadrant `inst[1:0]` and `funct3 = inst[15:13]`.
`rd'`, `rs1'` and `rs2'` are the 3-bit register fields, `rd` and `rs2` the
5-bit ones; `none` for the reserved encodings (a zero immediate where the ISA
asks for a non-zero one, `rd = 0` for C.ADDIW, C.LWSP and C.LDSP, `rs1 = 0`
for C.JR, the reserved C.SUBW/C.ADDW neighbours) and the floating-point
forms. -/
def isaRvc (c : BitVec 16) : Option Instruction :=
  let rd := rvcReg c 7
  let rs2 := rvcReg c 2
  let rs1' := rvcRegP c 7
  let rs2' := rvcRegP c 2
  match (c.extractLsb' 0 2).toNat, (c.extractLsb' 13 3).toNat with
  | 0, 0 => if addi4spnImm c = 0 then none
      else some { fn := .addi, rd := rs2', rs1 := 2, imm := (addi4spnImm c).setWidth 64 }
  | 0, 2 => some { fn := .lw, rd := rs2', rs1 := rs1', imm := (clwImm c).setWidth 64 }
  | 0, 3 => some { fn := .ld, rd := rs2', rs1 := rs1', imm := (cldImm c).setWidth 64 }
  | 0, 6 => some { fn := .sw, rs1 := rs1', rs2 := rs2', imm := (clwImm c).setWidth 64 }
  | 0, 7 => some { fn := .sd, rs1 := rs1', rs2 := rs2', imm := (cldImm c).setWidth 64 }
  | 1, 0 => some { fn := .addi, rd := rd, rs1 := rd, imm := (ciImm c).signExtend 64 }
  | 1, 1 => if rd = 0 then none
      else some { fn := .addiw, rd := rd, rs1 := rd, imm := (ciImm c).signExtend 64 }
  | 1, 2 => some { fn := .addi, rd := rd, rs1 := 0, imm := (ciImm c).signExtend 64 }
  | 1, 3 =>
    if rd = 2 then
      if addi16spImm c = 0 then none
      else some { fn := .addi, rd := 2, rs1 := 2, imm := (addi16spImm c).signExtend 64 }
    else if cluiImm c = 0 then none
    else some { fn := .lui, rd := rd, imm := (cluiImm c).signExtend 64 }
  | 1, 4 =>
    match (c.extractLsb' 10 2).toNat with
    | 0 => some { fn := .srli, rd := rs1', rs1 := rs1', imm := (ciImm c).setWidth 64 }
    | 1 => some { fn := .srai, rd := rs1', rs1 := rs1', imm := (ciImm c).setWidth 64 }
    | 2 => some { fn := .andi, rd := rs1', rs1 := rs1', imm := (ciImm c).signExtend 64 }
    | _ =>
      match c.getLsbD 12, (c.extractLsb' 5 2).toNat with
      | false, 0 => some { fn := .sub, rd := rs1', rs1 := rs1', rs2 := rs2' }
      | false, 1 => some { fn := .xor, rd := rs1', rs1 := rs1', rs2 := rs2' }
      | false, 2 => some { fn := .or, rd := rs1', rs1 := rs1', rs2 := rs2' }
      | false, 3 => some { fn := .and, rd := rs1', rs1 := rs1', rs2 := rs2' }
      | true, 0 => some { fn := .subw, rd := rs1', rs1 := rs1', rs2 := rs2' }
      | true, 1 => some { fn := .addw, rd := rs1', rs1 := rs1', rs2 := rs2' }
      | _, _ => none
  | 1, 5 => some { fn := .rvcJAL, imm := (cjImm c).signExtend 64 }
  | 1, 6 => some { fn := .beq, rs1 := rs1', imm := (cbImm c).signExtend 64 }
  | 1, 7 => some { fn := .bne, rs1 := rs1', imm := (cbImm c).signExtend 64 }
  | 2, 0 => some { fn := .slli, rd := rd, rs1 := rd, imm := (ciImm c).setWidth 64 }
  | 2, 2 => if rd = 0 then none
      else some { fn := .lw, rd := rd, rs1 := 2, imm := (lwspImm c).setWidth 64 }
  | 2, 3 => if rd = 0 then none
      else some { fn := .ld, rd := rd, rs1 := 2, imm := (ldspImm c).setWidth 64 }
  | 2, 4 =>
    if c.getLsbD 12 then
      if rs2 = 0 then
        if rd = 0 then some { fn := .ebreak } else some { fn := .rvcJALR, rd := 1, rs1 := rd }
      else some { fn := .add, rd := rd, rs1 := rd, rs2 := rs2 }
    else if rs2 = 0 then
      if rd = 0 then none else some { fn := .rvcJALR, rs1 := rd }
    else some { fn := .add, rd := rd, rs2 := rs2 }
  | 2, 6 => some { fn := .sw, rs1 := 2, rs2 := rs2, imm := (swspImm c).setWidth 64 }
  | 2, 7 => some { fn := .sd, rs1 := 2, rs2 := rs2, imm := (sdspImm c).setWidth 64 }
  | _, _ => none

/-- What `rvcDecode` returns for a word the table expands to `e`: `e` itself,
except that C.ANDI keeps the 6-bit field, unextended, as its immediate. -/
def rvcDecoded (c : BitVec 16) (e : Instruction) : Instruction :=
  if e.fn = .andi then { e with imm := (ciImm c).setWidth 64 } else e

theorem isaRvc_zero : isaRvc 0 = none := by decide

theorem isaRvc_quadrant3 {c : BitVec 16} (hq : (c.extractLsb' 0 2).toNat = 3) :
    isaRvc c = none := by
  rw [isaRvc, hq]

/-! ## Maps that keep `|||` -/

/-- A map of 16-bit words that distributes over `|||` and sends 0 to 0:
every output bit is an `|||` of input bits. -/
class OrHom {n : Nat} (f : BitVec 16 → BitVec n) : Prop where
  map_or : ∀ a b, f (a ||| b) = f a ||| f b
  map_zero : f 0#16 = 0#n

instance OrHom.id : OrHom fun c : BitVec 16 => c := ⟨fun _ _ => rfl, rfl⟩

instance OrHom.zero {n : Nat} : OrHom fun _ : BitVec 16 => 0#n :=
  ⟨fun _ _ => BitVec.or_self.symm, rfl⟩

section Closure

variable {n m : Nat} {f g : BitVec 16 → BitVec n}

instance OrHom.or [hf : OrHom f] [hg : OrHom g] :
    OrHom fun c => f c ||| g c :=
  ⟨fun a b => by rw [hf.map_or, hg.map_or]; ac_rfl, by simp [hf.map_zero, hg.map_zero]⟩

instance OrHom.and [hf : OrHom f] (k : BitVec n) : OrHom fun c => f c &&& k :=
  ⟨fun a b => by
    rw [hf.map_or]
    ext i
    simp only [BitVec.getLsbD_and, BitVec.getLsbD_or, Bool.and_or_distrib_right],
   by simp [hf.map_zero]⟩

instance OrHom.shiftLeft [hf : OrHom f] (k : Nat) : OrHom fun c => f c <<< k :=
  ⟨fun a b => by rw [hf.map_or, BitVec.shiftLeft_or_distrib], by simp [hf.map_zero]⟩

instance OrHom.ushiftRight [hf : OrHom f] (k : Nat) : OrHom fun c => f c >>> k :=
  ⟨fun a b => by rw [hf.map_or, BitVec.ushiftRight_or_distrib], by simp [hf.map_zero]⟩

instance OrHom.setWidth [hf : OrHom f] (w : Nat) : OrHom fun c => (f c).setWidth w :=
  ⟨fun a b => by rw [hf.map_or, BitVec.setWidth_or], by simp [hf.map_zero]⟩

instance OrHom.extractLsb' [hf : OrHom f] (lo w : Nat) : OrHom fun c => (f c).extractLsb' lo w :=
  ⟨fun a b => by
    rw [hf.map_or]
    ext i
    simp only [BitVec.getLsbD_extractLsb', BitVec.getLsbD_or, Bool.and_or_distrib_left],
   by rw [hf.map_zero]; ext; simp⟩

instance OrHom.append {g : BitVec 16 → BitVec m} [hf : OrHom f] [hg : OrHom g] :
    OrHom fun c => f c ++ g c :=
  ⟨fun a b => by rw [hf.map_or, hg.map_or, BitVec.or_append], by simp [hf.map_zero, hg.map_zero]⟩

end Closure

/-- `extractLsb'` and `setWidth` of the word itself, which elaboration writes
without the `fun`. -/
instance OrHom.extractLsb'_self (lo w : Nat) : OrHom (BitVec.extractLsb' lo w : BitVec 16 → _) :=
  OrHom.extractLsb' lo w

instance OrHom.setWidth_self (w : Nat) : OrHom (BitVec.setWidth w : BitVec 16 → _) :=
  OrHom.setWidth w

/-- The low `k + 1` bits of `c` are its low `k` bits and bit `k`. -/
theorem and_mask_succ (c : BitVec 16) (k : Nat) :
    c &&& BitVec.ofNat 16 (2 ^ (k + 1) - 1) =
      (c &&& BitVec.ofNat 16 (2 ^ k - 1)) ||| (c &&& BitVec.twoPow 16 k) := by
  ext ⟨i, hi⟩
  simp only [BitVec.getLsbD_and, BitVec.getLsbD_or, BitVec.getLsbD_ofNat, BitVec.getLsbD_twoPow,
    Nat.testBit_two_pow_sub_one, hi, decide_True, Bool.true_and]
  rcases Nat.lt_trichotomy i k with h | rfl | h
  · simp [h, show i < k + 1 by omega, show k ≠ i by omega]
  · simp [hi]
  · simp [show ¬ i < k by omega, show ¬ i < k + 1 by omega, show k ≠ i by omega]

theorem OrHom.map_bit {n : Nat} (f : BitVec 16 → BitVec n) [hf : OrHom f] (c : BitVec 16)
    (k : Nat) : f (c &&& BitVec.twoPow 16 k) = if c.getLsbD k then f (BitVec.twoPow 16 k) else 0 := by
  rw [BitVec.and_twoPow]
  split
  · rfl
  · exact hf.map_zero

/-- **Two `|||`-maps agree when they agree on the 16 one-bit words**: by
induction on `k`, they agree on the low `k` bits of every word. -/
theorem OrHom.eq_of_basis {n : Nat} {f g : BitVec 16 → BitVec n} [hf : OrHom f] [hg : OrHom g]
    (h : ∀ j < 16, f (BitVec.twoPow 16 j) = g (BitVec.twoPow 16 j)) : ∀ c, f c = g c := by
  intro c
  have low : ∀ k ≤ 16,
      f (c &&& BitVec.ofNat 16 (2 ^ k - 1)) = g (c &&& BitVec.ofNat 16 (2 ^ k - 1)) := by
    intro k hk
    induction k with
    | zero => simp [hf.map_zero, hg.map_zero]
    | succ k ih =>
      rw [and_mask_succ, hf.map_or, hg.map_or, ih (by omega), OrHom.map_bit f, OrHom.map_bit g,
        h k (by omega)]
  have h16 := low 16 le_rfl
  rwa [show BitVec.ofNat 16 (2 ^ 16 - 1) = BitVec.allOnes 16 from rfl, BitVec.and_allOnes] at h16

/-! ## Fields and selectors -/

theorem and_mask_toNat (c : BitVec 16) (lo k : Nat) (hk : k ≤ 16) :
    (c >>> lo &&& BitVec.ofNat 16 (2 ^ k - 1)).toNat = (c.extractLsb' lo k).toNat := by
  have : 2 ^ k - 1 < 2 ^ 16 := by
    have := Nat.pow_le_pow_right (show 0 < 2 by decide) hk; omega
  rw [BitVec.toNat_and, BitVec.toNat_ushiftRight, BitVec.toNat_ofNat, Nat.mod_eq_of_lt this,
    Nat.and_pow_two_sub_one_eq_mod, BitVec.extractLsb'_toNat]

theorem rvcRegP_eq (c : BitVec 16) (lo : Nat) :
    regOf ((c >>> lo &&& 0x7).toNat + rvcRegOffset) = rvcRegP c lo := by
  have h : (c >>> lo &&& 0x7).toNat = (c.extractLsb' lo 3).toNat :=
    and_mask_toNat c lo 3 (by decide)
  have hlt := (c.extractLsb' lo 3).isLt
  exact Fin.ext (show ((c >>> lo &&& 0x7).toNat + 8) % 32 = (c.extractLsb' lo 3).toNat + 8 by
    rw [h]; omega)

theorem rvcReg_eq (c : BitVec 16) (lo : Nat) : regOf (c >>> lo &&& 0x1f).toNat = rvcReg c lo := by
  have h : (c >>> lo &&& 0x1f).toNat = (c.extractLsb' lo 5).toNat :=
    and_mask_toNat c lo 5 (by decide)
  have hlt := (c.extractLsb' lo 5).isLt
  exact Fin.ext (show (c >>> lo &&& 0x1f).toNat % 32 = (c.extractLsb' lo 5).toNat by
    rw [h]; omega)

theorem append_toNat (x : BitVec 3) (y : BitVec 2) :
    ((x ++ y).setWidth 16).toNat = x.toNat * 4 + y.toNat := by
  have key : ∀ a < 8, ∀ b < 4, (a <<< 2 ||| b) % 2 ^ 16 = a * 4 + b := by decide
  rw [BitVec.toNat_setWidth, BitVec.toNat_append]
  exact key _ x.isLt _ y.isLt

/-- The primary selector `in>>11&0x1c | in&0x3` is `funct3 * 4 + quadrant`. -/
theorem rvcSel_eq (c : BitVec 16) :
    (c >>> 11 &&& 0x1c ||| c &&& 0x3).toNat =
      (c.extractLsb' 13 3).toNat * 4 + (c.extractLsb' 0 2).toNat := by
  rw [← append_toNat]
  congr 1
  revert c
  exact OrHom.eq_of_basis (by decide)

/-- The selector of the C.SUB .. C.ADDW group, `in>>8&0x1c | in>>5&0x3`, is
`inst[12:10] * 4 + inst[6:5]`. -/
theorem arithSel_eq (c : BitVec 16) :
    (c >>> 8 &&& 0x1c ||| c >>> 5 &&& 0x3).toNat =
      (c.extractLsb' 10 3).toNat * 4 + (c.extractLsb' 5 2).toNat := by
  rw [← append_toNat]
  congr 1
  revert c
  exact OrHom.eq_of_basis (by decide)

theorem extractLsb'_10_3 (c : BitVec 16) :
    (c.extractLsb' 10 3).toNat = (if c.getLsbD 12 then 4 else 0) + (c.extractLsb' 10 2).toNat := by
  rw [← BitVec.testBit_toNat, Nat.testBit_to_div_mod, BitVec.extractLsb'_toNat,
    BitVec.extractLsb'_toNat, Nat.shiftRight_eq_div_pow]
  by_cases hb : c.toNat / 2 ^ 12 % 2 = 1 <;>
    simp only [hb, decide_True, decide_False, if_true, if_false, Bool.false_eq_true] <;> omega

/-- The test `in&0x1000` of the C.JR .. C.ADD group reads bit 12. -/
theorem and_bit12 (c : BitVec 16) : c &&& 0x1000 = if c.getLsbD 12 then 0x1000 else 0 := by
  ext ⟨i, hi⟩
  cases h12 : c.getLsbD 12 <;>
  · simp only [BitVec.getLsbD_and, if_true, if_false, Bool.false_eq_true, BitVec.natCast_eq_ofNat]
    interval_cases i <;> simp only [BitVec.reduceGetLsb, h12, Bool.and_true, Bool.and_false]

/-- `signExtend` of a field that is the zero extension of `bit + 1` bits is
their sign extension. -/
theorem signExtend_of_eq (bit : Fin 32) {v : BitVec 64} {x : BitVec (bit.val + 1)}
    (h : v = x.setWidth 64) : signExtend v bit = x.signExtend 64 :=
  h ▸ signExtend_setWidth bit x

/-! ## The decoder's immediates

Each lemma takes the expression `rvcDecode` computes from its extractor's
field and shows it is the ISA's immediate, on the 16 one-bit words.
-/

/-- The immediate of C.ADDI4SPN (`decodeCIW`). -/
theorem addi4spn_imm (c : BitVec 16) :
    ((c >>> 5 &&& 0xff).setWidth 64 &&& 0xc0) >>> 2 |||
      ((c >>> 5 &&& 0xff).setWidth 64 &&& 0x3c) <<< 4 |||
      ((c >>> 5 &&& 0xff).setWidth 64 &&& 0x2) <<< 1 ||| ((c >>> 5 &&& 0xff).setWidth 64 &&& 0x1) <<< 3 =
      (addi4spnImm c).setWidth 64 := by
  unfold addi4spnImm
  revert c
  exact OrHom.eq_of_basis (by decide)

/-- The immediate of C.LW (`decodeCL`). -/
theorem clw_imm (c : BitVec 16) :
    (((c >>> 8 &&& 0x1c ||| c >>> 5 &&& 0x3).setWidth 64 <<< 5 |||
      (c >>> 8 &&& 0x1c ||| c >>> 5 &&& 0x3).setWidth 64) &&& 0x3e) <<< 1 =
      (clwImm c).setWidth 64 := by
  unfold clwImm
  revert c
  exact OrHom.eq_of_basis (by decide)

/-- The immediate of C.LD (`decodeCL`). -/
theorem cld_imm (c : BitVec 16) :
    ((c >>> 8 &&& 0x1c ||| c >>> 5 &&& 0x3).setWidth 64 <<< 6 |||
      (c >>> 8 &&& 0x1c ||| c >>> 5 &&& 0x3).setWidth 64 <<< 1) &&& 0xf8 =
      (cldImm c).setWidth 64 := by
  unfold cldImm
  revert c
  exact OrHom.eq_of_basis (by decide)

/-- The immediate of C.SW (`decodeCS`). -/
theorem csw_imm (c : BitVec 16) :
    ((c >>> 8 &&& 0x1c ||| c >>> 5 &&& 0x3).setWidth 64 <<< 5 |||
      (c >>> 8 &&& 0x1c ||| c >>> 5 &&& 0x3).setWidth 64) <<< 1 &&& 0x7c =
      (clwImm c).setWidth 64 := by
  unfold clwImm
  revert c
  exact OrHom.eq_of_basis (by decide)

/-- The immediate of C.SD (`decodeCS`). -/
theorem csd_imm (c : BitVec 16) :
    ((c >>> 8 &&& 0x1c ||| c >>> 5 &&& 0x3).setWidth 64 <<< 5 |||
      (c >>> 8 &&& 0x1c ||| c >>> 5 &&& 0x3).setWidth 64) <<< 1 &&& 0xf8 =
      (cldImm c).setWidth 64 := by
  unfold cldImm
  revert c
  exact OrHom.eq_of_basis (by decide)

/-- The immediate of the CI format (`decodeCI`). -/
theorem ci_imm (c : BitVec 16) :
    (c >>> 7 &&& 0x20 ||| c >>> 2 &&& 0x1f).setWidth 64 =
      (ciImm c).setWidth 64 := by
  unfold ciImm
  revert c
  exact OrHom.eq_of_basis (by decide)

/-- The immediate of C.ADDI16SP (`decodeCI`), before `signExtend`. -/
theorem addi16sp_imm (c : BitVec 16) :
    ((c >>> 7 &&& 0x20 ||| c >>> 2 &&& 0x1f).setWidth 64 &&& 0x20) <<< 4 |||
      (c >>> 7 &&& 0x20 ||| c >>> 2 &&& 0x1f).setWidth 64 &&& 0x10 |||
      ((c >>> 7 &&& 0x20 ||| c >>> 2 &&& 0x1f).setWidth 64 &&& 0x8) <<< 3 |||
      ((c >>> 7 &&& 0x20 ||| c >>> 2 &&& 0x1f).setWidth 64 &&& 0x6) <<< 6 |||
      ((c >>> 7 &&& 0x20 ||| c >>> 2 &&& 0x1f).setWidth 64 &&& 0x1) <<< 5 =
      (addi16spImm c).setWidth 64 := by
  unfold addi16spImm
  revert c
  exact OrHom.eq_of_basis (by decide)

/-- The immediate of C.LUI (`decodeCI`), before `signExtend`. -/
theorem clui_imm (c : BitVec 16) :
    (c >>> 7 &&& 0x20 ||| c >>> 2 &&& 0x1f).setWidth 64 <<< 12 =
      (cluiImm c).setWidth 64 := by
  unfold cluiImm
  revert c
  exact OrHom.eq_of_basis (by decide)

/-- The immediate of C.SRLI, C.SRAI and C.ANDI (`decodeShiftCB`). -/
theorem shiftCB_imm (c : BitVec 16) :
    ((c &&& 0x1000) >>> 7 ||| c >>> 2 &&& 0x1f).setWidth 64 =
      (ciImm c).setWidth 64 := by
  unfold ciImm
  revert c
  exact OrHom.eq_of_basis (by decide)

/-- The immediate of C.J (`decodeCJ`), before `signExtend`. -/
theorem cj_imm (c : BitVec 16) :
    ((c >>> 2 &&& 0x7ff).setWidth 64 &&& 0x200) >>> 5 |||
      ((c >>> 2 &&& 0x7ff).setWidth 64 &&& 0x40) <<< 4 |||
      ((c >>> 2 &&& 0x7ff).setWidth 64 &&& 0x5a0) <<< 1 |||
      ((c >>> 2 &&& 0x7ff).setWidth 64 &&& 0x10) <<< 3 ||| (c >>> 2 &&& 0x7ff).setWidth 64 &&& 0xe |||
      ((c >>> 2 &&& 0x7ff).setWidth 64 &&& 1) <<< 5 =
      (cjImm c).setWidth 64 := by
  unfold cjImm
  revert c
  exact OrHom.eq_of_basis (by decide)

/-- The immediate of C.BEQZ and C.BNEZ (`decodeCB`), before `signExtend`. -/
theorem cb_imm (c : BitVec 16) :
    ((c >>> 5 &&& 0xe0 ||| c >>> 2 &&& 0x1f).setWidth 64 &&& 0x80) <<< 1 |||
      ((c >>> 5 &&& 0xe0 ||| c >>> 2 &&& 0x1f).setWidth 64 &&& 0x60) >>> 2 |||
      ((c >>> 5 &&& 0xe0 ||| c >>> 2 &&& 0x1f).setWidth 64 &&& 0x18) <<< 3 |||
      (c >>> 5 &&& 0xe0 ||| c >>> 2 &&& 0x1f).setWidth 64 &&& 0x6 |||
      ((c >>> 5 &&& 0xe0 ||| c >>> 2 &&& 0x1f).setWidth 64 &&& 0x1) <<< 5 =
      (cbImm c).setWidth 64 := by
  unfold cbImm
  revert c
  exact OrHom.eq_of_basis (by decide)

/-- The immediate of C.LWSP (`decodeCI`). -/
theorem lwsp_imm (c : BitVec 16) :
    ((c >>> 7 &&& 0x20 ||| c >>> 2 &&& 0x1f).setWidth 64 <<< 6 |||
      (c >>> 7 &&& 0x20 ||| c >>> 2 &&& 0x1f).setWidth 64) &&& 0xfc =
      (lwspImm c).setWidth 64 := by
  unfold lwspImm
  revert c
  exact OrHom.eq_of_basis (by decide)

/-- The immediate of C.LDSP (`decodeCI`). -/
theorem ldsp_imm (c : BitVec 16) :
    ((c >>> 7 &&& 0x20 ||| c >>> 2 &&& 0x1f).setWidth 64 <<< 6 |||
      (c >>> 7 &&& 0x20 ||| c >>> 2 &&& 0x1f).setWidth 64) &&& 0x1f8 =
      (ldspImm c).setWidth 64 := by
  unfold ldspImm
  revert c
  exact OrHom.eq_of_basis (by decide)

/-- The immediate of C.SWSP (`decodeCSS`). -/
theorem swsp_imm (c : BitVec 16) :
    ((c >>> 7 &&& 0x3f).setWidth 64 <<< 6 ||| (c >>> 7 &&& 0x3f).setWidth 64) &&& 0xfc =
      (swspImm c).setWidth 64 := by
  unfold swspImm
  revert c
  exact OrHom.eq_of_basis (by decide)

/-- The immediate of C.SDSP (`decodeCSS`). -/
theorem sdsp_imm (c : BitVec 16) :
    ((c >>> 7 &&& 0x3f).setWidth 64 <<< 6 ||| (c >>> 7 &&& 0x3f).setWidth 64) &&& 0x1f8 =
      (sdspImm c).setWidth 64 := by
  unfold sdspImm
  revert c
  exact OrHom.eq_of_basis (by decide)

/-! ## The decoder against the table

One lemma per quadrant: the selector `in>>11&0x1c | in&0x3` is
`funct3 * 4 + quadrant` (`rvcSel_eq`), so each `funct3` of the table meets
one arm of `rvcDecode`, where the extractors' fields are the table's registers
and the permuted fields its immediates.
-/

/-- Quadrant 0: C.ADDI4SPN and the integer loads and stores. -/
theorem rvcDecode_quadrant0 {c : BitVec 16} {e : Instruction} (hc : c ≠ 0)
    (hq : (c.extractLsb' 0 2).toNat = 0) (h : isaRvc c = some e) :
    rvcDecode c = .ok (.ok (rvcDecoded c e)) := by
  obtain ⟨f, hf, hf8⟩ : ∃ f, (c.extractLsb' 13 3).toNat = f ∧ f < 8 := ⟨_, rfl, BitVec.isLt _⟩
  rw [isaRvc, hq, hf] at h
  rw [rvcDecode, if_neg hc, rvcSel_eq, hq, hf]
  interval_cases f <;>
    simp only [Nat.reduceMul, Nat.reduceAdd, reduceCtorEq, Option.some.injEq] at h ⊢
  · -- C.ADDI4SPN
    split at h <;> cases h
    simp only [decodeCIW, rvcRegP_eq, addi4spn_imm]; rfl
  · -- C.LW
    subst h; simp only [decodeCL, rvcRegP_eq, clw_imm]; rfl
  · -- C.LD
    subst h; simp only [decodeCL, rvcRegP_eq, cld_imm]; rfl
  · -- C.SW
    subst h; simp only [decodeCS, rvcRegP_eq, csw_imm]; rfl
  · -- C.SD
    subst h; simp only [decodeCS, rvcRegP_eq, csd_imm]; rfl

/-- Quadrant 1: the immediate forms, the register-register group and the
jumps and branches. -/
theorem rvcDecode_quadrant1 {c : BitVec 16} {e : Instruction} (hc : c ≠ 0)
    (hq : (c.extractLsb' 0 2).toNat = 1) (h : isaRvc c = some e) :
    rvcDecode c = .ok (.ok (rvcDecoded c e)) := by
  obtain ⟨f, hf, hf8⟩ : ∃ f, (c.extractLsb' 13 3).toNat = f ∧ f < 8 := ⟨_, rfl, BitVec.isLt _⟩
  rw [isaRvc, hq, hf] at h
  rw [rvcDecode, if_neg hc, rvcSel_eq, hq, hf]
  interval_cases f <;>
    simp only [Nat.reduceMul, Nat.reduceAdd, reduceCtorEq, Option.some.injEq] at h ⊢
  · -- C.ADDI
    subst h; simp only [decodeCI, rvcReg_eq, signExtend_of_eq 5 (ci_imm c)]; rfl
  · -- C.ADDIW
    split at h <;> cases h
    simp only [decodeCI, rvcReg_eq, signExtend_of_eq 5 (ci_imm c)]; rfl
  · -- C.LI
    subst h; simp only [decodeCI, rvcReg_eq, signExtend_of_eq 5 (ci_imm c)]; rfl
  · -- C.ADDI16SP and C.LUI
    simp only [decodeCI, rvcReg_eq]
    by_cases hr : rvcReg c 7 = 2 <;>
      simp only [hr, if_true, if_false, ne_eq, not_true, not_false_eq_true] at h ⊢
    · split at h <;> cases h
      simp only [signExtend_of_eq 9 (addi16sp_imm c)]; rfl
    · split at h <;> cases h
      simp only [signExtend_of_eq 17 (clui_imm c)]; rfl
  · -- C.SRLI, C.SRAI, C.ANDI, and C.SUB .. C.ADDW
    have hsel : (c >>> 10 &&& 3).toNat = (c.extractLsb' 10 2).toNat :=
      and_mask_toNat c 10 2 (by decide)
    rw [hsel, arithSel_eq, extractLsb'_10_3]
    obtain ⟨g, hg, hg4⟩ : ∃ g, (c.extractLsb' 10 2).toNat = g ∧ g < 4 := ⟨_, rfl, BitVec.isLt _⟩
    obtain ⟨s, hs, hs4⟩ : ∃ s, (c.extractLsb' 5 2).toNat = s ∧ s < 4 := ⟨_, rfl, BitVec.isLt _⟩
    rw [hg, hs] at h ⊢
    simp only [decodeShiftCB, decodeCS, rvcRegP_eq, shiftCB_imm]
    interval_cases g
    · simp only [Option.some.injEq] at h; subst h; rfl
    · simp only [Option.some.injEq] at h; subst h; rfl
    · simp only [Option.some.injEq] at h; subst h; rfl
    · cases hb : c.getLsbD 12 <;> interval_cases s <;>
        simp only [hb, if_true, if_false, Bool.false_eq_true, Nat.reduceMul, Nat.reduceAdd,
          reduceCtorEq, Option.some.injEq] at h ⊢ <;>
        subst h <;> rfl
  · -- C.J
    subst h; simp only [decodeCJ, signExtend_of_eq 11 (cj_imm c)]; rfl
  · -- C.BEQZ
    subst h; simp only [decodeCB, rvcRegP_eq, signExtend_of_eq 8 (cb_imm c)]; rfl
  · -- C.BNEZ
    subst h; simp only [decodeCB, rvcRegP_eq, signExtend_of_eq 8 (cb_imm c)]; rfl

/-- Quadrant 2: C.SLLI, the stack-pointer loads and stores, and the C.JR ..
C.ADD group told apart by bit 12 and the two register fields. -/
theorem rvcDecode_quadrant2 {c : BitVec 16} {e : Instruction} (hc : c ≠ 0)
    (hq : (c.extractLsb' 0 2).toNat = 2) (h : isaRvc c = some e) :
    rvcDecode c = .ok (.ok (rvcDecoded c e)) := by
  obtain ⟨f, hf, hf8⟩ : ∃ f, (c.extractLsb' 13 3).toNat = f ∧ f < 8 := ⟨_, rfl, BitVec.isLt _⟩
  rw [isaRvc, hq, hf] at h
  rw [rvcDecode, if_neg hc, rvcSel_eq, hq, hf]
  interval_cases f <;>
    simp only [Nat.reduceMul, Nat.reduceAdd, reduceCtorEq, Option.some.injEq] at h ⊢
  · -- C.SLLI
    subst h; simp only [decodeCI, rvcReg_eq, ci_imm]; rfl
  · -- C.LWSP
    split at h <;> cases h
    simp only [decodeCI, rvcReg_eq, lwsp_imm]; rfl
  · -- C.LDSP
    split at h <;> cases h
    simp only [decodeCI, rvcReg_eq, ldsp_imm]; rfl
  · -- C.JR, C.MV, C.EBREAK, C.JALR and C.ADD
    simp only [decodeCR, rvcReg_eq]
    cases hb : c.getLsbD 12 <;>
      by_cases h2 : rvcReg c 2 = 0 <;> by_cases h7 : rvcReg c 7 = 0 <;>
      simp only [and_bit12, hb, h2, h7, if_true, if_false, Bool.false_eq_true, true_and, and_true,
        false_and, and_false, BitVec.reduceEq, reduceCtorEq, Option.some.injEq] at h ⊢ <;>
      subst h <;> rfl
  · -- C.SWSP
    subst h; simp only [decodeCSS, rvcReg_eq, swsp_imm]; rfl
  · -- C.SDSP
    subst h; simp only [decodeCSS, rvcReg_eq, sdsp_imm]; rfl

/-- `rvcDecode` expands RV64C as the ISA does, but for C.ANDI: for every
16-bit word that the expansion table maps to an instruction `e`,
`rvcDecode` returns `e` (same handler, registers and 64-bit immediate),
except for C.ANDI, where it returns the 6-bit immediate field zero-extended
in place of its sign extension. -/
theorem rvcDecode_expands (c : BitVec 16) (e : Instruction) (h : isaRvc c = some e) :
    rvcDecode c = .ok (.ok (rvcDecoded c e)) := by
  have hc : c ≠ 0 := by rintro rfl; cases isaRvc_zero ▸ h
  obtain ⟨q, hq, hq4⟩ : ∃ q, (c.extractLsb' 0 2).toNat = q ∧ q < 4 := ⟨_, rfl, BitVec.isLt _⟩
  interval_cases q
  · exact rvcDecode_quadrant0 hc hq h
  · exact rvcDecode_quadrant1 hc hq h
  · exact rvcDecode_quadrant2 hc hq h
  · cases isaRvc_quadrant3 hq ▸ h

/-! ## Compressed instructions run as their expansion -/

/-- `c.lw a0, 4(a1)` (`0x41C8`) at `PC = 0`. -/
def clwVM : VM := VM.boot #[0xC8, 0x41] (by decide) fun _ => 0

end RiscvEmu
