import RiscvEmu.Core.Rvi

/-!
# RVC decoder (`rvc.go`)

`rvcDecode` maps a 16-bit compressed word to the `Instruction` of an RVI
handler, or of one of the two compressed jumps. The field extractors
`decodeCR` .. `decodeCJ` are transcribed with Go's precedence (`&`, `<<`
and `>>` bind alike and tighter than `|`), which the parentheses below spell
out. The `panic` calls for floating-point and reserved forms are `throw`s
of `Panic.msg` with the source's texts.
-/

namespace RiscvEmu

/-- `rvcRegOffset`: the 3-bit register fields name `x8 .. x15`. -/
def rvcRegOffset : Nat := 8

/-- A register number held in the low bits of a decoded field. -/
def regOf (x : Nat) : Fin 32 := Fin.ofNat x

def decodeCR (c : BitVec 16) : Fin 32 × Fin 32 :=
  (regOf (c >>> 7 &&& 0x1f).toNat, regOf (c >>> 2 &&& 0x1f).toNat)

def decodeCI (c : BitVec 16) : BitVec 64 × Fin 32 :=
  ((c >>> 7 &&& 0x20 ||| c >>> 2 &&& 0x1f).setWidth 64, regOf (c >>> 7 &&& 0x1f).toNat)

def decodeCSS (c : BitVec 16) : BitVec 64 × Fin 32 :=
  ((c >>> 7 &&& 0x3f).setWidth 64, regOf (c >>> 2 &&& 0x1f).toNat)

def decodeCIW (c : BitVec 16) : BitVec 64 × Fin 32 :=
  ((c >>> 5 &&& 0xff).setWidth 64, regOf ((c >>> 2 &&& 0x7).toNat + rvcRegOffset))

def decodeCL (c : BitVec 16) : BitVec 64 × Fin 32 × Fin 32 :=
  ((c >>> 8 &&& 0x1c ||| c >>> 5 &&& 0x3).setWidth 64,
   regOf ((c >>> 7 &&& 0x7).toNat + rvcRegOffset), regOf ((c >>> 2 &&& 0x7).toNat + rvcRegOffset))

def decodeCS (c : BitVec 16) : BitVec 64 × Fin 32 × Fin 32 :=
  ((c >>> 8 &&& 0x1c ||| c >>> 5 &&& 0x3).setWidth 64,
   regOf ((c >>> 7 &&& 0x7).toNat + rvcRegOffset), regOf ((c >>> 2 &&& 0x7).toNat + rvcRegOffset))

def decodeCB (c : BitVec 16) : BitVec 64 × Fin 32 :=
  ((c >>> 5 &&& 0xe0 ||| c >>> 2 &&& 0x1f).setWidth 64,
   regOf ((c >>> 7 &&& 0x7).toNat + rvcRegOffset))

/-- `decodeShiftCB`, the CB specialization for shifts. -/
def decodeShiftCB (c : BitVec 16) : BitVec 64 × Fin 32 :=
  (((c &&& 0x1000) >>> 7 ||| c >>> 2 &&& 0x1f).setWidth 64,
   regOf ((c >>> 7 &&& 0x7).toNat + rvcRegOffset))

def decodeCJ (c : BitVec 16) : BitVec 64 := (c >>> 2 &&& 0x7ff).setWidth 64

/-- `rvcDecode`, by the primary selector `in>>11&0x1c | in&0x3`. -/
def rvcDecode (c : BitVec 16) : Except Panic (Except Err Instruction) :=
  if c = 0 then pure (.error (.illegalRvc c)) else
  match (c >>> 11 &&& 0x1c ||| c &&& 0x3).toNat with
  | 0x00 => -- C.ADDI4SPN; bits 54987623 -> 9876543200
    let (imm, r) := decodeCIW c
    let imm := (imm &&& 0xc0) >>> 2 ||| (imm &&& 0x3c) <<< 4 ||| (imm &&& 0x2) <<< 1 |||
      (imm &&& 0x1) <<< 3
    pure (.ok { fn := .addi, rd := r, rs1 := SP, imm := imm })
  | 0x04 => throw (.msg "C.FLD (the F standard extension) is not supported")
  | 0x08 => -- C.LW; 54326 -> 6543200
    let (imm, r1, r2) := decodeCL c
    pure (.ok { fn := .lw, rd := r2, rs1 := r1, imm := ((imm <<< 5 ||| imm) &&& 0x3e) <<< 1 })
  | 0x0C => -- C.LD
    let (imm, r1, r2) := decodeCL c
    pure (.ok { fn := .ld, rd := r2, rs1 := r1, imm := (imm <<< 6 ||| imm <<< 1) &&& 0xf8 })
  | 0x10 => throw (.msg "reserved")
  | 0x14 => throw (.msg "C.FSD (the F standard extension) is not suppored")
  | 0x18 => -- C.SW; 54326 -> 6543200
    let (imm, r1, r2) := decodeCS c
    pure (.ok { fn := .sw, rs2 := r2, rs1 := r1, imm := (imm <<< 5 ||| imm) <<< 1 &&& 0x7c })
  | 0x1C => -- C.SD; 54376 -> 76543000
    let (imm, r1, r2) := decodeCS c
    pure (.ok { fn := .sd, rs2 := r2, rs1 := r1, imm := (imm <<< 5 ||| imm) <<< 1 &&& 0xf8 })
  | 0x01 => -- C.NOP, C.ADDI
    let (imm, r) := decodeCI c
    pure (.ok { fn := .addi, rd := r, rs1 := r, imm := signExtend imm 5 })
  | 0x05 => -- C.ADDIW
    let (imm, r) := decodeCI c
    pure (.ok { fn := .addiw, rd := r, rs1 := r, imm := signExtend imm 5 })
  | 0x09 => -- C.LI
    let (imm, r) := decodeCI c
    pure (.ok { fn := .addi, imm := signExtend imm 5, rd := r, rs1 := Zero })
  | 0x0D => -- C.LUI, or C.ADDI16SP when rd is sp
    let (imm, r) := decodeCI c
    if r ≠ 2 then pure (.ok { fn := .lui, rd := r, imm := signExtend (imm <<< 12) 17 })
    else
      -- bits: 946875 -> 9867540000
      let imm := signExtend ((imm &&& 0x20) <<< 4 ||| imm &&& 0x10 ||| (imm &&& 0x8) <<< 3 |||
        (imm &&& 0x6) <<< 6 ||| (imm &&& 0x1) <<< 5) 9
      pure (.ok { fn := .addi, rd := SP, rs1 := SP, imm := imm })
  | 0x11 =>
    match (c >>> 10 &&& 0x3).toNat with
    | 0x00 => -- C.SRLI
      let (imm, r) := decodeShiftCB c
      pure (.ok { fn := .srli, rd := r, rs1 := r, imm := imm })
    | 0x01 => -- C.SRAI
      let (imm, r) := decodeShiftCB c
      pure (.ok { fn := .srai, rd := r, rs1 := r, imm := imm })
    | 0x02 => -- C.ANDI
      let (imm, r) := decodeShiftCB c
      pure (.ok { fn := .andi, rd := r, rs1 := r, imm := imm })
    | _ =>
      let (_, r1, r2) := decodeCS c
      match (c >>> 8 &&& 0x1c ||| c >>> 5 &&& 0x3).toNat with
      | 0xc => pure (.ok { fn := .sub, rd := r1, rs1 := r1, rs2 := r2 })
      | 0xd => pure (.ok { fn := .xor, rd := r1, rs1 := r1, rs2 := r2 })
      | 0xe => pure (.ok { fn := .or, rd := r1, rs1 := r1, rs2 := r2 })
      | 0xf => pure (.ok { fn := .and, rd := r1, rs1 := r1, rs2 := r2 })
      | 0x1c => pure (.ok { fn := .subw, rd := r1, rs1 := r1, rs2 := r2 })
      | 0x1d => pure (.ok { fn := .addw, rd := r1, rs1 := r1, rs2 := r2 })
      | _ => throw (.msg "unreachable")
  | 0x15 => -- C.J; B498A673215 -> BA9876543210
    let imm := decodeCJ c
    let imm := signExtend ((imm &&& 0x200) >>> 5 ||| (imm &&& 0x40) <<< 4 |||
      (imm &&& 0x5a0) <<< 1 ||| (imm &&& 0x10) <<< 3 ||| imm &&& 0xe ||| (imm &&& 1) <<< 5) 11
    pure (.ok { fn := .rvcJAL, rd := Zero, imm := imm })
  | 0x19 => -- C.BEQZ; 84376215 -> 876543210
    let (imm, r) := decodeCB c
    let imm := (imm &&& 0x80) <<< 1 ||| (imm &&& 0x60) >>> 2 ||| (imm &&& 0x18) <<< 3 |||
      imm &&& 0x6 ||| (imm &&& 0x1) <<< 5
    pure (.ok { fn := .beq, rs1 := r, rs2 := Zero, imm := signExtend imm 8 })
  | 0x1D => -- C.BNEZ
    let (imm, r) := decodeCB c
    let imm := (imm &&& 0x80) <<< 1 ||| (imm &&& 0x60) >>> 2 ||| (imm &&& 0x18) <<< 3 |||
      imm &&& 0x6 ||| (imm &&& 0x1) <<< 5
    pure (.ok { fn := .bne, rs1 := r, rs2 := Zero, imm := signExtend imm 8 })
  | 0x02 => -- C.SLLI
    let (imm, r) := decodeCI c
    pure (.ok { fn := .slli, rd := r, rs1 := r, imm := imm })
  | 0x06 => throw (.msg "FLDSP (the F standard extension) is not suppored")
  | 0x0A => -- C.LWSP; 543276 -> 76543200
    let (imm, r) := decodeCI c
    pure (.ok { fn := .lw, rd := r, rs1 := SP, imm := (imm <<< 6 ||| imm) &&& 0xfc })
  | 0x0E => -- C.LDSP; 543876 -> 876543000
    let (imm, r) := decodeCI c
    pure (.ok { fn := .ld, rd := r, rs1 := SP, imm := (imm <<< 6 ||| imm) &&& 0x1f8 })
  | 0x12 =>
    let (r1, r2) := decodeCR c
    let b := c &&& 0x1000
    if b = 0 ∧ r2 = 0 then pure (.ok { fn := .rvcJALR, rd := Zero, rs1 := r1 })  -- C.JR
    else if b = 0 then pure (.ok { fn := .add, rd := r1, rs1 := Zero, rs2 := r2 })  -- C.MV
    else if b = 0x1000 ∧ r1 = 0 ∧ r2 = 0 then pure (.ok { fn := .ebreak })  -- C.EBREAK
    else if b = 0x1000 ∧ r2 = 0 then pure (.ok { fn := .rvcJALR, rd := RA, rs1 := r1 })  -- C.JALR
    else pure (.ok { fn := .add, rd := r1, rs1 := r1, rs2 := r2 })  -- C.ADD
  | 0x16 => throw (.msg "FSDSP (the F standard extension) is not suppored")
  | 0x1A => -- C.SWSP; 543876 -> 765432
    let (imm, r) := decodeCSS c
    pure (.ok { fn := .sw, rs1 := SP, rs2 := r, imm := (imm <<< 6 ||| imm) &&& 0xfc })
  | 0x1E => -- C.SDSP; 543876 -> 876543000
    let (imm, r) := decodeCSS c
    pure (.ok { fn := .sd, rs1 := SP, rs2 := r, imm := (imm <<< 6 ||| imm) &&& 0x1f8 })
  | _ => throw (.msg "unrecognized rvc instruction")

/-- `rvcJAL` (C.J): link `PC + 2`, jump by the pre-extended offset. -/
def rvcJAL : Handler := fun vm i =>
  let vm := vm.store i.rd (vm.pc + 2)
  pure ⟨{ updatedPC := true }, none, { vm with pc := i.imm + vm.pc }⟩

/-- `rvcJALR` (C.JR, C.JALR): link `PC + 2` before reading `rs1`. -/
def rvcJALR : Handler := fun vm i =>
  let vm := vm.store i.rd (vm.pc + 2)
  pure ⟨{ updatedPC := true }, none, { vm with pc := (i.imm + vm.reg i.rs1) &&& ~~~1 }⟩

end RiscvEmu
