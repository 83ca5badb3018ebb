import RiscvEmu.Core.Rvc

/-!
# Instruction decoding (`Decode`, `decodeSize`, `rvi64Instructions`)

`decode` classifies the length from the first byte (`decodeSize`), hands a
16-bit word to `rvcDecode`, and decodes a 32-bit word by its base opcode:
the format fixes the immediate, and R-type words add `funct7 << 8` to the
lookup key `funct7 | funct3<<5 | opcode[6:2]`.

`rvi64Instructions` is a Go array written as a keyed composite literal
`[...]{key: fn, ...}`: its length is the largest key plus one, an absent key
holds `nil`, and an index at or past the length panics. The model keeps the
literal's entries as a list and derives both from it.
-/

namespace RiscvEmu

/-- The index expression `b[k]` on the decoder's input slice. -/
def byteAt (b : Array (BitVec 8)) (k : Nat) : Except Panic (BitVec 8) :=
  if h : k < b.size then pure b[k] else throw (.indexOutOfRange k b.size)

/-- `decodeSize`: the instruction size in bytes, and `false` for the sizes
reserved for 192-bit and longer encodings. -/
def decodeSize (b : Array (BitVec 8)) : Except Panic (Nat × Bool) := do
  let b0 ← byteAt b 0
  if b0 &&& 0x3 ≠ 0x3 then pure (2, true)
  else if b0 &&& 0x1f ≠ 0x1f then pure (4, true)
  else if b0 &&& 0x3f = 0x1f then pure (3, true)
  else if b0 &&& 0x7f = 0x3f then pure (4, true)
  else if b0 &&& 0x7f = 0x7f then
    let n := (← byteAt b 1) >>> 4 &&& 0x7
    if n = 7 then pure (0, false) else pure (5 + 2 * n.toNat, true)
  else throw (.msg "unreachable")

/-- The RV32I entries of the composite literal `rvi64Instructions`, keyed by
`funct7 | funct3 | opcode>>2` (riscv-spec v2.2, page 104). -/
def rv32iEntries : List (Nat × Op) :=
  [(0x0D, .lui), (0x05, .auipc), (0x1B, .jal), (0x19, .jalr),
   (0x18, .beq), (0x38, .bne), (0x98, .blt), (0xB8, .bge), (0xD8, .bltu), (0xF8, .bgeu),
   (0x00, .lb), (0x20, .lh), (0x40, .lw), (0x80, .lbu), (0xA0, .lhu),
   (0x08, .sb), (0x28, .sh), (0x48, .sw),
   (0x04, .addi), (0x44, .slti), (0x64, .sltiu), (0x84, .xori), (0xC4, .ori), (0xE4, .andi),
   (0x000C, .add), (0x200C, .sub), (0x002C, .sll), (0x004C, .slt), (0x006C, .sltu),
   (0x008C, .xor), (0x00AC, .srl), (0x20AC, .sra), (0x0CC, .or), (0x0EC, .and),
   (0x03, .fence), (0x23, .fenceI), (0x1C, .ecallOrBreak),
   (0x3C, .csrrw), (0x5C, .csrrs), (0x7C, .csrrc), (0xBC, .csrrwi), (0xDC, .csrrsi),
   (0xFC, .csrrci)]

/-- The RV64I entries (page 105). -/
def rv64iEntries : List (Nat × Op) :=
  [(0xC0, .lwu), (0x60, .ld), (0x68, .sd), (0x24, .slli), (0xA4, .shiftRight),
   (0x06, .addiw), (0x0026, .slliw), (0x00A6, .srliw), (0x20A6, .sraiw),
   (0x000E, .addw), (0x200E, .subw), (0x002E, .sllw), (0x00AE, .srlw), (0x20AE, .sraw)]

/-- The entries of the "M" extension. -/
def rv64mEntries : List (Nat × Op) :=
  [(0x10C, .mul), (0x12C, .mulh), (0x14C, .mulhsu), (0x16C, .mulhu), (0x18C, .div),
   (0x1AC, .divu), (0x1CC, .rem), (0x1EC, .remu), (0x10E, .mulw), (0x18E, .divw),
   (0x1AE, .divuw), (0x1CE, .remw), (0x1EE, .remuw)]

/-- The entries of the composite literal `rvi64Instructions`, in source order. -/
def rvi64Instructions : List (Nat × Op) := rv32iEntries ++ rv64iEntries ++ rv64mEntries

/-- `len(rvi64Instructions)`: a `[...]` literal is one longer than its
largest key, `0x20AE` (SRAW); `rvi64Len_spec` checks this against the
entries. -/
def rvi64Len : Nat := 0x20AF

theorem rvi64Len_spec :
    (∀ e ∈ rvi64Instructions, e.1 < rvi64Len) ∧ (rvi64Len - 1, Op.sraw) ∈ rvi64Instructions := by
  decide

/-- The index expression `rvi64Instructions[key]`: `none` is a `nil` slot. -/
def rvi64At (key : BitVec 64) : Except Panic (Option Op) :=
  if key.toNat < rvi64Len then pure (rvi64Instructions.lookup key.toNat)
  else throw (.indexOutOfRange key.toNat rvi64Len)

/-- The lookup key `funct7 | in>>7&0xE0 | in>>2&0x1f`: `funct7 << 8` for
R-type words (0 otherwise), `funct3 << 5`, and the base opcode. -/
def rviKey (funct7 w : BitVec 64) : BitVec 64 := funct7 ||| w >>> 7 &&& 0xE0 ||| w >>> 2 &&& 0x1f

/-- The tail of `Decode` after the format switch: the key
`funct7 | in>>7&0xE0 | in>>2&0x1f`, the index `rvi64Instructions[key]`, and
the `nil` check, for a word whose format set `funct7` and the immediate. -/
def rviLookup (pc w funct7 imm : BitVec 64) : Except Panic (Except Err (Instruction × Nat)) := do
  let key := rviKey funct7 w
  let rs1 := regOf (w >>> 15 &&& 0x1f).toNat
  let rs2 := regOf (w >>> 20 &&& 0x1f).toNat
  let rd := regOf (w >>> 7 &&& 0x1f).toNat
  match ← rvi64At key with
  | none => pure (.error (.noTableEntry w pc key))
  | some fn => pure (.ok ({ fn := fn, rs1 := rs1, rs2 := rs2, rd := rd, imm := imm }, 4))

/-- The 32-bit half of `Decode`, from the extraction of the register fields
on. `bop` is the base opcode `in>>2 & 0x1f`. -/
def decodeRvi (pc w : BitVec 64) : Except Panic (Except Err (Instruction × Nat)) :=
  let rs1 := regOf (w >>> 15 &&& 0x1f).toNat
  let rs2 := regOf (w >>> 20 &&& 0x1f).toNat
  let rd := regOf (w >>> 7 &&& 0x1f).toNat
  match (w >>> 2 &&& 0x1f).toNat with
  -- boAMO, boOp, boOp32, boOpFP: r-type
  | 0x0b | 0x0c | 0x0e | 0x14 => rviLookup pc w (w >>> 17 &&& 0x7f00) 0
  -- boLoad, boLoadFP, boMiscMem, boOpImm, boOpImm32, boJALR, boSystem: i-type
  | 0x00 | 0x01 | 0x03 | 0x04 | 0x06 | 0x19 | 0x1c => rviLookup pc w 0 (w >>> 20 &&& 0xfff)
  -- boStore, boStoreFP: s-type
  | 0x08 | 0x09 => rviLookup pc w 0 (w >>> 20 &&& 0xFE0 ||| w >>> 7 &&& 0x1f)
  -- boBranch: b-type
  | 0x18 => rviLookup pc w 0 (w >>> 19 &&& 0x1000 ||| w <<< 4 &&& 0x800 ||| w >>> 20 &&& 0x7e0 |||
      w >>> 7 &&& 0x1e)
  -- boAUIPC, boLUI: u-type, dispatched without the table
  | 0x05 | 0x0d =>
    let imm := w &&& 0xFFFFF000
    match (w >>> 2 &&& 0x1f).toNat with
    | 0x0D => pure (.ok ({ fn := .lui, rs1 := rs1, rs2 := rs2, rd := rd, imm := imm }, 4))
    | 0x05 => pure (.ok ({ fn := .auipc, rs1 := rs1, rs2 := rs2, rd := rd, imm := imm }, 4))
    | _ => pure (.error (.notUType w))
  -- boJAL: j-type
  | 0x1b =>
    let imm := w >>> 11 &&& 0x100000 ||| w &&& 0xff000 ||| w >>> 9 &&& 0x800 ||| w >>> 20 &&& 0x7fe
    pure (.ok ({ fn := .jal, rs1 := rs1, rs2 := rs2, rd := rd, imm := imm }, 4))
  | bop => pure (.error (.unrecognizedFormat w bop))

/-- `Decode(pc, b)`: the instruction at the start of `b` and its size. -/
def decode (pc : BitVec 64) (b : Array (BitVec 8)) :
    Except Panic (Except Err (Instruction × Nat)) := do
  if b.size = 0 ∨ b.size % 2 ≠ 0 then return .error (.badLength b.size)
  let (size, ok) ← decodeSize b
  if !ok then return .error (.unsupportedSize size)
  if b.size < size then return .error (.notEnoughBytes b.size size)
  if size = 2 then
    let c := (← byteAt b 1).setWidth 16 <<< 8 ||| (← byteAt b 0).setWidth 16
    return (← rvcDecode c).map (·, 2)
  if size ≠ 4 then return .error (.sizeNotSupported size)
  let w := (← byteAt b 3).setWidth 64 <<< 24 ||| (← byteAt b 2).setWidth 64 <<< 16 |||
    (← byteAt b 1).setWidth 64 <<< 8 ||| (← byteAt b 0).setWidth 64
  decodeRvi pc w

end RiscvEmu
