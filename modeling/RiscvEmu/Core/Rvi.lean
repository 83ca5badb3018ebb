import RiscvEmu.Core.Machine

/-!
# RV64IM handlers (`rvi.go`)

One definition per Go handler, under its Go name. Handlers that differ only
in the value they compute or the condition they test are members of a
family: `writeRd` (one register write through `store`), `branch`, `load`,
`storeBytes` and `csrSet`. Each member is that family applied to its own
expression, written as the Go source writes it; handlers with a shape of
their own (`jal`, `jalr`, `csrrw`, `csrrwi`, `ecall`, `shiftRight`,
`ecallOrBreak`, `remw`, `remuw`) keep their own bodies.

Go's `int32(x)` is `x.setWidth 32` read as signed, `uint64(int32 v)` is
`v.signExtend 64`, `uint64(uint32 v)` is `v.setWidth 64`, and Go's integer
`/` and `%` truncate toward zero: `sdiv`/`srem` on signed operands,
`udiv`/`umod` on unsigned ones. A Go division by zero panics.
-/

namespace RiscvEmu

/-! ## Families -/

/-- A handler that writes `f vm in` to `rd` through `store` and returns
`flags{}`. -/
def writeRd (f : VM → Instruction → BitVec 64) : Handler := fun vm i =>
  pure ⟨{}, none, vm.store i.rd (f vm i)⟩

/-- The conditional branches: when `taken` holds of the two source registers,
`vm.PC = vm.PC + signExtend(in.imm, 12)` and the handler reports it. -/
def branch (taken : BitVec 64 → BitVec 64 → Bool) : Handler := fun vm i =>
  if taken (vm.reg i.rs1) (vm.reg i.rs2) then
    pure ⟨{ updatedPC := true }, none, { vm with pc := vm.pc + signExtend i.imm 12 }⟩
  else pure ⟨{}, none, vm⟩

/-- The effective address of loads and stores,
`vm.Reg[in.rs1] + signExtend(in.imm, 11)`. -/
def VM.address (vm : VM) (i : Instruction) : BitVec 64 :=
  vm.reg i.rs1 + signExtend i.imm 11

/-- The loads: read `width` bytes at the effective address, then `extend`. -/
def load (width : Nat) (extend : BitVec 64 → BitVec 64) : Handler := fun vm i => do
  let v ← readLE vm.mem (vm.address i) width
  pure ⟨{}, none, vm.store i.rd (extend v)⟩

/-- The stores: write the low `width` bytes of `vm.Reg[in.rs2]`. -/
def storeBytes (width : Nat) : Handler := fun vm i => do
  let m ← writeLE vm.mem (vm.address i) (vm.reg i.rs2) width
  pure ⟨{}, none, { vm with mem := m }⟩

/-- The CSR set/clear forms: read `CSR[imm]`, write `combine old operand`
back when `writes` holds, and store the old value to `rd`. -/
def csrSet (combine : BitVec 64 → BitVec 64 → BitVec 64)
    (operand : VM → Instruction → BitVec 64) (writes : VM → Instruction → Bool) :
    Handler := fun vm i => do
  let v ← vm.readCSR i.imm
  let vm' ← if writes vm i then vm.writeCSR i.imm (combine v (operand vm i)) else pure vm
  pure ⟨{}, none, vm'.store i.rd v⟩

/-! ## RV32I -/

def lui : Handler := writeRd fun _ i => signExtend i.imm 31

def auipc : Handler := writeRd fun vm i => signExtend (i.imm + vm.pc) 31

/-- `jal`: link first, then jump; the link is written before `PC` is read. -/
def jal : Handler := fun vm i =>
  let vm := vm.store i.rd (vm.pc + 4)
  pure ⟨{ updatedPC := true }, none, { vm with pc := signExtend i.imm 19 + vm.pc }⟩

/-- `jalr`: the link is stored before `vm.Reg[in.rs1]` is read. -/
def jalr : Handler := fun vm i =>
  let vm := vm.store i.rd (vm.pc + 4)
  pure ⟨{ updatedPC := true }, none,
    { vm with pc := (signExtend i.imm 12 + vm.reg i.rs1) &&& ~~~1 }⟩

def beq : Handler := branch fun a b => a == b
def bne : Handler := branch fun a b => a != b
def blt : Handler := branch fun a b => a.slt b
def bge : Handler := branch fun a b => b.sle a
def bltu : Handler := branch fun a b => a.ult b
def bgeu : Handler := branch fun a b => b.ule a

def lb : Handler := load 1 fun v => signExtend v 7
def lh : Handler := load 2 fun v => signExtend v 15
def lw : Handler := load 4 fun v => signExtend v 31
def lbu : Handler := load 1 id
def lhu : Handler := load 2 id

/-- `sb` stores `byte(vm.Reg[in.rs2] & 0xff)`, the same byte as `byte(v)`. -/
def sb : Handler := storeBytes 1
def sh : Handler := storeBytes 2
def sw : Handler := storeBytes 4

def addi : Handler := writeRd fun vm i => vm.reg i.rs1 + signExtend (i.imm &&& 0xfff) 11
def slti : Handler := writeRd fun vm i =>
  if (vm.reg i.rs1).slt (signExtend i.imm 11) then 1 else 0
/-- `sltiu` compares against `in.imm` as decoded, with no sign extension. -/
def sltiu : Handler := writeRd fun vm i => if (vm.reg i.rs1).ult i.imm then 1 else 0
def xori : Handler := writeRd fun vm i => vm.reg i.rs1 ^^^ signExtend i.imm 11
def ori : Handler := writeRd fun vm i => vm.reg i.rs1 ||| signExtend i.imm 11
def andi : Handler := writeRd fun vm i => vm.reg i.rs1 &&& signExtend i.imm 11

def add : Handler := writeRd fun vm i => vm.reg i.rs1 + vm.reg i.rs2
def sub : Handler := writeRd fun vm i => vm.reg i.rs1 - vm.reg i.rs2
def sll : Handler := writeRd fun vm i => vm.reg i.rs1 <<< (vm.reg i.rs2 &&& 0x3f).toNat
def slt : Handler := writeRd fun vm i => if (vm.reg i.rs1).slt (vm.reg i.rs2) then 1 else 0
def sltu : Handler := writeRd fun vm i => if (vm.reg i.rs1).ult (vm.reg i.rs2) then 1 else 0
def xor : Handler := writeRd fun vm i => vm.reg i.rs1 ^^^ vm.reg i.rs2
def srl : Handler := writeRd fun vm i => vm.reg i.rs1 >>> (vm.reg i.rs2 &&& 0x3f).toNat
def sra : Handler := writeRd fun vm i => (vm.reg i.rs1).sshiftRight (vm.reg i.rs2 &&& 0x3f).toNat
def or : Handler := writeRd fun vm i => vm.reg i.rs1 ||| vm.reg i.rs2
def and : Handler := writeRd fun vm i => vm.reg i.rs1 &&& vm.reg i.rs2

/-- `fence`: a single hart in program order, nothing to order. -/
def fence : Handler := fun vm _ => pure ⟨{}, none, vm⟩
/-- `fence_i`: no instruction cache, nothing to flush. -/
def fenceI : Handler := fun vm _ => pure ⟨{}, none, vm⟩

def ebreak : Handler := fun vm _ => pure ⟨{}, none, vm⟩

/-- What `ecall` sees of the process's `os.Stdout` and `os.Stderr`: `write fd
bs` is the count `fmt.Fprint` returns when it prints the bytes `bs` to the
stream of `fd`. An `io.Writer` writes at most the bytes it is given; the
error returned with the count is dropped by `ecall`. -/
structure Host where
  write : BitVec 64 → Array (BitVec 8) → Nat
  write_le : ∀ fd bs, write fd bs ≤ bs.size

/-- A host whose streams take every byte they are given. -/
def Host.complete : Host := ⟨fun _ bs => bs.size, fun _ _ => le_rfl⟩

/-- `ecall`: `exit` (`0x5D`) and `write` (`0x40`) to fd 1 or 2, which stores
to `a0` the count the host's write of `vm.Mem[buf:buf+n]` returns. -/
def ecall (host : Host) : Handler := fun vm i =>
  let call := vm.reg (regNums "a7")
  if call = 0x5D then pure ⟨{}, some .exit, vm⟩
  else if call = 0x40 then
    let fd := vm.reg (regNums "a0")
    if fd = 1 ∨ fd = 2 then
      let buf := (vm.reg (regNums "a1")).toInt
      -- `buf+n` is an `int` sum: it wraps like the 64-bit sum of the registers
      let hi := (vm.reg (regNums "a1") + vm.reg (regNums "a2")).toInt
      if 0 ≤ buf ∧ buf ≤ hi ∧ hi ≤ vm.mem.len then
        let n := host.write fd (vm.mem.bytes.extract buf.toNat hi.toNat)
        pure ⟨{}, none, vm.store (regNums "a0") (BitVec.ofNat 64 n)⟩
      else throw (.sliceBounds buf hi vm.mem.len)
    else pure ⟨{}, some (.unrecognizedFd fd i), vm⟩
  else pure ⟨{}, some (.unrecognizedEcall call i), vm⟩

/-- `ecallOrBreak` dispatches on `in.imm >> 12`. -/
def ecallOrBreak (host : Host) : Handler := fun vm i =>
  if i.imm >>> 12 = 0 then ecall host vm i
  else if i.imm >>> 12 = 1 then ebreak vm i
  else throw (.msg "unrecognized instruction")

/-- `csrrw`; only the `rd == 0` path reports a write of `RDINSTRET`. -/
def csrrw : Handler := fun vm i => do
  if i.rd = 0 then
    let vm ← vm.writeCSR i.imm (vm.reg i.rs1)
    if i.imm = BitVec.ofNat 64 RDINSTRET then
      pure ⟨{ updatedRDINSTRET := true }, none, vm⟩
    else pure ⟨{}, none, vm⟩
  else
    let v ← vm.readCSR i.imm
    let vm' ← vm.writeCSR i.imm (vm.reg i.rs1)
    pure ⟨{}, none, vm'.store i.rd v⟩

def csrrs : Handler := csrSet (· ||| ·) (fun vm i => vm.reg i.rs1) (fun _ i => i.rs1 ≠ 0)
def csrrc : Handler := csrSet (fun c x => c &&& ~~~x) (fun vm i => vm.reg i.rs1) (fun _ i => i.rs1 ≠ 0)

/-- The immediate of the `*i` CSR forms, `signExtend(in.rs1&0x1f, 4)`. -/
def uimm (i : Instruction) : BitVec 64 := signExtend (BitVec.ofNat 64 i.rs1 &&& 0x1f) 4

def csrrwi : Handler := fun vm i => do
  if i.rd = 0 then
    let vm ← vm.writeCSR i.imm (uimm i)
    pure ⟨{}, none, vm⟩
  else
    let v ← vm.readCSR i.imm
    let vm' ← vm.writeCSR i.imm (uimm i)
    pure ⟨{}, none, vm'.store i.rd v⟩

def csrrsi : Handler := csrSet (· ||| ·) (fun _ i => uimm i) (fun _ i => uimm i ≠ 0)
def csrrci : Handler := csrSet (fun c x => c &&& ~~~x) (fun _ i => uimm i) (fun _ i => uimm i ≠ 0)

/-! ## RV64I -/

def lwu : Handler := load 4 id
def ld : Handler := load 8 id
def sd : Handler := storeBytes 8

def slli : Handler := writeRd fun vm i => vm.reg i.rs1 <<< (i.imm &&& 0x3f).toNat
def srli : Handler := writeRd fun vm i => vm.reg i.rs1 >>> (i.imm &&& 0x3f).toNat
def srai : Handler := writeRd fun vm i => (vm.reg i.rs1).sshiftRight (i.imm &&& 0x3f).toNat

/-- `shiftRight` picks `srli` or `srai` from `in.imm & 0xFC00`. -/
def shiftRight : Handler := fun vm i =>
  if i.imm &&& 0xFC00 = 0 then srli vm i
  else if i.imm &&& 0xFC00 = 0x10 then srai vm i
  else throw (.msg "invalid instruction")

def addiw : Handler := writeRd fun vm i =>
  ((vm.reg i.rs1).setWidth 32 + (signExtend (i.imm &&& 0xfff) 11).setWidth 32).signExtend 64
def slliw : Handler := writeRd fun vm i =>
  signExtend (((vm.reg i.rs1).setWidth 32 <<< (i.imm &&& 0x1f).toNat).setWidth 64) 31
def srliw : Handler := writeRd fun vm i =>
  signExtend (((vm.reg i.rs1).setWidth 32 >>> (i.imm &&& 0x1f).toNat).setWidth 64) 31
def sraiw : Handler := writeRd fun vm i =>
  (((vm.reg i.rs1).setWidth 32).sshiftRight (i.imm &&& 0x1f).toNat).signExtend 64
def addw : Handler := writeRd fun vm i =>
  ((vm.reg i.rs1).setWidth 32 + (vm.reg i.rs2).setWidth 32).signExtend 64
def subw : Handler := writeRd fun vm i =>
  ((vm.reg i.rs1).setWidth 32 - (vm.reg i.rs2).setWidth 32).signExtend 64
def sllw : Handler := writeRd fun vm i =>
  signExtend (((vm.reg i.rs1).setWidth 32 <<< (vm.reg i.rs2 &&& 0x1f).toNat).setWidth 64) 31
def srlw : Handler := writeRd fun vm i =>
  signExtend (((vm.reg i.rs1).setWidth 32 >>> (vm.reg i.rs2 &&& 0x1f).toNat).setWidth 64) 31
def sraw : Handler := writeRd fun vm i =>
  (((vm.reg i.rs1).setWidth 32).sshiftRight (vm.reg i.rs2 &&& 0x1f).toNat).signExtend 64

/-! ## "M" extension -/

/-- The partial-product sum the three high multiplies share:
`a + b>>32 + c>>32 + (d>>32 + b&0xffffffff + c&0xffffffff)>>32` over the
32-bit halves of `x` and `y`. -/
def mulHigh (x y : BitVec 64) : BitVec 64 :=
  let ah := x >>> 32
  let al := x &&& 0xffffffff
  let bh := y >>> 32
  let bl := y &&& 0xffffffff
  let a := ah * bh
  let b := ah * bl
  let c := al * bh
  let d := al * bl
  a + (b >>> 32) + (c >>> 32) + ((d >>> 32) + (b &&& 0xffffffff) + (c &&& 0xffffffff)) >>> 32

def mul : Handler := writeRd fun vm i => vm.reg i.rs1 * vm.reg i.rs2

/-- `mulh`: multiply the magnitudes, negate when the signs differ. -/
def mulh : Handler := writeRd fun vm i =>
  let n1 := vm.reg i.rs1
  let n2 := vm.reg i.rs2
  let v := mulHigh (if n1.slt 0 then -n1 else n1) (if n2.slt 0 then -n2 else n2)
  if n1.slt 0 != n2.slt 0 then -v else v

/-- `mulhsu`: only the first operand is signed. -/
def mulhsu : Handler := writeRd fun vm i =>
  let n1 := vm.reg i.rs1
  let v := mulHigh (if n1.slt 0 then -n1 else n1) (vm.reg i.rs2)
  if n1.slt 0 then -v else v

def mulhu : Handler := writeRd fun vm i => mulHigh (vm.reg i.rs1) (vm.reg i.rs2)

def mulw : Handler := writeRd fun vm i =>
  ((vm.reg i.rs1).setWidth 32 * (vm.reg i.rs2).setWidth 32).signExtend 64

def div : Handler := writeRd fun vm i =>
  if vm.reg i.rs2 = 0 then BitVec.allOnes 64 else (vm.reg i.rs1).sdiv (vm.reg i.rs2)
def divu : Handler := writeRd fun vm i =>
  if vm.reg i.rs2 = 0 then BitVec.allOnes 64 else vm.reg i.rs1 / vm.reg i.rs2
def divw : Handler := writeRd fun vm i =>
  if (vm.reg i.rs2).setWidth 32 = 0 then BitVec.allOnes 64
  else signExtend ((((vm.reg i.rs1).setWidth 32).sdiv ((vm.reg i.rs2).setWidth 32)).signExtend 64) 31
def divuw : Handler := writeRd fun vm i =>
  if (vm.reg i.rs2).setWidth 32 = 0 then BitVec.allOnes 64
  else signExtend (((vm.reg i.rs1).setWidth 32 / (vm.reg i.rs2).setWidth 32).setWidth 64) 31
def rem : Handler := writeRd fun vm i =>
  if vm.reg i.rs2 = 0 then vm.reg i.rs1 else (vm.reg i.rs1).srem (vm.reg i.rs2)
def remu : Handler := writeRd fun vm i =>
  if vm.reg i.rs2 = 0 then vm.reg i.rs1 else vm.reg i.rs1 % vm.reg i.rs2

/-- `remw` tests the whole 64-bit divisor for zero, then divides its low 32
bits. -/
def remw : Handler := fun vm i =>
  if vm.reg i.rs2 = 0 then pure ⟨{}, none, vm.store i.rd (vm.reg i.rs1)⟩
  else if (vm.reg i.rs2).setWidth 32 = 0 then throw .divideByZero
  else pure ⟨{}, none, vm.store i.rd
    ((((vm.reg i.rs1).setWidth 32).srem ((vm.reg i.rs2).setWidth 32)).signExtend 64)⟩

/-- `remuw`, the unsigned counterpart of `remw`, with the same test. -/
def remuw : Handler := fun vm i =>
  if vm.reg i.rs2 = 0 then pure ⟨{}, none, vm.store i.rd (vm.reg i.rs1)⟩
  else if (vm.reg i.rs2).setWidth 32 = 0 then throw .divideByZero
  else pure ⟨{}, none, vm.store i.rd
    (signExtend (((vm.reg i.rs1).setWidth 32 % (vm.reg i.rs2).setWidth 32).setWidth 64) 31)⟩

end RiscvEmu
