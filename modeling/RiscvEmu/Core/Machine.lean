import RiscvEmu.Core.Sign

/-!
# Machine state (`VM`, `Instruction`, `flags`, `VM.store`, `VM.Memory`)

The types the handlers and the run loop share. Go mutates a `*VM` in place
and may stop with a runtime panic at any index; the model passes the
machine explicitly and returns `Except Panic _`, so a panic is a result with
no machine after it, and every other outcome carries the machine as Go
leaves it.

Design decisions, each checked against the Go source:

* `Instruction.fn` is a function pointer in Go; here it is an `Op` naming
  the handler, dispatched by `Op.exec` (`Run.lean`). `Decode` and
  `rvcDecode` never leave it nil, so the `in.fn == nil` branch of `Run` has
  no counterpart.
* The register fields of `Instruction` are `uint64` in Go but every decoder
  masks them to five bits, so here they are `Fin 32` and the register file
  is total.
* Memory is the Go `[]byte`, whose length is an `int`: `Mem` carries the
  bound `len < 2^63`, which rules out the wrap of `a + k` near `2^64`.
-/

namespace RiscvEmu

/-- The handlers an `Instruction` can point at: the RV64IM handlers of
`rvi.go`, the two secondary dispatchers, and the RVC-only jumps. -/
inductive Op where
  | lui | auipc | jal | jalr
  | beq | bne | blt | bge | bltu | bgeu
  | lb | lh | lw | lbu | lhu | sb | sh | sw
  | addi | slti | sltiu | xori | ori | andi
  | add | sub | sll | slt | sltu | xor | srl | sra | or | and
  | fence | fenceI | ecallOrBreak | ecall | ebreak
  | csrrw | csrrs | csrrc | csrrwi | csrrsi | csrrci
  | lwu | ld | sd | slli | shiftRight | srli | srai
  | addiw | slliw | srliw | sraiw | addw | subw | sllw | srlw | sraw
  | mul | mulh | mulhsu | mulhu | div | divu | rem | remu
  | mulw | divw | divuw | remw | remuw
  | rvcJAL | rvcJALR
  deriving DecidableEq, Repr

/-- `Instruction`: the decoder's output. The printing-only field `in` is
left out. -/
structure Instruction where
  fn : Op
  rs1 : Fin 32 := 0
  rs2 : Fin 32 := 0
  rd : Fin 32 := 0
  /-- The decoded immediate before sign extension. -/
  imm : BitVec 64 := 0
  deriving DecidableEq, Repr

/-- `flags`, returned by every handler. -/
structure Flags where
  updatedPC : Bool := false
  updatedRDINSTRET : Bool := false
  deriving DecidableEq, Repr

/-- The `error` values of the core, each with the arguments its message
formats. -/
inductive Err where
  /-- `can't decode %d bytes: length must be a non-zero multiple of 2` -/
  | badLength (n : Nat)
  /-- `unsupported instruction size: %d bytes` -/
  | unsupportedSize (size : Nat)
  /-- `not enough input bytes (%d) for instructions of size %d bytes` -/
  | notEnoughBytes (n size : Nat)
  /-- `instructions of size %dbytes are not supported` -/
  | sizeNotSupported (size : Nat)
  /-- `instruction %#x uses u-type but it's neither AUIPC nor LUI` -/
  | notUType (w : BitVec 64)
  /-- `instruction %#x has unrecognized format (base opcode: %#x)` -/
  | unrecognizedFormat (w : BitVec 64) (bop : Nat)
  /-- `can't decode instruction %#x at %#x: no entry in rvi instructions table for %#x` -/
  | noTableEntry (w pc key : BitVec 64)
  /-- `illegal instruction %#x` (`rvcDecode`) -/
  | illegalRvc (c : BitVec 16)
  /-- Modelled from the spec: `exitErr` and `IsExit` are declared outside
  src/. The spec's `Exit` signal carries no payload. -/
  | exit
  /-- `unrecognized fd %d in %s` -/
  | unrecognizedFd (fd : BitVec 64) (instr : Instruction)
  /-- `unrecognized ecall %#x (%d): %s` -/
  | unrecognizedEcall (call : BitVec 64) (instr : Instruction)
  /-- `run(%d %d): %v`, a decode error at iteration `step` of `Run(n)` -/
  | run (step n : Nat) (e : Err)
  /-- `run(%d of %d): %v`, a handler error -/
  | runOf (step n : Nat) (e : Err)
  deriving DecidableEq, Repr

/-- `IsExit(err)`. -/
def Err.isExit (e : Err) : Bool := e == .exit

/-- Go runtime panics, and the explicit `panic(...)` calls. -/
inductive Panic where
  /-- `index out of range [index] with length length` -/
  | indexOutOfRange (index length : Nat)
  /-- `slice bounds out of range` for `s[low:high]` on a slice of capacity `cap` -/
  | sliceBounds (low high : Int) (cap : Nat)
  /-- `integer divide by zero` -/
  | divideByZero
  /-- `makeslice: len out of range`: `make([]byte, n)` with `n` past the
  allocation limit -/
  | makeSliceLen
  /-- `panic(text)` in the source -/
  | msg (text : String)
  deriving DecidableEq, Repr

/-! ## Memory -/

/-- `VM.Mem`, a Go `[]byte`. Its length is an `int`, hence below `2^63`. -/
structure Mem where
  bytes : Array (BitVec 8)
  size_lt : bytes.size < 2 ^ 63

/-- `len(vm.Mem)`. -/
def Mem.len (m : Mem) : Nat := m.bytes.size

/-- The index expression `vm.Mem[a]`. -/
def Mem.get (m : Mem) (a : BitVec 64) : Except Panic (BitVec 8) :=
  if h : a.toNat < m.bytes.size then pure m.bytes[a.toNat]
  else throw (.indexOutOfRange a.toNat m.len)

/-- The assignment `vm.Mem[a] = b`. -/
def Mem.set (m : Mem) (a : BitVec 64) (b : BitVec 8) : Except Panic Mem :=
  if h : a.toNat < m.bytes.size then
    pure ⟨m.bytes.set ⟨a.toNat, h⟩ b, by simpa using m.size_lt⟩
  else throw (.indexOutOfRange a.toNat m.len)

/-- The unrolled little-endian read of `n` bytes at `a` that the loads and
`VM.Memory` spell out: `v := uint64(vm.Mem[a])`, then
`v |= uint64(vm.Mem[a+k]) << (8*k)` for `k = 1 .. n-1`, indexing in that
order. -/
def readLE (m : Mem) (a : BitVec 64) : Nat → Except Panic (BitVec 64)
  | 0 => pure 0
  | k + 1 => do
    let v ← readLE m a k
    let b ← m.get (a + BitVec.ofNat 64 k)
    pure (v ||| b.setWidth 64 <<< (8 * k))

/-- The unrolled little-endian write of the stores:
`vm.Mem[a+k] = byte(v >> (8*k))` for `k = 0 .. n-1`, in that order. -/
def writeLE (m : Mem) (a v : BitVec 64) : Nat → Except Panic Mem
  | 0 => pure m
  | k + 1 => do
    let m ← writeLE m a v k
    m.set (a + BitVec.ofNat 64 k) ((v >>> (8 * k)).setWidth 8)

/-! ## The machine -/

/-- `VM`. The printing-only `Debug` field is left out. `Steps` is a Go
`int`, a 64-bit two's-complement counter. -/
structure VM where
  reg : Fin 32 → BitVec 64
  /-- `CSR [1 << 11]uint64` -/
  csr : Fin 2048 → BitVec 64
  pc : BitVec 64
  steps : BitVec 64
  mem : Mem
  lastInstr : Option Instruction
  lastPC : BitVec 64

/-- Register numbers `SP`, `RA`, `Zero`. -/
def SP : Fin 32 := 2
def RA : Fin 32 := 1
def Zero : Fin 32 := 0

/-- CSR numbers `RDCYCLE`, `RDTIME`, `RDINSTRET`. -/
def RDCYCLE : Fin 2048 := 1
def RDTIME : Fin 2048 := 2
def RDINSTRET : Fin 2048 := 3

/-- `RegNames`, the ABI names of the 32 registers. -/
def RegNames : List String :=
  ["zero", "ra", "sp", "gp", "tp", "t0", "t1", "t2", "s0", "s1", "a0", "a1",
   "a2", "a3", "a4", "a5", "a6", "a7", "s2", "s3", "s4", "s5", "s6", "s7",
   "s8", "s9", "s10", "s11", "t3", "t4", "t5", "t6"]

/-- `regNums[name]`, the map `init` builds from `RegNames` (names are
distinct, so the first index is the only one). -/
def regNums (name : String) : Fin 32 := Fin.ofNat (RegNames.indexOf name)

theorem regNums_a0 : regNums "a0" = 10 := by decide
theorem regNums_a1 : regNums "a1" = 11 := by decide
theorem regNums_a2 : regNums "a2" = 12 := by decide
theorem regNums_a7 : regNums "a7" = 17 := by decide

/-- `vm.store(rd, val)`: the zero register is hard-wired, a write to it is
dropped. -/
def VM.store (vm : VM) (rd : Fin 32) (val : BitVec 64) : VM :=
  if rd = 0 then vm else { vm with reg := Function.update vm.reg rd val }

/-- The index expression `vm.CSR[i]`. -/
def VM.readCSR (vm : VM) (i : BitVec 64) : Except Panic (BitVec 64) :=
  if h : i.toNat < 2048 then pure (vm.csr ⟨i.toNat, h⟩)
  else throw (.indexOutOfRange i.toNat 2048)

/-- The assignment `vm.CSR[i] = v`. -/
def VM.writeCSR (vm : VM) (i v : BitVec 64) : Except Panic VM :=
  if h : i.toNat < 2048 then pure { vm with csr := Function.update vm.csr ⟨i.toNat, h⟩ v }
  else throw (.indexOutOfRange i.toNat 2048)

/-- `vm.Memory(addr)`: the little-endian 64-bit word at `addr`. -/
def VM.memory (vm : VM) (addr : BitVec 64) : Except Panic (BitVec 64) :=
  readLE vm.mem addr 8

/-- What a handler hands back to `Run`: its `flags`, its `error`, and the
machine as it left it. -/
structure Outcome where
  flags : Flags
  err : Option Err
  vm : VM

/-- The Go type `func(*VM, *Instruction) (flags, error)`. -/
abbrev Handler := VM → Instruction → Except Panic Outcome

/-! ## `store` -/

section Store

variable (vm : VM) (rd : Fin 32) (val : BitVec 64)

@[simp] theorem store_pc : (vm.store rd val).pc = vm.pc := by
  unfold VM.store; split <;> rfl
@[simp] theorem store_csr : (vm.store rd val).csr = vm.csr := by
  unfold VM.store; split <;> rfl
@[simp] theorem store_steps : (vm.store rd val).steps = vm.steps := by
  unfold VM.store; split <;> rfl
@[simp] theorem store_mem : (vm.store rd val).mem = vm.mem := by
  unfold VM.store; split <;> rfl
@[simp] theorem store_lastInstr : (vm.store rd val).lastInstr = vm.lastInstr := by
  unfold VM.store; split <;> rfl
@[simp] theorem store_lastPC : (vm.store rd val).lastPC = vm.lastPC := by
  unfold VM.store; split <;> rfl

/-- A store never reaches the zero register. -/
@[simp] theorem store_reg_zero : (vm.store rd val).reg 0 = vm.reg 0 := by
  unfold VM.store
  split
  · rfl
  · simp [Function.update_noteq (Ne.symm ‹rd ≠ 0›)]

theorem store_reg (r : Fin 32) :
    (vm.store rd val).reg r = if r = rd ∧ rd ≠ 0 then val else vm.reg r := by
  unfold VM.store
  by_cases h : rd = 0
  · simp [h]
  · by_cases hr : r = rd <;> simp [h, hr]

end Store

end RiscvEmu
