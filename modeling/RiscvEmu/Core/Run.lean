import RiscvEmu.Core.Decode

/-!
# The fetch/execute loop (`VM.Run`)

`Op.exec` is the call `in.fn(vm, in)`; only `ecall` reads the `Host` it is
given, the streams a `write` call prints to. One iteration of `Run` is `VM.step`:
fetch up to four bytes at `PC`, decode, record `LastPC` and `LastInstr`,
dispatch, and on a `nil` error retire the instruction (`VM.retire`).
`VM.step` reports how the iteration ended; `runLoop` adds the iteration
number to the error messages exactly where `Run` formats them, so the
machine states a run passes through do not depend on `n`.
-/

namespace RiscvEmu

/-- The call `in.fn(vm, in)`. (Inside `Op.exec` a bare `lui` would name the
constructor, hence the qualified handler names.) -/
def Op.exec (op : Op) (host : Host) : Handler :=
  match op with
  | .lui => RiscvEmu.lui | .auipc => RiscvEmu.auipc | .jal => RiscvEmu.jal
  | .jalr => RiscvEmu.jalr | .beq => RiscvEmu.beq | .bne => RiscvEmu.bne | .blt => RiscvEmu.blt
  | .bge => RiscvEmu.bge | .bltu => RiscvEmu.bltu | .bgeu => RiscvEmu.bgeu | .lb => RiscvEmu.lb
  | .lh => RiscvEmu.lh | .lw => RiscvEmu.lw | .lbu => RiscvEmu.lbu | .lhu => RiscvEmu.lhu
  | .sb => RiscvEmu.sb | .sh => RiscvEmu.sh | .sw => RiscvEmu.sw | .addi => RiscvEmu.addi
  | .slti => RiscvEmu.slti | .sltiu => RiscvEmu.sltiu | .xori => RiscvEmu.xori
  | .ori => RiscvEmu.ori | .andi => RiscvEmu.andi | .add => RiscvEmu.add | .sub => RiscvEmu.sub
  | .sll => RiscvEmu.sll | .slt => RiscvEmu.slt | .sltu => RiscvEmu.sltu | .xor => RiscvEmu.xor
  | .srl => RiscvEmu.srl | .sra => RiscvEmu.sra | .or => RiscvEmu.or | .and => RiscvEmu.and
  | .fence => RiscvEmu.fence | .fenceI => RiscvEmu.fenceI
  | .ecallOrBreak => RiscvEmu.ecallOrBreak host | .ecall => RiscvEmu.ecall host
  | .ebreak => RiscvEmu.ebreak | .csrrw => RiscvEmu.csrrw | .csrrs => RiscvEmu.csrrs
  | .csrrc => RiscvEmu.csrrc | .csrrwi => RiscvEmu.csrrwi | .csrrsi => RiscvEmu.csrrsi
  | .csrrci => RiscvEmu.csrrci | .lwu => RiscvEmu.lwu | .ld => RiscvEmu.ld | .sd => RiscvEmu.sd
  | .slli => RiscvEmu.slli | .shiftRight => RiscvEmu.shiftRight | .srli => RiscvEmu.srli
  | .srai => RiscvEmu.srai | .addiw => RiscvEmu.addiw | .slliw => RiscvEmu.slliw
  | .srliw => RiscvEmu.srliw | .sraiw => RiscvEmu.sraiw | .addw => RiscvEmu.addw
  | .subw => RiscvEmu.subw | .sllw => RiscvEmu.sllw | .srlw => RiscvEmu.srlw
  | .sraw => RiscvEmu.sraw | .mul => RiscvEmu.mul | .mulh => RiscvEmu.mulh
  | .mulhsu => RiscvEmu.mulhsu | .mulhu => RiscvEmu.mulhu | .div => RiscvEmu.div
  | .divu => RiscvEmu.divu | .rem => RiscvEmu.rem | .remu => RiscvEmu.remu
  | .mulw => RiscvEmu.mulw | .divw => RiscvEmu.divw | .divuw => RiscvEmu.divuw
  | .remw => RiscvEmu.remw | .remuw => RiscvEmu.remuw | .rvcJAL => RiscvEmu.rvcJAL
  | .rvcJALR => RiscvEmu.rvcJALR

/-- The fetch `vm.Mem[vm.PC:end]` with `end := int(vm.PC + 4)`, clamped to
`len(vm.Mem)`. The conversion to `int` and the slice bounds are Go's. -/
def VM.fetch (vm : VM) : Except Panic (Array (BitVec 8)) :=
  let e : Int := (vm.pc + 4).toInt
  let e : Int := if e > vm.mem.len then vm.mem.len else e
  if (vm.pc.toNat : Int) ≤ e then pure (vm.mem.bytes.extract vm.pc.toNat e.toNat)
  else throw (.sliceBounds vm.pc.toNat e vm.mem.len)

/-- The tail of an iteration after a `nil` error: `vm.Steps++`, then
`vm.CSR[RDINSTRET]++` and `vm.PC += size` unless the handler reported
doing so itself. -/
def VM.retire (vm : VM) (f : Flags) (size : Nat) : VM :=
  let vm := { vm with steps := vm.steps + 1 }
  let vm := if f.updatedRDINSTRET then vm
    else { vm with csr := Function.update vm.csr RDINSTRET (vm.csr RDINSTRET + 1) }
  if f.updatedPC then vm else { vm with pc := vm.pc + BitVec.ofNat 64 size }

/-- How one iteration of `Run` ends, when it does not panic. -/
inductive StepOut where
  /-- `Decode` returned an error; nothing was written. -/
  | decodeFailed (e : Err)
  /-- The handler returned an error; `vm` is the machine it left. -/
  | failed (e : Err) (vm : VM)
  /-- The handler returned `nil` and the instruction retired. -/
  | retired (vm : VM)

/-- The body of the loop in `Run`, before its error messages. -/
def VM.step (vm : VM) (host : Host) : Except Panic StepOut := do
  let b ← vm.fetch
  match ← decode vm.pc b with
  | .error e => pure (.decodeFailed e)
  | .ok (instr, size) =>
    let vm := { vm with lastPC := vm.pc, lastInstr := some instr }
    let out ← instr.fn.exec host vm instr
    match out.err with
    | some e => pure (.failed e out.vm)
    | none => pure (.retired (out.vm.retire out.flags size))

/-- The loop `for i := 0; i < n; i++` of `Run(n)`, from iteration `i` with
`k` iterations left. It returns `Run`'s `error` and the machine as `Run`
leaves it. -/
def runLoop (host : Host) (n : Nat) : Nat → Nat → VM → Except Panic (Option Err × VM)
  | _, 0, vm => pure (none, vm)
  | i, k + 1, vm => do
    match ← vm.step host with
    | .decodeFailed e => pure (some (.run (i + 1) n e), vm)
    | .failed e vm' => pure (some (if e.isExit then e else .runOf (i + 1) n e), vm')
    | .retired vm' => runLoop host n (i + 1) k vm'

/-- `vm.Run(n)`. A negative Go count runs no iteration, as `0` does. -/
def VM.run (vm : VM) (host : Host) (n : Nat) : Except Panic (Option Err × VM) :=
  runLoop host n 0 n vm

end RiscvEmu
