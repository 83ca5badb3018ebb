import RiscvEmu.Core.Machine

/-!
# Loading a program (`Prog`, `NewVM`, `pushUint64`, `pushCString`)

`NewVM` allocates `Prog.MemSize` bytes; when `Argv` or `Env` is not `nil` it
allocates again, with room for the strings and the pointer tables, sets `SP`
to the end of memory and builds the initial stack downwards: the `Env`
strings from the last one on, then the `Argv` strings, then, after aligning
`SP` down to 8, the address list `0, env..., 0, argv...` one word at a
time, and `argc` last.

Go's `[]string` is `nil` or a list, so `Argv` and `Env` are `Option`s, and a
string is its bytes. The two reverse loops `for i := len(ss) - 1; i >= 0; i--`
are recursions that push the tail of the list before its head. The
`debugInitialStack` block is dead code (the constant is `false`), and the
deferred `vm.Reg[SP] = sp` stores the value `SP` already has; neither is
modelled. `make` panics with `makeslice: len out of range` on a length past
the runtime's allocation limit `maxAlloc`; a `uint64` past the largest `int`
becomes a negative `int` and panics the same way.
-/

namespace RiscvEmu

/-- `Prog`. -/
structure Prog where
  argv : Option (List (List (BitVec 8)))
  env : Option (List (List (BitVec 8)))
  start : BitVec 64
  memSize : BitVec 64

/-- `p.Argv`, read as a list (`range` over `nil` runs no iteration). -/
def Prog.args (p : Prog) : List (List (BitVec 8)) := p.argv.getD []

/-- `p.Env`, read as a list. -/
def Prog.envs (p : Prog) : List (List (BitVec 8)) := p.env.getD []

/-- The Go runtime's `maxAlloc` on 64-bit Linux, `1 << 48` bytes. -/
def maxAlloc : Nat := 2 ^ 48

/-- `make([]byte, n)`: `n` zero bytes, or the `makeslice` panic past `maxAlloc`. -/
def makeMem (n : BitVec 64) : Except Panic Mem :=
  if h : n.toNat ≤ maxAlloc then
    pure ⟨Array.mkArray n.toNat 0, by simp only [Array.size_mkArray]; unfold maxAlloc at h; omega⟩
  else throw .makeSliceLen

/-- `&VM{PC: p.Start, Mem: mem}`: every other field is zero. -/
def VM.fresh (start : BitVec 64) (mem : Mem) : VM :=
  { reg := fun _ => 0, csr := fun _ => 0, pc := start, steps := 0, mem := mem, lastInstr := none,
    lastPC := 0 }

/-- The assignment `vm.Reg[SP] = v`, which does not go through `store`. -/
def VM.setSP (vm : VM) (v : BitVec 64) : VM := { vm with reg := Function.update vm.reg SP v }

@[simp] theorem VM.setSP_reg_SP (vm : VM) (v : BitVec 64) : (vm.setSP v).reg SP = v := by
  simp [VM.setSP]

@[simp] theorem VM.setSP_mem (vm : VM) (v : BitVec 64) : (vm.setSP v).mem = vm.mem := rfl

/-- `pushUint64`: `vm.Reg[SP] -= 8`, then `vm.Mem[vm.Reg[SP]+k] = byte(v >> (8*k))`
for `k = 0 .. 7`. -/
def VM.pushUint64 (vm : VM) (v : BitVec 64) : Except Panic VM := do
  let vm := vm.setSP (vm.reg SP - 8)
  let m ← writeLE vm.mem (vm.reg SP) v 8
  pure { vm with mem := m }

/-- The loop `for i, b := range bs { vm.Mem[a+uint64(i)] = b }`, from index `i`. -/
def writeBytes (m : Mem) (a : BitVec 64) : Nat → List (BitVec 8) → Except Panic Mem
  | _, [] => pure m
  | i, b :: bs => do
    let m ← m.set (a + BitVec.ofNat 64 i) b
    writeBytes m a (i + 1) bs

/-- `pushCString`: `vm.Reg[SP] -= uint64(len(bs) + 1)`, the bytes of `s`,
then a 0 byte. -/
def VM.pushCString (vm : VM) (s : List (BitVec 8)) : Except Panic VM := do
  let vm := vm.setSP (vm.reg SP - BitVec.ofNat 64 (s.length + 1))
  let m ← writeBytes vm.mem (vm.reg SP) 0 s
  let m ← m.set (vm.reg SP + BitVec.ofNat 64 s.length) 0
  pure { vm with mem := m }

/-- The loop `for i := len(ss) - 1; i >= 0; i-- { vm.pushCString(ss[i]);
addrs = append(addrs, vm.Reg[SP]) }`: the tail of the list is pushed before
its head. -/
def VM.pushCStrings (vm : VM) (addrs : List (BitVec 64)) :
    List (List (BitVec 8)) → Except Panic (VM × List (BitVec 64))
  | [] => pure (vm, addrs)
  | s :: ss => do
    let (vm, addrs) ← vm.pushCStrings addrs ss
    let vm ← vm.pushCString s
    pure (vm, addrs ++ [vm.reg SP])

/-- The loop `for _, a := range addrs { vm.pushUint64(a) }`. -/
def VM.pushUint64s (vm : VM) : List (BitVec 64) → Except Panic VM
  | [] => pure vm
  | a :: as => do
    let vm ← vm.pushUint64 a
    vm.pushUint64s as

/-- The loops `for _, s := range ss { memSize += uint64(len(s) + 1) }`. -/
def cstringsSize (memSize : BitVec 64) (ss : List (List (BitVec 8))) : BitVec 64 :=
  ss.foldl (fun n s => n + BitVec.ofNat 64 (s.length + 1)) memSize

/-- `NewVM(p)`. -/
def newVM (p : Prog) : Except Panic VM := do
  let mem ← makeMem p.memSize
  if p.argv.isNone ∧ p.env.isNone then return VM.fresh p.start mem
  let memSize := cstringsSize (cstringsSize p.memSize p.envs) p.args
  let memSize := memSize + BitVec.ofNat 64 (1 + p.envs.length + 1 + p.args.length + 1) * 8
  let vm := (VM.fresh p.start (← makeMem memSize)).setSP memSize
  let (vm, addrs) ← vm.pushCStrings [0] p.envs
  let (vm, addrs) ← vm.pushCStrings (addrs ++ [0]) p.args
  let vm := vm.setSP (vm.reg SP &&& ~~~7)
  let vm ← vm.pushUint64s addrs
  vm.pushUint64 (BitVec.ofNat 64 p.args.length)

end RiscvEmu
