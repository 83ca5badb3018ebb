import RiscvEmu.Proofs.Decoding

/-!
# Steps and runs

`step_eq_ok` says once what an iteration of `Run` can do, and
`runLoop_decodeFailed`, `runLoop_failed` and `runLoop_retired` unfold one
iteration of the loop for each way it ends. From the handler frame
(`Op.exec_framed`) they give the run-level laws:

* `run_zero_reg` and `run_mem_len`: `x0` stays zero and memory keeps its
  length across `Run(n)`, whatever it returns, both through `runLoop_inv`;
* `run_one_retire`: the bookkeeping of a retired instruction (`Steps`,
  `LastPC`, and `PC` set by the handler or advanced by the size);
* `run_error_frame`: a run that stops on an error leaves the machine of the
  iterations before it, with only `LastPC` and `LastInstr` recorded;
* `run_steps`: `Run(n)` returning `nil` retired `n` instructions.

`CSR[RDINSTRET]` does not follow the same discipline: `csrrw` with
`rd != 0` reports no write of it, so `Run` counts the instruction on top
of the value it stored (`csrrw_rdinstret_counted`).

The examples run machines built by `VM.boot`: a program at address 0 that
is the whole memory, and every CSR and counter zero.
-/

namespace RiscvEmu

variable {host : Host}

/-- A machine at `PC = 0` whose memory is `bytes`, with register file `reg`
and every CSR, `Steps` and `LastPC` zero. -/
def VM.boot (bytes : Array (BitVec 8)) (h : bytes.size < 2 ^ 63) (reg : Fin 32 → BitVec 64) :
    VM :=
  { reg := reg, csr := fun _ => 0, pc := 0, steps := 0, mem := ⟨bytes, h⟩, lastInstr := none,
    lastPC := 0 }

/-- The machine an iteration leaves behind (`Decode` errors leave `vm`). -/
def StepOut.machine (vm : VM) : StepOut → VM
  | .decodeFailed _ => vm
  | .failed _ v => v
  | .retired v => v

/-! ## `retire` -/

section Retire

variable (vm : VM) (f : Flags) (size : Nat)

@[simp] theorem retire_reg : (vm.retire f size).reg = vm.reg := by
  unfold VM.retire; split_ifs <;> rfl
@[simp] theorem retire_steps : (vm.retire f size).steps = vm.steps + 1 := by
  unfold VM.retire; split_ifs <;> rfl
@[simp] theorem retire_lastPC : (vm.retire f size).lastPC = vm.lastPC := by
  unfold VM.retire; split_ifs <;> rfl
@[simp] theorem retire_lastInstr : (vm.retire f size).lastInstr = vm.lastInstr := by
  unfold VM.retire; split_ifs <;> rfl
@[simp] theorem retire_mem : (vm.retire f size).mem = vm.mem := by
  unfold VM.retire; split_ifs <;> rfl
theorem retire_pc :
    (vm.retire f size).pc = if f.updatedPC then vm.pc else vm.pc + BitVec.ofNat 64 size := by
  unfold VM.retire; split_ifs <;> rfl

end Retire

/-- `Op.taken` reads only the register file. -/
theorem Op.taken_record (op : Op) (vm : VM) (i : Instruction) (pc : BitVec 64)
    (ins : Option Instruction) : op.taken { vm with lastPC := pc, lastInstr := ins } i = op.taken vm i := by
  cases op <;> rfl

/-! ## One iteration -/

/-- **What an iteration of `Run` can do**: fetch, then either a decode error,
or a decoded instruction whose handler returns an error or retires. -/
theorem step_eq_ok {vm : VM} {s : StepOut} (h : vm.step host = .ok s) :
    ∃ b, vm.fetch = .ok b ∧
      ((∃ e, decode vm.pc b = .ok (.error e) ∧ s = .decodeFailed e) ∨
       ∃ instr size out, decode vm.pc b = .ok (.ok (instr, size)) ∧
         instr.fn.exec host { vm with lastPC := vm.pc, lastInstr := some instr } instr = .ok out ∧
         ((∃ e, out.err = some e ∧ s = .failed e out.vm) ∨
          (out.err = none ∧ s = .retired (out.vm.retire out.flags size)))) := by
  obtain ⟨b, hb, h⟩ := bind_eq_ok.mp h
  obtain ⟨d, hd, h⟩ := bind_eq_ok.mp h
  refine ⟨b, hb, ?_⟩
  match d, hd, h with
  | .error e, hd, h => exact .inl ⟨e, hd, (Except.ok.inj h).symm⟩
  | .ok (instr, size), hd, h =>
    obtain ⟨out, hout, h⟩ := bind_eq_ok.mp h
    refine .inr ⟨instr, size, out, hd, hout, ?_⟩
    match he : out.err with
    | some e => simp only [he] at h; exact .inl ⟨e, rfl, (Except.ok.inj h).symm⟩
    | none => simp only [he] at h; exact .inr ⟨rfl, (Except.ok.inj h).symm⟩

/-- An iteration that runs the decoded `instr` as an instruction of `size`
bytes: `LastPC` and `LastInstr` recorded, the handler called, and the
instruction retired when it returns `nil`. -/
def VM.execute (vm : VM) (host : Host) (instr : Instruction) (size : Nat) :
    Except Panic StepOut := do
  let vm := { vm with lastPC := vm.pc, lastInstr := some instr }
  let out ← instr.fn.exec host vm instr
  match out.err with
  | some e => pure (.failed e out.vm)
  | none => pure (.retired (out.vm.retire out.flags size))

/-- Past the fetch and `Decode`, an iteration executes what they return. -/
theorem step_eq_execute {vm : VM} {b : Array (BitVec 8)} {instr : Instruction} {size : Nat}
    (hf : vm.fetch = .ok b) (hd : decode vm.pc b = .ok (.ok (instr, size))) :
    vm.step host = vm.execute host instr size := by
  unfold VM.step VM.execute
  rw [hf, ok_bind, hd]
  rfl

/-- **How an iteration of `Run` can panic**: in the fetch, in `Decode`, or
in the handler of the decoded instruction. -/
theorem step_eq_error {vm : VM} {p : Panic} (h : vm.step host = .error p) :
    vm.fetch = .error p ∨ ∃ b, vm.fetch = .ok b ∧ (decode vm.pc b = .error p ∨
      ∃ instr size, decode vm.pc b = .ok (.ok (instr, size)) ∧
        instr.fn.exec host { vm with lastPC := vm.pc, lastInstr := some instr } instr = .error p) := by
  rcases bind_eq_error.mp h with h | ⟨b, hb, h⟩
  · exact .inl h
  refine .inr ⟨b, hb, ?_⟩
  rcases bind_eq_error.mp h with h | ⟨d, hd, h⟩
  · exact .inl h
  match d, hd, h with
  | .error e, _, h => cases h
  | .ok (instr, size), hd, h =>
    rcases bind_eq_error.mp h with h | ⟨out, -, h⟩
    · exact .inr ⟨instr, size, hd, h⟩
    · split at h <;> cases h

/-- The machine after a handler error is the one the iteration started
from, with only `LastPC` and `LastInstr` recorded. -/
theorem step_failed {vm v : VM} {e : Err} (h : vm.step host = .ok (.failed e v)) :
    v = { vm with lastPC := v.lastPC, lastInstr := v.lastInstr } := by
  obtain ⟨b, -, ⟨_, -, hs⟩ | ⟨instr, size, out, -, hout, ⟨e', he, hs⟩ | ⟨-, hs⟩⟩⟩ := step_eq_ok h
  · cases hs
  · cases hs
    rw [(Op.exec_framed _ instr.fn _ _ _ hout).err (by simp [he])]
  · cases hs

/-- One iteration never writes `x0`. -/
theorem step_reg_zero {vm : VM} {s : StepOut} (h : vm.step host = .ok s) :
    (s.machine vm).reg 0 = vm.reg 0 := by
  obtain ⟨b, -, ⟨_, -, rfl⟩ | ⟨instr, size, out, -, hout, ⟨e, -, rfl⟩ | ⟨-, rfl⟩⟩⟩ :=
    step_eq_ok h
  · rfl
  · exact (Op.exec_framed _ instr.fn _ _ _ hout).reg_zero
  · simpa [StepOut.machine] using (Op.exec_framed _ instr.fn _ _ _ hout).reg_zero

/-- One iteration never resizes memory. -/
theorem step_mem_len {vm : VM} {s : StepOut} (h : vm.step host = .ok s) :
    (s.machine vm).mem.len = vm.mem.len := by
  obtain ⟨b, -, ⟨_, -, rfl⟩ | ⟨instr, size, out, -, hout, ⟨e, -, rfl⟩ | ⟨-, rfl⟩⟩⟩ :=
    step_eq_ok h
  · rfl
  · exact (Op.exec_framed _ instr.fn _ _ _ hout).memLen
  · simpa [StepOut.machine] using (Op.exec_framed _ instr.fn _ _ _ hout).memLen

/-! ## The loop -/

section Loop

variable {n i k : Nat} {vm v : VM} {e : Err}

theorem runLoop_decodeFailed (hs : vm.step host = .ok (.decodeFailed e)) :
    runLoop host n i (k + 1) vm = .ok (some (.run (i + 1) n e), vm) := by
  rw [runLoop, hs]; rfl

theorem runLoop_failed (hs : vm.step host = .ok (.failed e v)) :
    runLoop host n i (k + 1) vm = .ok (some (if e.isExit then e else .runOf (i + 1) n e), v) := by
  rw [runLoop, hs]; rfl

theorem runLoop_retired (hs : vm.step host = .ok (.retired v)) :
    runLoop host n i (k + 1) vm = runLoop host n (i + 1) k v := by
  rw [runLoop, hs]; rfl

end Loop

theorem runLoop_step {n i k : Nat} {vm : VM} {r : Option Err × VM}
    (h : runLoop host n i (k + 1) vm = .ok r) : ∃ s, vm.step host = .ok s := by
  cases hs : vm.step host with
  | error p => rw [runLoop, hs] at h; cases h
  | ok s => exact ⟨s, rfl⟩

/-- **What one iteration keeps, `Run` keeps**: a property of machines that
every iteration preserves holds of the machine `Run` leaves, whatever it
returns. -/
theorem runLoop_inv (P : VM → Prop) (hP : ∀ vm s, vm.step host = .ok s → P vm → P (s.machine vm))
    {n : Nat} : ∀ (k i : Nat) (vm : VM) (r : Option Err × VM), runLoop host n i k vm = .ok r →
      P vm → P r.2
  | 0, _, _, _, h, hv => by cases h; exact hv
  | k + 1, i, vm, r, h, hv => by
    obtain ⟨s, hs⟩ := runLoop_step h
    have h1 := hP vm s hs hv
    cases s with
    | decodeFailed e => rw [runLoop_decodeFailed hs] at h; cases h; exact hv
    | failed e v => rw [runLoop_failed hs] at h; cases h; exact h1
    | retired v => rw [runLoop_retired hs] at h; exact runLoop_inv P hP k (i + 1) v r h h1

/-- **`x0` stays zero across `Run(n)`**: from every machine whose `x0` is 0,
for every `n`, whatever `Run` returns (`nil`, the exit signal or an error),
`x0` is still 0. -/
theorem run_zero_reg (host : Host) (vm : VM) (n : Nat) (h0 : vm.reg 0 = 0) :
    ∀ e vm', vm.run host n = .ok (e, vm') → vm'.reg 0 = 0 :=
  fun e vm' h =>
    runLoop_inv (fun v => v.reg 0 = 0) (fun _ _ hs hv => (step_reg_zero hs).trans hv) n 0 vm
      (e, vm') h h0

/-- `addi x0, x0, 5` (`0x00500013`) on a zeroed machine. -/
def addiX0 : VM := VM.boot #[0x13, 0x00, 0x50, 0x00] (by decide) fun _ => 0

theorem run_zero_reg_addi_x0 :
    addiX0.run .complete 1 = .ok (none,
        ({ addiX0 with lastInstr := some { fn := .addi, rs2 := 5, imm := 5 } }.store 0 5).retire {} 4) ∧
      ∀ e vm', addiX0.run .complete 1 = .ok (e, vm') → vm'.reg 0 = 0 :=
  ⟨rfl, run_zero_reg .complete addiX0 1 rfl⟩

/-- **`Run` never resizes memory**: for every machine and every `n`,
whatever `Run` returns (`nil`, the exit signal or an error), the memory has
the length it started with. Every store writes in place, and no other
handler touches memory. -/
theorem run_mem_len (host : Host) (vm : VM) (n : Nat) :
    ∀ e vm', vm.run host n = .ok (e, vm') → vm'.mem.len = vm.mem.len :=
  fun e vm' h =>
    runLoop_inv (fun v => v.mem.len = vm.mem.len) (fun _ _ hs hv => (step_mem_len hs).trans hv)
      n 0 vm (e, vm') h rfl

theorem run_mem_len_addi_x0 :
    ∃ vm', addiX0.run .complete 1 = .ok (none, vm') ∧ vm'.mem.len = addiX0.mem.len :=
  ⟨_, rfl, run_mem_len .complete addiX0 1 none _ rfl⟩

/-! ## A retired instruction -/

theorem runLoop_one {n i : Nat} {vm v : VM} (h : runLoop host n i 1 vm = .ok (none, v)) :
    vm.step host = .ok (.retired v) := by
  obtain ⟨s, hs⟩ := runLoop_step h
  cases s with
  | decodeFailed e => rw [runLoop_decodeFailed hs] at h; cases h
  | failed e w => rw [runLoop_failed hs] at h; cases h
  | retired w => rw [runLoop_retired hs] at h; cases h; exact hs

/-- The bookkeeping of `Run` for an instruction `instr` of `size` bytes
whose handler returned `out` on `vm`, read off the machine `vm'` the
iteration leaves. -/
structure Retires (vm : VM) (instr : Instruction) (size : Nat) (out : Outcome) (vm' : VM) :
    Prop where
  steps : vm'.steps = vm.steps + 1
  lastPC : vm'.lastPC = vm.pc
  lastInstr : vm'.lastInstr = some instr
  /-- The handler reports `updatedPC` exactly for a taken control transfer. -/
  updatedPC : out.flags.updatedPC = instr.fn.taken vm instr
  jump : instr.fn.taken vm instr = true → vm'.pc = out.vm.pc
  next : instr.fn.taken vm instr = false → vm'.pc = vm.pc + BitVec.ofNat 64 size

/-- **One retired instruction**: when `Run(1)` returns `nil`, the word at
`PC` decoded to an instruction of 2 bytes (compressed) or 4, its handler
ran on the machine with `LastPC` and `LastInstr` recorded, `Steps` went up
by one, and `PC` is the handler's target for a taken control transfer and
the next instruction otherwise. -/
theorem run_one_retire (host : Host) {vm vm' : VM} (h : vm.run host 1 = .ok (none, vm')) :
    ∃ b instr size out, vm.fetch = .ok b ∧ decode vm.pc b = .ok (.ok (instr, size)) ∧
      size = (if b.getD 0 0 &&& 3 = 3 then 4 else 2) ∧
      instr.fn.exec host { vm with lastPC := vm.pc, lastInstr := some instr } instr = .ok out ∧
      Retires vm instr size out vm' := by
  obtain ⟨b, hb, ⟨e, -, hs⟩ | ⟨instr, size, out, hd, hout, ⟨e, -, hs⟩ | ⟨-, hs⟩⟩⟩ :=
    step_eq_ok (runLoop_one h)
  · cases hs
  · cases hs
  · cases hs
    have fr := Op.exec_framed _ instr.fn _ _ _ hout
    rw [Op.taken_record] at fr
    refine ⟨b, instr, size, out, hb, hd, decode_size hd, hout,
      ⟨?_, ?_, ?_, fr.updatedPC, fun ht => ?_, fun ht => ?_⟩⟩
    · simp [fr.steps]
    · simp [fr.lastPC]
    · simp [fr.lastInstr]
    · rw [retire_pc, fr.updatedPC, ht, if_pos rfl]
    · rw [retire_pc, fr.updatedPC, ht, if_neg Bool.false_ne_true, fr.pc ht]

/-- `addi a0, x0, 5` (`0x00500513`) on a zeroed machine. -/
def addiA0 : VM := VM.boot #[0x13, 0x05, 0x50, 0x00] (by decide) fun _ => 0

/-- `addiA0` after the instruction: `a0 = 5`, one step, `PC = 4`. -/
def addiA0Retired : VM :=
  ({ addiA0 with lastInstr := some { fn := .addi, rs2 := 5, rd := 10, imm := 5 } }.store 10 5).retire
    {} 4

theorem run_one_retire_addi_a0 :
    addiA0.run .complete 1 = .ok (none, addiA0Retired) ∧
      ∃ b instr size out, addiA0.fetch = .ok b ∧ decode addiA0.pc b = .ok (.ok (instr, size)) ∧
        size = (if b.getD 0 0 &&& 3 = 3 then 4 else 2) ∧
        instr.fn.exec .complete { addiA0 with lastPC := addiA0.pc, lastInstr := some instr } instr =
          .ok out ∧
        Retires addiA0 instr size out addiA0Retired :=
  ⟨rfl, run_one_retire .complete rfl⟩

/-- The register file of the `csrrw` runs below: `x2 = 7`, all else zero. -/
def x2Seven : Fin 32 → BitVec 64 := fun r => if r = 2 then 7 else 0

/-- **`csrrw` with `rd != 0` has `RDINSTRET` counted on top of its write.**
`csrrw x1, 3, x2` (`0x003110F3`) stores `x2 = 7` to `CSR[3]` but returns
`flags{}`, so `Run` then increments it to 8; the `rd == 0` form
`csrrw x0, 3, x2` (`0x00311073`) reports the write and leaves 7. -/
theorem csrrw_rdinstret_counted :
    ((VM.boot #[0xF3, 0x10, 0x31, 0x00] (by decide) x2Seven).run .complete 1).map
        (·.2.csr RDINSTRET) = .ok 8 ∧
      ((VM.boot #[0x73, 0x10, 0x31, 0x00] (by decide) x2Seven).run .complete 1).map
        (·.2.csr RDINSTRET) = .ok 7 :=
  ⟨rfl, rfl⟩

/-! ## A run that stops on an error -/

/-- From an error at some iteration of the loop: the iterations before it
retired, from `vm` to some `vj`, and the loop returned `vj` with at most
`LastPC` and `LastInstr` changed. -/
theorem runLoop_error {n : Nat} :
    ∀ (k i : Nat) (vm v : VM) (e : Err), runLoop host n i k vm = .ok (some e, v) →
      ∃ j < k, ∃ vj, (∀ m i', runLoop host m i' j vm = .ok (none, vj)) ∧
        v = { vj with lastPC := v.lastPC, lastInstr := v.lastInstr }
  | 0, _, _, _, _, h => by cases h
  | k + 1, i, vm, v, e, h => by
    obtain ⟨s, hs⟩ := runLoop_step h
    cases s with
    | decodeFailed e' =>
      rw [runLoop_decodeFailed hs] at h; cases h
      exact ⟨0, by omega, vm, fun _ _ => rfl, rfl⟩
    | failed e' w =>
      rw [runLoop_failed hs] at h; cases h
      exact ⟨0, by omega, vm, fun _ _ => rfl, step_failed hs⟩
    | retired w =>
      rw [runLoop_retired hs] at h
      obtain ⟨j, hj, vj, hrun, hv⟩ := runLoop_error k (i + 1) w v e h
      exact ⟨j + 1, by omega, vj, fun m i' => (runLoop_retired hs).trans (hrun m (i' + 1)), hv⟩

/-- From a panic of the loop: the iterations before it retired, from `vm`
to some `vj`, and the next iteration panics on `vj`. -/
theorem runLoop_panics {n : Nat} :
    ∀ (k i : Nat) (vm : VM) (p : Panic), runLoop host n i k vm = .error p →
      ∃ j < k, ∃ vj, (∀ m i', runLoop host m i' j vm = .ok (none, vj)) ∧ vj.step host = .error p
  | 0, _, _, _, h => by cases h
  | k + 1, i, vm, p, h => by
    cases hs : vm.step host with
    | error q => rw [runLoop, hs] at h; cases h; exact ⟨0, by omega, vm, fun _ _ => rfl, hs⟩
    | ok s =>
      cases s with
      | decodeFailed e => rw [runLoop_decodeFailed hs] at h; cases h
      | failed e w => rw [runLoop_failed hs] at h; cases h
      | retired w =>
        rw [runLoop_retired hs] at h
        obtain ⟨j, hj, vj, hrun, hp⟩ := runLoop_panics k (i + 1) w p h
        exact ⟨j + 1, by omega, vj, fun m i' => (runLoop_retired hs).trans (hrun m (i' + 1)), hp⟩

/-- A loop that returns `nil` returns it whatever its count and iteration
numbers: they appear only in error messages. -/
theorem runLoop_none_congr {n m : Nat} :
    ∀ {k i i' : Nat} {vm v : VM}, runLoop host n i k vm = .ok (none, v) →
      runLoop host m i' k vm = .ok (none, v)
  | 0, _, _, _, _, h => h
  | k + 1, i, i', vm, v, h => by
    obtain ⟨s, hs⟩ := runLoop_step h
    cases s with
    | decodeFailed e => rw [runLoop_decodeFailed hs] at h; cases h
    | failed e w => rw [runLoop_failed hs] at h; cases h
    | retired w => rw [runLoop_retired hs] at h ⊢; exact runLoop_none_congr h

/-- `runLoop_inv` for a property that each iteration keeps from the machines
where `G` holds, when `G` holds of every machine the loop retires through. -/
theorem runLoop_inv_of (G P : VM → Prop)
    (hP : ∀ vm s, vm.step host = .ok s → G vm → P vm → P (s.machine vm)) {n : Nat} :
    ∀ (k i : Nat) (vm : VM) (r : Option Err × VM), runLoop host n i k vm = .ok r →
      (∀ j < k, ∀ vj, runLoop host j 0 j vm = .ok (none, vj) → G vj) → P vm → P r.2
  | 0, _, _, _, h, _, hv => by cases h; exact hv
  | k + 1, i, vm, r, h, hG, hv => by
    obtain ⟨s, hs⟩ := runLoop_step h
    have h1 := hP vm s hs (hG 0 (by omega) vm rfl) hv
    cases s with
    | decodeFailed e => rw [runLoop_decodeFailed hs] at h; cases h; exact hv
    | failed e w => rw [runLoop_failed hs] at h; cases h; exact h1
    | retired w =>
      rw [runLoop_retired hs] at h
      refine runLoop_inv_of G P hP k (i + 1) w r h (fun j hj vj hvj => ?_) h1
      exact hG (j + 1) (by omega) vj ((runLoop_retired hs).trans (runLoop_none_congr hvj))

/-- **A failing step changes nothing but `LastPC` and `LastInstr`**: when
`Run(n)` returns an error (a decode error, an unrecognized ecall or file
descriptor, or the exit signal), some `k < n` iterations retired first, and
the machine `Run` leaves is the one `Run(k)` leaves, with at most `LastPC`
and `LastInstr` changed. -/
theorem run_error_frame (host : Host) (vm : VM) (n : Nat) (e : Err) (vm' : VM)
    (h : vm.run host n = .ok (some e, vm')) :
    ∃ k < n, ∃ vmk, vm.run host k = .ok (none, vmk) ∧
      vm' = { vmk with lastPC := vm'.lastPC, lastInstr := vm'.lastInstr } :=
  let ⟨k, hk, vmk, hrun, hv⟩ := runLoop_error n 0 vm vm' e h
  ⟨k, hk, vmk, hrun k 0, hv⟩

/-- `ecall` (`0x00000073`) with `a7 = 0`, an unrecognized call. -/
def ecallZero : VM := VM.boot #[0x73, 0x00, 0x00, 0x00] (by decide) fun _ => 0

theorem run_error_frame_ecall :
    ecallZero.run .complete 1 = .ok (some (.runOf 1 1 (.unrecognizedEcall 0 { fn := .ecallOrBreak })),
        { ecallZero with lastInstr := some { fn := .ecallOrBreak } }) ∧
      ∃ k < 1, ∃ vmk, ecallZero.run .complete k = .ok (none, vmk) ∧
        { ecallZero with lastInstr := some { fn := .ecallOrBreak } } =
          { vmk with lastPC := 0, lastInstr := some { fn := .ecallOrBreak } } :=
  ⟨rfl, run_error_frame .complete ecallZero 1 _ _ rfl⟩

/-! ## Whole runs -/

theorem step_retired_steps {vm v : VM} (h : vm.step host = .ok (.retired v)) :
    v.steps = vm.steps + 1 := by
  obtain ⟨b, -, ⟨_, -, hs⟩ | ⟨instr, size, out, -, hout, ⟨_, -, hs⟩ | ⟨-, hs⟩⟩⟩ := step_eq_ok h
  · cases hs
  · cases hs
  · cases hs
    simp [(Op.exec_framed _ instr.fn _ _ _ hout).steps]

theorem runLoop_steps {n : Nat} :
    ∀ (k i : Nat) (vm v : VM), runLoop host n i k vm = .ok (none, v) →
      v.steps = vm.steps + BitVec.ofNat 64 k
  | 0, _, _, _, h => by cases h; simp
  | k + 1, i, vm, v, h => by
    obtain ⟨s, hs⟩ := runLoop_step h
    cases s with
    | decodeFailed e => rw [runLoop_decodeFailed hs] at h; cases h
    | failed e w => rw [runLoop_failed hs] at h; cases h
    | retired w =>
      rw [runLoop_retired hs] at h
      rw [runLoop_steps k (i + 1) w v h, step_retired_steps hs]
      bv_omega

/-- **`Run(n)` returning `nil` retired `n` instructions**: `Steps` went up
by `n` (modulo `2^64`). -/
theorem run_steps (host : Host) {vm v : VM} {n : Nat} (h : vm.run host n = .ok (none, v)) :
    v.steps = vm.steps + BitVec.ofNat 64 n :=
  runLoop_steps n 0 vm v h

theorem run_steps_addi_a0 :
    addiA0.run .complete 1 = .ok (none, addiA0Retired) ∧
      addiA0Retired.steps = addiA0.steps + BitVec.ofNat 64 1 :=
  ⟨rfl, run_steps .complete rfl⟩

end RiscvEmu
