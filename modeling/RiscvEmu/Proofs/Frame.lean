import RiscvEmu.Core.Run

/-!
# What a handler can do

Every handler, on every machine and every instruction, either panics or
returns an `Outcome` inside one `Frame`: it writes registers only through
`store` (so `x0` is untouched), leaves `Steps`, `LastPC`, `LastInstr` and
the length of memory alone, reports `updatedPC` exactly for a taken control
transfer and otherwise leaves `PC` alone, and returns an error only with the
machine it was given. `Op.exec_framed` proves this once for all 78 handlers, family by
family; the run-level theorems read their facts off it.
-/

namespace RiscvEmu

theorem bind_eq_ok {ε α β : Type} {x : Except ε α} {f : α → Except ε β} {b : β} :
    x >>= f = .ok b ↔ ∃ a, x = .ok a ∧ f a = .ok b := by
  cases x <;> simp [bind, Except.bind]

theorem bind_eq_error {ε α β : Type} {x : Except ε α} {f : α → Except ε β} {e : ε} :
    x >>= f = .error e ↔ x = .error e ∨ ∃ a, x = .ok a ∧ f a = .error e := by
  cases x <;> simp [bind, Except.bind]

@[simp] theorem ok_bind {ε α β : Type} (a : α) (f : α → Except ε β) :
    (Except.ok a : Except ε α) >>= f = f a := rfl

/-- The control transfers: the jumps always, a conditional branch when its
comparison holds (signed for BLT/BGE, unsigned for BLTU/BGEU). -/
def Op.taken (op : Op) (vm : VM) (i : Instruction) : Bool :=
  match op with
  | .jal | .jalr | .rvcJAL | .rvcJALR => true
  | .beq => vm.reg i.rs1 == vm.reg i.rs2
  | .bne => vm.reg i.rs1 != vm.reg i.rs2
  | .blt => (vm.reg i.rs1).slt (vm.reg i.rs2)
  | .bge => (vm.reg i.rs2).sle (vm.reg i.rs1)
  | .bltu => (vm.reg i.rs1).ult (vm.reg i.rs2)
  | .bgeu => (vm.reg i.rs2).ule (vm.reg i.rs1)
  | _ => false

/-- The frame of a handler's outcome `r` on machine `vm`, when the handler
makes a control transfer exactly if `taken`. -/
structure Frame (taken : Bool) (vm : VM) (r : Outcome) : Prop where
  reg_zero : r.vm.reg 0 = vm.reg 0
  steps : r.vm.steps = vm.steps
  lastPC : r.vm.lastPC = vm.lastPC
  lastInstr : r.vm.lastInstr = vm.lastInstr
  updatedPC : r.flags.updatedPC = taken
  pc : taken = false → r.vm.pc = vm.pc
  err : r.err ≠ none → r.vm = vm
  memLen : r.vm.mem.len = vm.mem.len

/-- Handler `h` keeps the frame, with `taken vm in` as its control transfer. -/
def Handler.Framed (h : Handler) (taken : VM → Instruction → Bool) : Prop :=
  ∀ vm i r, h vm i = .ok r → Frame (taken vm i) vm r

/-! ## Outcomes that keep the frame -/

/-- A quiet outcome: no flags, no error, and a machine that agrees with
`vm` on everything a frame looks at. -/
theorem frame_quiet {vm w : VM} (h0 : w.reg 0 = vm.reg 0) (hs : w.steps = vm.steps)
    (hl : w.lastPC = vm.lastPC) (hi : w.lastInstr = vm.lastInstr) (hp : w.pc = vm.pc)
    (hm : w.mem.len = vm.mem.len) : Frame false vm ⟨{}, none, w⟩ :=
  ⟨h0, hs, hl, hi, rfl, fun _ => hp, fun h => absurd rfl h, hm⟩

theorem frame_store (vm : VM) (rd : Fin 32) (v : BitVec 64) :
    Frame false vm ⟨{}, none, vm.store rd v⟩ :=
  frame_quiet (by simp) (by simp) (by simp) (by simp) (by simp) (by simp)

/-- An error outcome that hands back the machine unchanged. -/
theorem frame_error (vm : VM) (e : Err) : Frame false vm ⟨{}, some e, vm⟩ :=
  ⟨rfl, rfl, rfl, rfl, rfl, fun _ => rfl, fun _ => rfl, rfl⟩

/-- A jump: link through `store`, then set `PC`. -/
theorem frame_jump (vm : VM) (rd : Fin 32) (link target : BitVec 64) :
    Frame true vm ⟨{ updatedPC := true }, none, { vm.store rd link with pc := target }⟩ :=
  ⟨by simp, by simp, by simp, by simp, rfl, (fun h => nomatch h), fun h => absurd rfl h, by simp⟩

theorem writeCSR_ok {vm vm' : VM} {a v : BitVec 64} (h : vm.writeCSR a v = .ok vm') :
    ∃ c, vm' = { vm with csr := c } := by
  unfold VM.writeCSR at h
  split at h
  · cases h; exact ⟨_, rfl⟩
  · cases h

theorem Mem.set_len {m m' : Mem} {a : BitVec 64} {b : BitVec 8} (h : m.set a b = .ok m') :
    m'.len = m.len := by
  unfold Mem.set at h
  split at h
  · cases h; simp [Mem.len]
  · cases h

theorem writeLE_len {m m' : Mem} {a v : BitVec 64} :
    ∀ k, writeLE m a v k = .ok m' → m'.len = m.len
  | 0, h => by cases h; rfl
  | k + 1, h => by
    obtain ⟨m1, h1, h⟩ := bind_eq_ok.mp h
    exact (Mem.set_len h).trans (writeLE_len k h1)

/-! ## The families -/

theorem writeRd_framed (f : VM → Instruction → BitVec 64) :
    (writeRd f).Framed fun _ _ => false := by
  rintro vm i r ⟨⟩
  exact frame_store vm i.rd _

theorem branch_framed (c : BitVec 64 → BitVec 64 → Bool) :
    (branch c).Framed fun vm i => c (vm.reg i.rs1) (vm.reg i.rs2) := by
  intro vm i r h
  unfold branch at h
  split at h <;> cases h
  · rename_i hc
    simpa [hc] using frame_jump vm 0 0 (vm.pc + signExtend i.imm 12)
  · rename_i hc
    simpa [hc] using (frame_quiet rfl rfl rfl rfl rfl rfl : Frame false vm ⟨{}, none, vm⟩)

theorem load_framed (width : Nat) (extend : BitVec 64 → BitVec 64) :
    (load width extend).Framed fun _ _ => false := by
  intro vm i r h
  obtain ⟨v, -, h⟩ := bind_eq_ok.mp h
  cases h
  exact frame_store vm i.rd _

theorem storeBytes_framed (width : Nat) : (storeBytes width).Framed fun _ _ => false := by
  intro vm i r h
  obtain ⟨m, hm, h⟩ := bind_eq_ok.mp h
  cases h
  exact frame_quiet rfl rfl rfl rfl rfl (writeLE_len width hm)

theorem csrSet_framed (combine : BitVec 64 → BitVec 64 → BitVec 64)
    (operand : VM → Instruction → BitVec 64) (writes : VM → Instruction → Bool) :
    (csrSet combine operand writes).Framed fun _ _ => false := by
  intro vm i r h
  obtain ⟨v, -, h⟩ := bind_eq_ok.mp h
  dsimp only at h
  split at h <;> obtain ⟨vm', hw, h⟩ := bind_eq_ok.mp h <;> cases h
  · obtain ⟨c, rfl⟩ := writeCSR_ok hw
    exact frame_quiet (by simp) (by simp) (by simp) (by simp) (by simp) (by simp)
  · cases hw
    exact frame_store vm i.rd v

/-- The handlers that return `flags{}, nil` and change nothing. -/
theorem nop_framed :
    Handler.Framed (fun vm _ => pure ⟨{}, none, vm⟩) fun _ _ => false := by
  rintro vm i r ⟨⟩
  exact frame_quiet rfl rfl rfl rfl rfl rfl

/-! ## Handlers with bodies of their own -/

theorem jal_framed : jal.Framed fun _ _ => true := by
  rintro vm i r ⟨⟩
  exact frame_jump vm i.rd _ _

theorem jalr_framed : jalr.Framed fun _ _ => true := by
  rintro vm i r ⟨⟩
  exact frame_jump vm i.rd _ _

theorem rvcJAL_framed : rvcJAL.Framed fun _ _ => true := by
  rintro vm i r ⟨⟩
  exact frame_jump vm i.rd _ _

theorem rvcJALR_framed : rvcJALR.Framed fun _ _ => true := by
  rintro vm i r ⟨⟩
  exact frame_jump vm i.rd _ _

theorem ecall_framed (host : Host) : (ecall host).Framed fun _ _ => false := by
  intro vm i r h
  unfold ecall at h
  dsimp only at h
  split_ifs at h <;> cases h
  · exact frame_error vm _
  · exact frame_store vm _ _
  · exact frame_error vm _
  · exact frame_error vm _

theorem ecallOrBreak_framed (host : Host) : (ecallOrBreak host).Framed fun _ _ => false := by
  intro vm i r h
  unfold ecallOrBreak at h
  split_ifs at h
  · exact ecall_framed host vm i r h
  · exact nop_framed vm i r h

theorem shiftRight_framed : shiftRight.Framed fun _ _ => false := by
  intro vm i r h
  unfold shiftRight at h
  split_ifs at h
  · exact writeRd_framed _ vm i r h
  · exact writeRd_framed _ vm i r h

theorem csrrw_framed : csrrw.Framed fun _ _ => false := by
  intro vm i r h
  unfold csrrw at h
  split at h
  · obtain ⟨vm', hw, h⟩ := bind_eq_ok.mp h
    obtain ⟨c, rfl⟩ := writeCSR_ok hw
    split at h <;> cases h
    · exact ⟨rfl, rfl, rfl, rfl, rfl, fun _ => rfl, fun h => absurd rfl h, rfl⟩
    · exact frame_quiet rfl rfl rfl rfl rfl rfl
  · obtain ⟨v, -, h⟩ := bind_eq_ok.mp h
    obtain ⟨vm', hw, h⟩ := bind_eq_ok.mp h
    obtain ⟨c, rfl⟩ := writeCSR_ok hw
    cases h
    exact frame_quiet (by simp) (by simp) (by simp) (by simp) (by simp) (by simp)

theorem csrrwi_framed : csrrwi.Framed fun _ _ => false := by
  intro vm i r h
  unfold csrrwi at h
  split at h
  · obtain ⟨vm', hw, h⟩ := bind_eq_ok.mp h
    obtain ⟨c, rfl⟩ := writeCSR_ok hw
    cases h
    exact frame_quiet rfl rfl rfl rfl rfl rfl
  · obtain ⟨v, -, h⟩ := bind_eq_ok.mp h
    obtain ⟨vm', hw, h⟩ := bind_eq_ok.mp h
    obtain ⟨c, rfl⟩ := writeCSR_ok hw
    cases h
    exact frame_quiet (by simp) (by simp) (by simp) (by simp) (by simp) (by simp)

theorem remw_framed : remw.Framed fun _ _ => false := by
  intro vm i r h
  unfold remw at h
  split_ifs at h <;> cases h <;> exact frame_store vm i.rd _

theorem remuw_framed : remuw.Framed fun _ _ => false := by
  intro vm i r h
  unfold remuw at h
  split_ifs at h <;> cases h <;> exact frame_store vm i.rd _

/-- **Every handler keeps the frame**, with `Op.taken` as its control
transfer. -/
theorem Op.exec_framed (host : Host) : ∀ op : Op, (op.exec host).Framed op.taken
  | .lui | .auipc | .addi | .slti | .sltiu | .xori | .ori | .andi | .add | .sub | .sll | .slt
  | .sltu | .xor | .srl | .sra | .or | .and | .slli | .srli | .srai | .addiw | .slliw | .srliw
  | .sraiw | .addw | .subw | .sllw | .srlw | .sraw | .mul | .mulh | .mulhsu | .mulhu | .mulw
  | .div | .divu | .divw | .divuw | .rem | .remu => writeRd_framed _
  | .beq | .bne | .blt | .bltu => branch_framed _
  | .bge => branch_framed fun a b => b.sle a
  | .bgeu => branch_framed fun a b => b.ule a
  | .lb | .lh | .lw | .lbu | .lhu | .lwu | .ld => load_framed _ _
  | .sb | .sh | .sw | .sd => storeBytes_framed _
  | .csrrs | .csrrc | .csrrsi | .csrrci => csrSet_framed _ _ _
  | .fence | .fenceI | .ebreak => nop_framed
  | .jal => jal_framed
  | .jalr => jalr_framed
  | .rvcJAL => rvcJAL_framed
  | .rvcJALR => rvcJALR_framed
  | .ecall => ecall_framed host
  | .ecallOrBreak => ecallOrBreak_framed host
  | .shiftRight => shiftRight_framed
  | .csrrw => csrrw_framed
  | .csrrwi => csrrwi_framed
  | .remw => remw_framed
  | .remuw => remuw_framed

end RiscvEmu
