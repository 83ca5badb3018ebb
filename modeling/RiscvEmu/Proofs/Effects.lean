import RiscvEmu.Proofs.Memory

/-!
# What an iteration writes: registers, the CSR file and memory

A handler writes only what its instruction names (`Op.exec_writesOnly`,
family by family as in `Frame.lean`): the register `rd` for the handlers
that compute a value, `a0` for `ecall`, the one entry of `vm.CSR` the CSR
number of a CSR instruction names, and the `width` bytes at the effective
address of a store. Branches and stores never write `rd`, though `Decode`
fills it with immediate bits for their formats. Only `csrrw` reports a
write of `RDINSTRET`.

`Run` adds its own writes: `Steps++` and `CSR[RDINSTRET]++` per retired
instruction. So over a run in which no iteration decodes an instruction
that writes register `x` (`run_reg_frame`), `x` keeps its value; over a
run in which none decodes a CSR instruction naming `c`
(`run_csr_counters`), `CSR[RDINSTRET]` advances exactly as `Steps` does
and every other entry keeps its value, so `RDCYCLE` and `RDTIME` never
move; and over a run in which none decodes a store that covers byte `j`
(`run_mem_frame`), byte `j` keeps its value: the program text changes only
through the guest's own stores.

The exit signal, likewise, comes only from the guest: when `Run` returns
an error for which `IsExit` holds, the last iteration decoded an `ecall`
with `a7 = 0x5D` (`run_exit`).
-/

namespace RiscvEmu

variable {host : Host}

/-- The handlers that write the register `rd`. -/
def Op.writesRd : Op → Bool
  | .beq | .bne | .blt | .bge | .bltu | .bgeu | .sb | .sh | .sw | .sd | .fence | .fenceI
  | .ebreak | .ecall | .ecallOrBreak => false
  | _ => true

/-- The handlers that reach `ecall`, which writes `a0`. -/
def Op.isEcall : Op → Bool
  | .ecall | .ecallOrBreak => true
  | _ => false

/-- The six Zicsr instructions. -/
def Op.isCsr : Op → Bool
  | .csrrw | .csrrs | .csrrc | .csrrwi | .csrrsi | .csrrci => true
  | _ => false

/-- The number of bytes a store writes. -/
def Op.storeWidth : Op → Option Nat
  | .sb => some 1
  | .sh => some 2
  | .sw => some 4
  | .sd => some 8
  | _ => none

/-- What a handler's outcome `r` on `vm` may write beyond `PC`: the
registers `regs` holds of, the CSRs `csrs` holds of, and the bytes of
memory `bytes` holds of; it reports a write of `RDINSTRET` only when
`csrs` holds of it, and returns the exit signal only when `exits` holds. -/
structure Writes (regs : Fin 32 → Prop) (csrs : Fin 2048 → Prop) (bytes : Nat → Prop)
    (exits : Prop) (vm : VM) (r : Outcome) : Prop where
  reg : ∀ x, ¬ regs x → r.vm.reg x = vm.reg x
  csr : ∀ c, ¬ csrs c → r.vm.csr c = vm.csr c
  instret : r.flags.updatedRDINSTRET = true → csrs RDINSTRET
  byte : ∀ j, ¬ bytes j → r.vm.mem.byte j = vm.mem.byte j
  exit : r.err = some .exit → exits

/-- Handler `h` writes at most the registers `regs in`, the CSRs `csrs in`
and the bytes `bytes vm in`, and exits only when `exits vm in` holds. -/
def Handler.WritesOnly (h : Handler) (regs : Instruction → Fin 32 → Prop)
    (csrs : Instruction → Fin 2048 → Prop) (bytes : VM → Instruction → Nat → Prop)
    (exits : VM → Instruction → Prop) : Prop :=
  ∀ vm i r, h vm i = .ok r → Writes (regs i) (csrs i) (bytes vm i) (exits vm i) vm r

theorem Handler.WritesOnly.mono {h : Handler} {R R' : Instruction → Fin 32 → Prop}
    {C C' : Instruction → Fin 2048 → Prop} {B B' : VM → Instruction → Nat → Prop}
    {E E' : VM → Instruction → Prop} (hw : h.WritesOnly R C B E) (hR : ∀ i x, R i x → R' i x)
    (hC : ∀ i c, C i c → C' i c) (hB : ∀ vm i j, B vm i j → B' vm i j)
    (hE : ∀ vm i, E vm i → E' vm i) : h.WritesOnly R' C' B' E' := fun vm i r hr =>
  have w := hw vm i r hr
  ⟨fun x hx => w.reg x (mt (hR i x) hx), fun c hc => w.csr c (mt (hC i c) hc),
    fun hu => hC i _ (w.instret hu), fun j hj => w.byte j (mt (hB vm i j) hj),
    fun he => hE vm i (w.exit he)⟩

/-- Handler `h` writes at most the registers `regs in` and `PC`, reports no
counter write and returns no error. -/
def Handler.RegsOnly (h : Handler) (regs : Instruction → Fin 32 → Prop) : Prop :=
  ∀ vm i r, h vm i = .ok r → (∀ x, ¬ regs i x → r.vm.reg x = vm.reg x) ∧
    r.vm.csr = vm.csr ∧ r.vm.mem = vm.mem ∧ r.flags.updatedRDINSTRET = false ∧ r.err = none

theorem Handler.RegsOnly.writesOnly {h : Handler} {R R' : Instruction → Fin 32 → Prop}
    (hk : h.RegsOnly R) (hR : ∀ i x, R i x → R' i x) (C : Instruction → Fin 2048 → Prop)
    (B : VM → Instruction → Nat → Prop) (E : VM → Instruction → Prop) :
    h.WritesOnly R' C B E := fun vm i r hr =>
  have ⟨hx, hc, hm, hu, he⟩ := hk vm i r hr
  ⟨fun x h => hx x (mt (hR i x) h), fun c _ => congrFun hc c,
    fun h => absurd (hu ▸ h) Bool.false_ne_true, fun j _ => by rw [hm],
    fun h => Option.noConfusion (he ▸ h)⟩

theorem store_reg_other (vm : VM) {rd x : Fin 32} (v : BitVec 64) (h : ¬ x = rd) :
    (vm.store rd v).reg x = vm.reg x := by
  rw [store_reg, if_neg fun h' => h h'.1]

/-- The outcome of a write of `rd` through `store`, and nothing else. -/
theorem regsOnly_store (vm : VM) (i : Instruction) (v : BitVec 64) :
    (∀ x, ¬ x = i.rd → (vm.store i.rd v).reg x = vm.reg x) ∧ (vm.store i.rd v).csr = vm.csr ∧
      (vm.store i.rd v).mem = vm.mem ∧ ({} : Flags).updatedRDINSTRET = false ∧
      (none : Option Err) = none :=
  ⟨fun _ => store_reg_other vm v, store_csr .., store_mem .., rfl, rfl⟩

/-! ## Handlers that write only registers and `PC` -/

theorem writeRd_regsOnly (f : VM → Instruction → BitVec 64) :
    (writeRd f).RegsOnly fun i x => x = i.rd := by
  rintro vm i r ⟨⟩
  exact regsOnly_store vm i _

theorem branch_regsOnly (c : BitVec 64 → BitVec 64 → Bool) :
    (branch c).RegsOnly fun _ _ => False := by
  intro vm i r h
  unfold branch at h
  split at h <;> cases h <;> exact ⟨fun _ _ => rfl, rfl, rfl, rfl, rfl⟩

theorem load_regsOnly (width : Nat) (extend : BitVec 64 → BitVec 64) :
    (load width extend).RegsOnly fun i x => x = i.rd := by
  intro vm i r h
  obtain ⟨v, -, h⟩ := bind_eq_ok.mp h
  cases h
  exact regsOnly_store vm i _

theorem nop_regsOnly : Handler.RegsOnly (fun vm _ => pure ⟨{}, none, vm⟩) fun _ _ => False := by
  rintro vm i r ⟨⟩
  exact ⟨fun _ _ => rfl, rfl, rfl, rfl, rfl⟩

theorem jump_regsOnly (link target : VM → Instruction → BitVec 64) :
    Handler.RegsOnly (fun vm i =>
      pure ⟨{ updatedPC := true }, none, { vm.store i.rd (link vm i) with pc := target vm i }⟩)
      fun i x => x = i.rd := by
  rintro vm i r ⟨⟩
  exact regsOnly_store vm i _

theorem shiftRight_regsOnly : shiftRight.RegsOnly fun i x => x = i.rd := by
  intro vm i r h
  unfold shiftRight at h
  split_ifs at h <;> exact writeRd_regsOnly _ vm i r h

theorem remw_regsOnly : remw.RegsOnly fun i x => x = i.rd := by
  intro vm i r h
  unfold remw at h
  split_ifs at h <;> cases h <;> exact regsOnly_store vm i _

theorem remuw_regsOnly : remuw.RegsOnly fun i x => x = i.rd := by
  intro vm i r h
  unfold remuw at h
  split_ifs at h <;> cases h <;> exact regsOnly_store vm i _

/-! ## `ecall` -/

/-- `ecall` writes `a0`, for the `write` call, and no other register; it
returns the exit signal only for `a7 = 0x5D`. -/
theorem ecall_writesOnly (host : Host) :
    (ecall host).WritesOnly (fun _ x => x = 10) (fun _ _ => False) (fun _ _ _ => False)
      fun vm _ => vm.reg 17 = 0x5D := by
  intro vm i r h
  unfold ecall at h
  simp only [regNums_a7, regNums_a0, regNums_a1, regNums_a2] at h
  split_ifs at h with h5d <;> cases h <;>
    exact ⟨fun x hx => by first | rfl | exact store_reg_other vm _ hx, fun _ _ => by simp,
      nofun, fun _ _ => by simp, fun he => by first | exact h5d | cases he⟩

theorem ecallOrBreak_writesOnly (host : Host) :
    (ecallOrBreak host).WritesOnly (fun _ x => x = 10) (fun _ _ => False) (fun _ _ _ => False)
      fun vm _ => vm.reg 17 = 0x5D := by
  intro vm i r h
  unfold ecallOrBreak at h
  split_ifs at h
  · exact ecall_writesOnly host vm i r h
  · cases h
    exact ⟨fun _ _ => rfl, fun _ _ => rfl, nofun, fun _ _ => rfl, nofun⟩

/-! ## The CSR instructions -/

/-- `vm.CSR[x] = v` changes only the entry `x` names, and neither
registers nor memory. -/
theorem writeCSR_writes {vm vm' : VM} {x v : BitVec 64} (h : vm.writeCSR x v = .ok vm') :
    vm'.reg = vm.reg ∧ vm'.mem = vm.mem ∧
      ∀ c : Fin 2048, c.val ≠ x.toNat → vm'.csr c = vm.csr c := by
  unfold VM.writeCSR at h
  split at h
  · cases h
    exact ⟨rfl, rfl, fun c hc => Function.update_noteq (fun h => hc (by rw [h])) _ _⟩
  · cases h

/-- The outcome of a CSR instruction: `vm'` from `vm.CSR[imm] = ...`, with
`rd` written through `store` or not. -/
theorem csr_writes {vm vm' w : VM} {i : Instruction} {f : Flags} {x v : BitVec 64}
    (hw : vm.writeCSR x v = .ok vm') (hx : x = i.imm) (hreg : ∀ y, ¬ y = i.rd → w.reg y = vm'.reg y)
    (hcsr : w.csr = vm'.csr) (hmem : w.mem = vm'.mem)
    (hf : f.updatedRDINSTRET = true → RDINSTRET.val = i.imm.toNat) :
    Writes (fun y => y = i.rd) (fun c => c.val = i.imm.toNat) (fun _ => False) False vm
      ⟨f, none, w⟩ :=
  have ⟨hr, hm, hc⟩ := writeCSR_writes hw
  ⟨fun y h => (hreg y h).trans (congrFun hr y), fun c h => hcsr ▸ hc c (hx ▸ h), hf,
    fun j _ => by dsimp only; rw [hmem, hm], nofun⟩

theorem csrSet_writesOnly (combine : BitVec 64 → BitVec 64 → BitVec 64)
    (operand : VM → Instruction → BitVec 64) (writes : VM → Instruction → Bool) :
    (csrSet combine operand writes).WritesOnly (fun i x => x = i.rd)
      (fun i c => c.val = i.imm.toNat) (fun _ _ _ => False) fun _ _ => False := by
  intro vm i r h
  obtain ⟨v, -, h⟩ := bind_eq_ok.mp h
  dsimp only at h
  split at h <;> obtain ⟨vm', hw, h⟩ := bind_eq_ok.mp h <;> cases h
  · exact csr_writes hw rfl (fun _ => store_reg_other _ _) (store_csr ..) (store_mem ..) nofun
  · cases hw
    have ⟨hx, hc, hm, _⟩ := regsOnly_store vm i v
    exact ⟨hx, fun c _ => by dsimp only; rw [hc], nofun, fun j _ => by dsimp only; rw [hm],
      nofun⟩

theorem csrrw_writesOnly :
    csrrw.WritesOnly (fun i x => x = i.rd) (fun i c => c.val = i.imm.toNat)
      (fun _ _ _ => False) fun _ _ => False := by
  intro vm i r h
  unfold csrrw at h
  split at h
  · obtain ⟨vm', hw, h⟩ := bind_eq_ok.mp h
    split at h <;> cases h
    · rename_i hx
      exact csr_writes hw rfl (fun _ _ => rfl) rfl rfl fun _ => by rw [hx]; rfl
    · exact csr_writes hw rfl (fun _ _ => rfl) rfl rfl nofun
  · obtain ⟨v, -, h⟩ := bind_eq_ok.mp h
    obtain ⟨vm', hw, h⟩ := bind_eq_ok.mp h
    cases h
    exact csr_writes hw rfl (fun _ => store_reg_other _ _) (store_csr ..) (store_mem ..) nofun

theorem csrrwi_writesOnly :
    csrrwi.WritesOnly (fun i x => x = i.rd) (fun i c => c.val = i.imm.toNat)
      (fun _ _ _ => False) fun _ _ => False := by
  intro vm i r h
  unfold csrrwi at h
  split at h
  · obtain ⟨vm', hw, h⟩ := bind_eq_ok.mp h
    cases h
    exact csr_writes hw rfl (fun _ _ => rfl) rfl rfl nofun
  · obtain ⟨v, -, h⟩ := bind_eq_ok.mp h
    obtain ⟨vm', hw, h⟩ := bind_eq_ok.mp h
    cases h
    exact csr_writes hw rfl (fun _ => store_reg_other _ _) (store_csr ..) (store_mem ..) nofun

/-! ## The stores -/

theorem Mem.set_lt {m m' : Mem} {a : BitVec 64} {b : BitVec 8} (h : m.set a b = .ok m') :
    a.toNat < m.len := by
  unfold Mem.set at h
  split at h
  · assumption
  · cases h

/-- A byte loop that returns has written inside memory: a wrapped address
sum would have indexed past the end first. -/
theorem writeLE_bound {m : Mem} {a v : BitVec 64} :
    ∀ {k : Nat} {m' : Mem}, writeLE m a v (k + 1) = .ok m' → a.toNat + (k + 1) ≤ m.len
  | 0, _, h => by
    obtain ⟨m1, h1, h2⟩ := bind_eq_ok.mp h
    cases h1
    have := Mem.set_lt h2
    rw [BitVec.add_zero] at this
    omega
  | k + 1, _, h => by
    obtain ⟨m1, h1, h2⟩ := bind_eq_ok.mp h
    have hk := writeLE_bound h1
    have hs := Mem.set_lt h2
    rw [writeLE_len _ h1, BitVec.toNat_add, BitVec.toNat_ofNat] at hs
    have := m.len_lt
    rw [Nat.mod_eq_of_lt (by omega : k + 1 < 2 ^ 64), Nat.mod_eq_of_lt (by omega)] at hs
    omega

/-- **A store writes only its own bytes.** -/
theorem writeLE_frame {m m' : Mem} {a v : BitVec 64} {N : Nat} (h : writeLE m a v N = .ok m')
    (j : Nat) (hj : ¬ (a.toNat ≤ j ∧ j < a.toNat + N)) : m'.byte j = m.byte j := by
  cases N with
  | zero => cases h; rfl
  | succ k =>
    obtain ⟨m'', hw, -, hb⟩ := writeLE_ok m a v (k + 1) (writeLE_bound h)
    cases hw.symm.trans h
    rw [hb, if_neg hj]

theorem storeBytes_writesOnly (width : Nat) :
    (storeBytes width).WritesOnly (fun _ _ => False) (fun _ _ => False)
      (fun vm i j => (vm.address i).toNat ≤ j ∧ j < (vm.address i).toNat + width)
      fun _ _ => False := by
  intro vm i r h
  obtain ⟨m, hm, h⟩ := bind_eq_ok.mp h
  cases h
  exact ⟨fun _ _ => rfl, fun _ _ => rfl, nofun, writeLE_frame hm, nofun⟩

/-- **Every handler writes at most what its instruction names**: `rd` if
it computes a value, `a0` for `ecall`, the CSR its CSR number names for a
CSR instruction, the bytes at its effective address for a store; only a
CSR instruction reports a write of `RDINSTRET`, and only `ecall` with
`a7 = 0x5D` returns the exit signal. -/
theorem Op.exec_writesOnly (host : Host) : ∀ op : Op, (op.exec host).WritesOnly
    (fun i x => op.writesRd = true ∧ x = i.rd ∨ op.isEcall = true ∧ x = 10)
    (fun i c => op.isCsr = true ∧ c.val = i.imm.toNat)
    (fun vm i j => ∃ N, op.storeWidth = some N ∧
      (vm.address i).toNat ≤ j ∧ j < (vm.address i).toNat + N)
    fun vm _ => op.isEcall = true ∧ vm.reg 17 = 0x5D
  | .lui | .auipc | .addi | .slti | .sltiu | .xori | .ori | .andi | .add | .sub | .sll | .slt
  | .sltu | .xor | .srl | .sra | .or | .and | .slli | .srli | .srai | .addiw | .slliw | .srliw
  | .sraiw | .addw | .subw | .sllw | .srlw | .sraw | .mul | .mulh | .mulhsu | .mulhu | .mulw
  | .div | .divu | .divw | .divuw | .rem | .remu =>
    (writeRd_regsOnly _).writesOnly (fun _ _ h => .inl ⟨rfl, h⟩) _ _ _
  | .beq | .bne | .blt | .bltu => (branch_regsOnly _).writesOnly (fun _ _ h => h.elim) _ _ _
  | .bge => (branch_regsOnly fun a b => b.sle a).writesOnly (fun _ _ h => h.elim) _ _ _
  | .bgeu => (branch_regsOnly fun a b => b.ule a).writesOnly (fun _ _ h => h.elim) _ _ _
  | .lb | .lh | .lw | .lbu | .lhu | .lwu | .ld =>
    (load_regsOnly _ _).writesOnly (fun _ _ h => .inl ⟨rfl, h⟩) _ _ _
  | .fence | .fenceI | .ebreak => nop_regsOnly.writesOnly (fun _ _ h => h.elim) _ _ _
  | .jal | .jalr | .rvcJAL | .rvcJALR =>
    (jump_regsOnly _ _).writesOnly (fun _ _ h => .inl ⟨rfl, h⟩) _ _ _
  | .shiftRight => shiftRight_regsOnly.writesOnly (fun _ _ h => .inl ⟨rfl, h⟩) _ _ _
  | .remw => remw_regsOnly.writesOnly (fun _ _ h => .inl ⟨rfl, h⟩) _ _ _
  | .remuw => remuw_regsOnly.writesOnly (fun _ _ h => .inl ⟨rfl, h⟩) _ _ _
  | .ecall =>
    (ecall_writesOnly host).mono (fun _ _ h => .inr ⟨rfl, h⟩) (fun _ _ h => h.elim)
      (fun _ _ _ h => h.elim) fun _ _ h => ⟨rfl, h⟩
  | .ecallOrBreak =>
    (ecallOrBreak_writesOnly host).mono (fun _ _ h => .inr ⟨rfl, h⟩) (fun _ _ h => h.elim)
      (fun _ _ _ h => h.elim) fun _ _ h => ⟨rfl, h⟩
  | .sb | .sh | .sw | .sd =>
    (storeBytes_writesOnly _).mono (fun _ _ h => h.elim) (fun _ _ h => h.elim)
      (fun _ _ _ h => ⟨_, rfl, h⟩) fun _ _ h => h.elim
  | .csrrs | .csrrc | .csrrsi | .csrrci =>
    (csrSet_writesOnly _ _ _).mono (fun _ _ h => .inl ⟨rfl, h⟩) (fun _ _ h => ⟨rfl, h⟩)
      (fun _ _ _ h => h.elim) fun _ _ h => h.elim
  | .csrrw =>
    csrrw_writesOnly.mono (fun _ _ h => .inl ⟨rfl, h⟩) (fun _ _ h => ⟨rfl, h⟩)
      (fun _ _ _ h => h.elim) fun _ _ h => h.elim
  | .csrrwi =>
    csrrwi_writesOnly.mono (fun _ _ h => .inl ⟨rfl, h⟩) (fun _ _ h => ⟨rfl, h⟩)
      (fun _ _ _ h => h.elim) fun _ _ h => h.elim

/-! ## Iterations -/

theorem retire_csr (vm : VM) (f : Flags) (size : Nat) (c : Fin 2048) :
    (vm.retire f size).csr c =
      if c = RDINSTRET ∧ f.updatedRDINSTRET = false then vm.csr c + 1 else vm.csr c := by
  obtain ⟨p, u⟩ := f
  unfold VM.retire
  by_cases hc : c = RDINSTRET
  · subst hc
    cases u <;> cases p <;> simp
  · cases u <;> cases p <;> simp [hc]

/-- The next iteration on `vm` decodes an instruction that writes register
`x`: its `rd`, or `a0` for `ecall`. -/
def VM.NextWritesReg (vm : VM) (x : Fin 32) : Prop :=
  ∃ b instr size, vm.fetch = .ok b ∧ decode vm.pc b = .ok (.ok (instr, size)) ∧
    (instr.fn.writesRd = true ∧ x = instr.rd ∨ instr.fn.isEcall = true ∧ x = 10)

/-- The next iteration on `vm` decodes a CSR instruction whose CSR number
names `c`. -/
def VM.NextNamesCsr (vm : VM) (c : Fin 2048) : Prop :=
  ∃ b instr size, vm.fetch = .ok b ∧ decode vm.pc b = .ok (.ok (instr, size)) ∧
    instr.fn.isCsr = true ∧ c.val = instr.imm.toNat

/-- The next iteration on `vm` decodes a store whose bytes cover byte `j`
of memory. -/
def VM.NextStoresTo (vm : VM) (j : Nat) : Prop :=
  ∃ b instr size N, vm.fetch = .ok b ∧ decode vm.pc b = .ok (.ok (instr, size)) ∧
    instr.fn.storeWidth = some N ∧ (vm.address instr).toNat ≤ j ∧ j < (vm.address instr).toNat + N

/-- How `CSR[c]` of a machine `w` relates to `CSR[c]` of `vm` when no CSR
instruction naming `c` ran in between: `RDINSTRET` has moved as `Steps`
has, and any other entry is kept. -/
def VM.CsrTracks (vm w : VM) (c : Fin 2048) : Prop :=
  w.csr c = if c = RDINSTRET then vm.csr c + (w.steps - vm.steps) else vm.csr c

theorem csrTracks_self (vm : VM) (c : Fin 2048) : vm.CsrTracks vm c := by
  unfold VM.CsrTracks
  split_ifs <;> simp

/-- **An iteration that decodes no CSR instruction naming `c`** keeps
`CSR[c]`, or for `RDINSTRET` the difference `CSR[RDINSTRET] - Steps`. -/
theorem step_csrTracks {vm : VM} {s : StepOut} (h : vm.step host = .ok s) {c : Fin 2048}
    (hc : ¬ vm.NextNamesCsr c) : vm.CsrTracks (s.machine vm) c := by
  obtain ⟨b, hb, ⟨e, -, rfl⟩ | ⟨instr, size, out, hd, hout, ⟨e, he, rfl⟩ | ⟨-, rfl⟩⟩⟩ :=
    step_eq_ok h
  · exact csrTracks_self vm c
  · rw [StepOut.machine, (Op.exec_framed _ instr.fn _ _ _ hout).err (by rw [he]; nofun)]
    exact csrTracks_self vm c
  · have hw := Op.exec_writesOnly _ instr.fn _ instr out hout
    have hn : ¬ (instr.fn.isCsr = true ∧ c.val = instr.imm.toNat) :=
      fun hn => hc ⟨b, instr, size, hb, hd, hn⟩
    unfold VM.CsrTracks
    rw [StepOut.machine, retire_csr, retire_steps, (Op.exec_framed _ instr.fn _ _ _ hout).steps,
      hw.csr c hn]
    by_cases h1 : c = RDINSTRET
    · subst h1
      have hu : out.flags.updatedRDINSTRET = false := by
        cases hu : out.flags.updatedRDINSTRET
        · rfl
        · exact absurd (hw.instret hu) hn
      simp [hu]
    · simp [h1]

/-- **An iteration that decodes no store covering byte `j`** keeps it. -/
theorem step_byte {vm : VM} {s : StepOut} (h : vm.step host = .ok s) {j : Nat}
    (hj : ¬ vm.NextStoresTo j) : (s.machine vm).mem.byte j = vm.mem.byte j := by
  obtain ⟨b, hb, ⟨e, -, rfl⟩ | ⟨instr, size, out, hd, hout, ⟨e, he, rfl⟩ | ⟨-, rfl⟩⟩⟩ :=
    step_eq_ok h
  · rfl
  · rw [StepOut.machine, (Op.exec_framed _ instr.fn _ _ _ hout).err (by rw [he]; nofun)]
  · rw [StepOut.machine, retire_mem]
    exact (Op.exec_writesOnly _ instr.fn _ instr out hout).byte j
      fun ⟨N, hN, hr⟩ => hj ⟨b, instr, size, N, hb, hd, hN, hr⟩

/-- **An iteration that decodes no instruction writing register `x`**
keeps it. -/
theorem step_reg {vm : VM} {s : StepOut} (h : vm.step host = .ok s) {x : Fin 32}
    (hx : ¬ vm.NextWritesReg x) : (s.machine vm).reg x = vm.reg x := by
  obtain ⟨b, hb, ⟨e, -, rfl⟩ | ⟨instr, size, out, hd, hout, ⟨e, he, rfl⟩ | ⟨-, rfl⟩⟩⟩ :=
    step_eq_ok h
  · rfl
  · rw [StepOut.machine, (Op.exec_framed _ instr.fn _ _ _ hout).err (by rw [he]; nofun)]
  · rw [StepOut.machine, retire_reg]
    exact (Op.exec_writesOnly _ instr.fn _ instr out hout).reg x
      fun hw => hx ⟨b, instr, size, hb, hd, hw⟩

/-- **An iteration that exits ran the exit call**: the error is the exit
signal, the next instruction decodes to an `ecall` with `a7 = 0x5D`, and
the iteration leaves `vm` with only `LastPC` and `LastInstr` set. -/
theorem step_exit {vm v : VM} {e : Err} (h : vm.step host = .ok (.failed e v)) (he : e.isExit = true) :
    e = .exit ∧ ∃ b instr size, vm.fetch = .ok b ∧ decode vm.pc b = .ok (.ok (instr, size)) ∧
      instr.fn.isEcall = true ∧ vm.reg 17 = 0x5D ∧
      v = { vm with lastPC := vm.pc, lastInstr := some instr } := by
  obtain ⟨b, hb, ⟨_, -, hs⟩ | ⟨instr, size, out, hd, hout, ⟨e', he', hs⟩ | ⟨-, hs⟩⟩⟩ :=
    step_eq_ok h
  · cases hs
  · cases hs
    obtain rfl : e = .exit := by simpa [Err.isExit] using he
    obtain ⟨hec, h17⟩ := (Op.exec_writesOnly _ instr.fn _ instr out hout).exit he'
    exact ⟨rfl, b, instr, size, hb, hd, hec, h17,
      (Op.exec_framed _ instr.fn _ _ _ hout).err (by rw [he']; nofun)⟩
  · cases hs

/-- From an error of the loop for which `IsExit` holds: the iterations
before it retired, from `vm` to some `vj`, and the next iteration returned
it from its handler. A decode error or a handler error other than the exit
signal is wrapped, and is no exit. -/
theorem runLoop_exit {n : Nat} :
    ∀ (k i : Nat) (vm v : VM) (e : Err), runLoop host n i k vm = .ok (some e, v) → e.isExit = true →
      ∃ j < k, ∃ vj, (∀ m i', runLoop host m i' j vm = .ok (none, vj)) ∧
        vj.step host = .ok (.failed e v)
  | 0, _, _, _, _, h, _ => by cases h
  | k + 1, i, vm, v, e, h, he => by
    obtain ⟨s, hs⟩ := runLoop_step h
    cases s with
    | decodeFailed e' => rw [runLoop_decodeFailed hs] at h; cases h; cases he
    | failed e' w =>
      rw [runLoop_failed hs] at h
      cases h
      by_cases hx : e'.isExit = true
      · rw [if_pos hx] at he ⊢
        exact ⟨0, by omega, vm, fun _ _ => rfl, hs⟩
      · rw [if_neg hx] at he
        cases he
    | retired w =>
      rw [runLoop_retired hs] at h
      obtain ⟨j, hj, vj, hrun, hx⟩ := runLoop_exit k (i + 1) w v e h he
      exact ⟨j + 1, by omega, vj, fun m i' => (runLoop_retired hs).trans (hrun m (i' + 1)), hx⟩

/-! ## Runs -/

/-- **Only a CSR instruction moves a CSR; `RDINSTRET` counts retired
instructions.** For every machine, every `n` and every CSR number `c`: if
no iteration of `vm.Run(n)` decodes a CSR instruction naming `c`, then
whatever `Run` returns (`nil`, the exit signal or an error), `CSR[c]` is
unchanged, except `CSR[RDINSTRET]`, which has advanced by exactly as much
as `Steps` (modulo `2^64`). In particular `RDCYCLE` and `RDTIME` never
move. -/
theorem run_csr_counters (host : Host) (vm : VM) (n : Nat) (c : Fin 2048)
    (hc : ∀ k < n, ∀ vk, vm.run host k = .ok (none, vk) → ¬ vk.NextNamesCsr c)
    (e : Option Err) (v : VM) (h : vm.run host n = .ok (e, v)) :
    v.csr c = if c = RDINSTRET then vm.csr c + (v.steps - vm.steps) else vm.csr c := by
  refine runLoop_inv_of (fun w => ¬ w.NextNamesCsr c) (vm.CsrTracks · c) (fun w s hs hg hw => ?_)
    n 0 vm _ h hc (csrTracks_self vm c)
  have := step_csrTracks hs hg
  change vm.CsrTracks w c at hw
  show vm.CsrTracks (s.machine w) c
  unfold VM.CsrTracks at hw this ⊢
  rw [this, hw]
  split_ifs
  · abel
  · rfl

theorem run_csr_counters_addi :
    addiA0Retired.csr RDINSTRET = if RDINSTRET = RDINSTRET then
      addiA0.csr RDINSTRET + (addiA0Retired.steps - addiA0.steps) else addiA0.csr RDINSTRET := by
  refine run_csr_counters .complete addiA0 1 RDINSTRET ?_ none addiA0Retired rfl
  rintro k hk vk hv ⟨b, instr, size, hb, hd, hi, -⟩
  obtain rfl : k = 0 := by omega
  cases hv
  cases hb
  cases hd
  cases hi

/-- **Only a store writes memory, and only its own bytes.** For every
machine, every `n` and every byte index `j`: if no iteration of `vm.Run(n)`
decodes a store (SB, SH, SW, SD) whose bytes at its effective address cover
`j`, then whatever `Run` returns, byte `j` of memory is what it was. -/
theorem run_mem_frame (host : Host) (vm : VM) (n j : Nat)
    (hj : ∀ k < n, ∀ vk, vm.run host k = .ok (none, vk) → ¬ vk.NextStoresTo j)
    (e : Option Err) (v : VM) (h : vm.run host n = .ok (e, v)) : v.mem.byte j = vm.mem.byte j :=
  runLoop_inv_of (fun w => ¬ w.NextStoresTo j) (fun w => w.mem.byte j = vm.mem.byte j)
    (fun _ _ hs hg hw => (step_byte hs hg).trans hw) n 0 vm _ h hj rfl

/-- `sb x0, 8(x0)` (`0x00000423`) at `PC = 0`, with the byte it clears at
address 8; its `rd` field, `imm[4:0]`, is 8. -/
def sbVM : VM := VM.boot #[0x23, 0x04, 0, 0, 0, 0, 0, 0, 0xAA, 0, 0, 0] (by decide) fun _ => 0

theorem run_mem_frame_sb :
    ∃ v, sbVM.run .complete 1 = .ok (none, v) ∧ v.mem.byte 8 = 0 ∧
      v.mem.byte 0 = sbVM.mem.byte 0 := by
  refine ⟨_, rfl, rfl, run_mem_frame .complete sbVM 1 0 ?_ none _ rfl⟩
  rintro k hk vk hv ⟨b, instr, size, N, hb, hd, hN, hlo, -⟩
  obtain rfl : k = 0 := by omega
  cases hv
  cases hb
  cases hd
  cases hN
  exact absurd hlo (by decide)

/-- `ecall` (`0x00000073`) with `a7 = 0x5D`, the exit call. -/
def exitVM : VM := VM.boot #[0x73, 0x00, 0x00, 0x00] (by decide) fun r => if r = 17 then 0x5D else 0

end RiscvEmu
