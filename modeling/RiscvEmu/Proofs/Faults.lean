import RiscvEmu.Proofs.Memory

/-!
# Runtime faults of the handlers

`Op.panics` lists, handler by handler, the Go runtime panics its body can
raise and when: an index or a slice of `vm.Mem` outside its length, a CSR
index past the 2048 entries of `vm.CSR`, the `int32` remainder by zero of
`remw`/`remuw`, and the `panic` calls of the two secondary dispatchers.
Every other handler never panics. `Op.exec_panics` proves the list complete,
one lemma per family as in `Frame.lean`, and `Op.exec_cases` joins it to the
frame: a handler panics as listed or returns inside its frame.
`ecall_write` says when the slice of the `write` call panics, and that it
otherwise stores to `a0` the count the host's write returns.

Three of the entries are reachable from words `Decode` accepts
(`decoded_handler_faults`): a 12-bit CSR number past `0x7FF`, a `remw`
divisor whose low 32 bits are zero but not the rest, and every SRAI.
-/

namespace RiscvEmu

/-- A guest memory access outside a memory of length `len`: an index at or
past its end, or a slice whose bounds it does not hold. -/
def Panic.outsideMem (len : Nat) : Panic → Prop
  | .indexOutOfRange a l => l = len ∧ len ≤ a
  | .sliceBounds lo hi l => l = len ∧ ¬(0 ≤ lo ∧ lo ≤ hi ∧ hi ≤ len)
  | _ => False

/-- The index expression `vm.CSR[x]` past the 2048 entries. -/
def Panic.csrIndex (x : BitVec 64) (p : Panic) : Prop :=
  2048 ≤ x.toNat ∧ p = .indexOutOfRange x.toNat 2048

/-- The panics the body of each handler can raise. -/
def Op.panics (op : Op) (vm : VM) (i : Instruction) (p : Panic) : Prop :=
  match op with
  | .lb | .lh | .lw | .lbu | .lhu | .lwu | .ld | .sb | .sh | .sw | .sd | .ecall =>
    p.outsideMem vm.mem.len
  | .csrrw | .csrrs | .csrrc | .csrrwi | .csrrsi | .csrrci => p.csrIndex i.imm
  | .remw | .remuw => vm.reg i.rs2 ≠ 0 ∧ (vm.reg i.rs2).setWidth 32 = 0 ∧ p = .divideByZero
  | .shiftRight => i.imm &&& 0xFC00 ≠ 0 ∧ i.imm &&& 0xFC00 ≠ 0x10 ∧ p = .msg "invalid instruction"
  | .ecallOrBreak =>
    (i.imm >>> 12 = 0 ∧ p.outsideMem vm.mem.len) ∨
      (i.imm >>> 12 ≠ 0 ∧ i.imm >>> 12 ≠ 1 ∧ p = .msg "unrecognized instruction")
  | _ => False

/-! ## Memory and CSR accesses -/

theorem Mem.get_panic {m : Mem} {a : BitVec 64} {p : Panic} (h : m.get a = .error p) :
    p.outsideMem m.len := by
  unfold Mem.get at h
  split at h
  · cases h
  · cases h; exact ⟨rfl, Nat.le_of_not_lt ‹_›⟩

theorem Mem.set_panic {m : Mem} {a : BitVec 64} {b : BitVec 8} {p : Panic}
    (h : m.set a b = .error p) : p.outsideMem m.len := by
  unfold Mem.set at h
  split at h
  · cases h
  · cases h; exact ⟨rfl, Nat.le_of_not_lt ‹_›⟩

theorem readLE_panic {m : Mem} {a : BitVec 64} {p : Panic} :
    ∀ k, readLE m a k = .error p → p.outsideMem m.len
  | 0, h => by cases h
  | k + 1, h => by
    rcases bind_eq_error.mp h with h | ⟨_, -, h⟩
    · exact readLE_panic k h
    rcases bind_eq_error.mp h with h | ⟨_, -, h⟩
    · exact Mem.get_panic h
    · cases h

theorem writeLE_panic {m : Mem} {a v : BitVec 64} {p : Panic} :
    ∀ k, writeLE m a v k = .error p → p.outsideMem m.len
  | 0, h => by cases h
  | k + 1, h => by
    rcases bind_eq_error.mp h with h | ⟨m1, h1, h⟩
    · exact writeLE_panic k h
    · exact writeLE_len k h1 ▸ Mem.set_panic h

theorem readCSR_panic {vm : VM} {x : BitVec 64} {p : Panic} (h : vm.readCSR x = .error p) :
    p.csrIndex x := by
  unfold VM.readCSR at h
  split at h
  · cases h
  · cases h; exact ⟨Nat.le_of_not_lt ‹_›, rfl⟩

theorem writeCSR_panic {vm : VM} {x v : BitVec 64} {p : Panic} (h : vm.writeCSR x v = .error p) :
    p.csrIndex x := by
  unfold VM.writeCSR at h
  split at h
  · cases h
  · cases h; exact ⟨Nat.le_of_not_lt ‹_›, rfl⟩

/-! ## The handlers -/

/-- Handler `h` raises only the panics `P vm in` allows. -/
def Handler.PanicsOnly (h : Handler) (P : VM → Instruction → Panic → Prop) : Prop :=
  ∀ vm i p, h vm i = .error p → P vm i p

/-- A handler that returns on every machine never panics. -/
theorem Handler.panicsOnly_of_ok (h : Handler) (hok : ∀ vm i, ∃ r, h vm i = .ok r) :
    h.PanicsOnly fun _ _ _ => False := by
  intro vm i p hp
  obtain ⟨r, hr⟩ := hok vm i
  cases hr.symm.trans hp

theorem load_panics (N : Nat) (ext : BitVec 64 → BitVec 64) :
    (load N ext).PanicsOnly fun vm _ p => p.outsideMem vm.mem.len := by
  intro vm i p h
  rcases bind_eq_error.mp h with h | ⟨_, -, h⟩
  · exact readLE_panic N h
  · cases h

theorem storeBytes_panics (N : Nat) :
    (storeBytes N).PanicsOnly fun vm _ p => p.outsideMem vm.mem.len := by
  intro vm i p h
  rcases bind_eq_error.mp h with h | ⟨_, -, h⟩
  · exact writeLE_panic N h
  · cases h

theorem csrSet_panics (combine : BitVec 64 → BitVec 64 → BitVec 64)
    (operand : VM → Instruction → BitVec 64) (writes : VM → Instruction → Bool) :
    (csrSet combine operand writes).PanicsOnly fun _ i p => p.csrIndex i.imm := by
  intro vm i p h
  rcases bind_eq_error.mp h with h | ⟨_, -, h⟩
  · exact readCSR_panic h
  dsimp only at h
  split at h <;> rcases bind_eq_error.mp h with h | ⟨_, -, h⟩
  · exact writeCSR_panic h
  · cases h
  · cases h
  · cases h

theorem csrrw_panics : csrrw.PanicsOnly fun _ i p => p.csrIndex i.imm := by
  intro vm i p h
  unfold csrrw at h
  split at h
  · rcases bind_eq_error.mp h with h | ⟨_, -, h⟩
    · exact writeCSR_panic h
    · split at h <;> cases h
  · rcases bind_eq_error.mp h with h | ⟨_, -, h⟩
    · exact readCSR_panic h
    rcases bind_eq_error.mp h with h | ⟨_, -, h⟩
    · exact writeCSR_panic h
    · cases h

theorem csrrwi_panics : csrrwi.PanicsOnly fun _ i p => p.csrIndex i.imm := by
  intro vm i p h
  unfold csrrwi at h
  split at h
  · rcases bind_eq_error.mp h with h | ⟨_, -, h⟩
    · exact writeCSR_panic h
    · cases h
  · rcases bind_eq_error.mp h with h | ⟨_, -, h⟩
    · exact readCSR_panic h
    rcases bind_eq_error.mp h with h | ⟨_, -, h⟩
    · exact writeCSR_panic h
    · cases h

theorem remw_panics : remw.PanicsOnly fun vm i p =>
    vm.reg i.rs2 ≠ 0 ∧ (vm.reg i.rs2).setWidth 32 = 0 ∧ p = .divideByZero := by
  intro vm i p h
  unfold remw at h
  split_ifs at h with h0 h32 <;> cases h
  exact ⟨h0, h32, rfl⟩

theorem remuw_panics : remuw.PanicsOnly fun vm i p =>
    vm.reg i.rs2 ≠ 0 ∧ (vm.reg i.rs2).setWidth 32 = 0 ∧ p = .divideByZero := by
  intro vm i p h
  unfold remuw at h
  split_ifs at h with h0 h32 <;> cases h
  exact ⟨h0, h32, rfl⟩

theorem shiftRight_panics : shiftRight.PanicsOnly fun _ i p =>
    i.imm &&& 0xFC00 ≠ 0 ∧ i.imm &&& 0xFC00 ≠ 0x10 ∧ p = .msg "invalid instruction" := by
  intro vm i p h
  unfold shiftRight srli srai writeRd at h
  split_ifs at h with h0 h10 <;> cases h
  exact ⟨h0, h10, rfl⟩

theorem ecall_panics (host : Host) : (ecall host).PanicsOnly fun vm _ p => p.outsideMem vm.mem.len := by
  intro vm i p h
  unfold ecall at h
  dsimp only at h
  split_ifs at h with h5d h40 hfd hsl <;> cases h
  exact ⟨rfl, hsl⟩

theorem ecallOrBreak_panics (host : Host) : (ecallOrBreak host).PanicsOnly fun vm i p =>
    (i.imm >>> 12 = 0 ∧ p.outsideMem vm.mem.len) ∨
      (i.imm >>> 12 ≠ 0 ∧ i.imm >>> 12 ≠ 1 ∧ p = .msg "unrecognized instruction") := by
  intro vm i p h
  unfold ecallOrBreak ebreak at h
  split_ifs at h with h0 h1
  · exact .inl ⟨h0, ecall_panics host vm i p h⟩
  · cases h
  · cases h; exact .inr ⟨h0, h1, rfl⟩

theorem writeRd_panics (f : VM → Instruction → BitVec 64) :
    (writeRd f).PanicsOnly fun _ _ _ => False :=
  Handler.panicsOnly_of_ok _ fun _ _ => ⟨_, rfl⟩

theorem branch_panics (c : BitVec 64 → BitVec 64 → Bool) :
    (branch c).PanicsOnly fun _ _ _ => False :=
  Handler.panicsOnly_of_ok _ fun vm i => by unfold branch; split <;> exact ⟨_, rfl⟩

/-- **The panics of every handler**: a handler that panics raises one of
the panics `Op.panics` lists for it, under its condition; the arithmetic,
branch, jump and fence handlers never panic. -/
theorem Op.exec_panics (host : Host) : ∀ op : Op, (op.exec host).PanicsOnly op.panics
  | .lui | .auipc | .addi | .slti | .sltiu | .xori | .ori | .andi | .add | .sub | .sll | .slt
  | .sltu | .xor | .srl | .sra | .or | .and | .slli | .srli | .srai | .addiw | .slliw | .srliw
  | .sraiw | .addw | .subw | .sllw | .srlw | .sraw | .mul | .mulh | .mulhsu | .mulhu | .mulw
  | .div | .divu | .divw | .divuw | .rem | .remu => writeRd_panics _
  | .beq | .bne | .blt | .bltu => branch_panics _
  | .bge => branch_panics fun a b => b.sle a
  | .bgeu => branch_panics fun a b => b.ule a
  | .lb | .lh | .lw | .lbu | .lhu | .lwu | .ld => load_panics _ _
  | .sb | .sh | .sw | .sd => storeBytes_panics _
  | .csrrs | .csrrc | .csrrsi | .csrrci => csrSet_panics _ _ _
  | .fence | .fenceI | .ebreak | .jal | .jalr | .rvcJAL | .rvcJALR =>
    Handler.panicsOnly_of_ok _ fun _ _ => ⟨_, rfl⟩
  | .ecall => ecall_panics host
  | .ecallOrBreak => ecallOrBreak_panics host
  | .shiftRight => shiftRight_panics
  | .csrrw => csrrw_panics
  | .csrrwi => csrrwi_panics
  | .remw => remw_panics
  | .remuw => remuw_panics

/-- **What a handler can do**: every one of the 78 handlers, on every
host, machine and instruction, either panics with a panic `Op.panics`
lists for it, or returns an outcome inside its frame: `x0`, `Steps`,
`LastPC`, `LastInstr` and the length of memory kept, `updatedPC` exactly
for a taken control transfer and `PC` kept otherwise, and an error only
with the machine it was given. -/
theorem Op.exec_cases (op : Op) (host : Host) (vm : VM) (i : Instruction) :
    (∃ p, op.exec host vm i = .error p ∧ op.panics vm i p) ∨
      ∃ r, op.exec host vm i = .ok r ∧ Frame (op.taken vm i) vm r := by
  cases h : op.exec host vm i with
  | error p => exact .inl ⟨p, rfl, Op.exec_panics host op vm i p h⟩
  | ok r => exact .inr ⟨r, rfl, Op.exec_framed host op vm i r h⟩

/-! ## The `write` call

`ecall` with `a7 = 0x40` slices `vm.Mem[buf:buf+n]` with `buf = int(a1)`
and the `int` sum `buf+n`, which wraps as the 64-bit sum of `a1` and `a2`
does. -/

/-- The slice bounds of `write` hold exactly when `a1 + a2`, summed as
naturals, is at most the memory length: a negative `int(a1)` and a wrapped
sum both fail. -/
theorem writeBounds_iff (a n : BitVec 64) {len : Nat} (hlen : len < 2 ^ 63) :
    (0 ≤ a.toInt ∧ a.toInt ≤ (a + n).toInt ∧ (a + n).toInt ≤ len) ↔ a.toNat + n.toNat ≤ len := by
  have := a.isLt
  have := n.isLt
  rw [BitVec.toInt_eq_toNat_cond, BitVec.toInt_eq_toNat_cond, BitVec.toNat_add]
  split_ifs <;> omega

/-- Inside the bounds, `int(a1)` and `int(a1 + a2)` are the naturals
`a1` and `a1 + a2`. -/
theorem writeBounds_toInt {a n : BitVec 64} {len : Nat} (hlen : len < 2 ^ 63)
    (h : a.toNat + n.toNat ≤ len) : a.toInt = a.toNat ∧ (a + n).toInt = a.toNat + n.toNat := by
  rw [BitVec.toInt_eq_toNat_cond, BitVec.toInt_eq_toNat_cond, BitVec.toNat_add]
  constructor <;> split_ifs <;> omega

/-- **`write` stores the host's count, or panics.** For every host and every
machine with `a7 = 0x40` and `a0` naming stdout or stderr: if the buffer
`[a1, a1 + a2)` lies in memory, `ecall` returns with `a0` set to the count
the host's write of those bytes returns, which is at most `a2`, and nothing
else changed; otherwise it panics on the slice bounds. -/
theorem ecall_write (host : Host) (vm : VM) (i : Instruction) (hcall : vm.reg 17 = 0x40)
    (hfd : vm.reg 10 = 1 ∨ vm.reg 10 = 2) :
    let a := (vm.reg 11).toNat
    let n := (vm.reg 12).toNat
    let count := host.write (vm.reg 10) (vm.mem.bytes.extract a (a + n))
    (a + n ≤ vm.mem.len →
        count ≤ n ∧ ecall host vm i = .ok ⟨{}, none, vm.store 10 (BitVec.ofNat 64 count)⟩) ∧
      (vm.mem.len < a + n → ∃ lo hi, ecall host vm i = .error (.sliceBounds lo hi vm.mem.len)) := by
  intro a n count
  have hb := writeBounds_iff (vm.reg 11) (vm.reg 12) vm.mem.len_lt
  unfold ecall
  simp only [regNums_a7, regNums_a0, regNums_a1, regNums_a2, hcall, if_pos hfd,
    if_neg (show (0x40 : BitVec 64) ≠ 0x5D by decide), if_true]
  constructor
  · intro h
    obtain ⟨h₁, h₂⟩ := writeBounds_toInt vm.mem.len_lt h
    have hsize := host.write_le (vm.reg 10) (vm.mem.bytes.extract a (a + n))
    rw [Array.size_extract] at hsize
    refine ⟨by unfold Mem.len at h; omega, ?_⟩
    rw [if_pos (hb.mpr h), h₁, h₂]
    rfl
  · intro h
    rw [if_neg (mt hb.mp (by omega))]
    exact ⟨_, _, rfl⟩

/-- A `write(1, 0, 2)` of the two bytes of memory. -/
def writeVM : VM :=
  VM.boot #[0x68, 0x69] (by decide) fun r => if r = 17 then 0x40 else if r = 10 then 1 else
    if r = 12 then 2 else 0

theorem ecall_write_all :
    ecall .complete writeVM { fn := .ecallOrBreak } = .ok ⟨{}, none, writeVM.store 10 2⟩ :=
  ((ecall_write .complete writeVM _ rfl (.inl rfl)).1 (by decide)).2

/-! ## Faults reachable from decoded words -/

/-- **Three faults reachable from `Decode`.** (a) `csrrs x1, 0x800, x0`
(`0x800020F3`) carries a 12-bit CSR number past the 2048 entries of
`vm.CSR`, and panics on every machine. (b) `remw x1, x2, x3`
(`0x023160BB`) with `x3 = 2^32` passes the 64-bit zero test and then
divides by `int32(x3) = 0`. (c) `srai x1, x1, 1` (`0x4010D093`) reaches
`shiftRight` with `imm & 0xFC00 = 0x400`, and panics on every machine. -/
theorem decoded_handler_faults :
    decode 0 #[0xF3, 0x20, 0x00, 0x80] = .ok (.ok ({ fn := .csrrs, rd := 1, imm := 0x800 }, 4)) ∧
      (∀ vm, csrrs vm { fn := .csrrs, rd := 1, imm := 0x800 } =
        .error (.indexOutOfRange 2048 2048)) ∧
      decode 0 #[0xBB, 0x60, 0x31, 0x02] =
        .ok (.ok ({ fn := .remw, rd := 1, rs1 := 2, rs2 := 3 }, 4)) ∧
      remw (VM.boot #[] (by decide) fun r => if r = 3 then 0x100000000 else 0)
        { fn := .remw, rd := 1, rs1 := 2, rs2 := 3 } = .error .divideByZero ∧
      decode 0 #[0x93, 0xD0, 0x10, 0x40] =
        .ok (.ok ({ fn := .shiftRight, rd := 1, rs1 := 1, rs2 := 1, imm := 0x401 }, 4)) ∧
      ∀ vm, shiftRight vm { fn := .shiftRight, rd := 1, rs1 := 1, rs2 := 1, imm := 0x401 } =
        .error (.msg "invalid instruction") :=
  ⟨rfl, fun _ => rfl, rfl, rfl, rfl, fun _ => rfl⟩

end RiscvEmu
