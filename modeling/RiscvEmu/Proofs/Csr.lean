import RiscvEmu.Core.Run

/-!
# CSR instructions

The six CSR handlers against the ISA's Zicsr read-modify-write
(`isaCsrWrite`, the spec side). For a CSR number `c` below 2048 every form
writes the old `CSR[c]` to `rd`, also when `rd` is `rs1`, and writes back
the operand (CSRRW, CSRRWI), or the old value with the operand's bits set
(CSRRS, CSRRSI) or cleared (CSRRC, CSRRCI), the last four only for a
non-zero `rs1` field (`csrOps_rmw`). Only `csrrw` with `rd = x0` on
`RDINSTRET` reports a counter write. The operand is `x[rs1]`, or for the
immediate forms `uimm`: the 5-bit `rs1` field sign-extended (`uimm_eq`),
where the ISA zero-extends it. From 2048 on, a CSR number panics
(`Op.exec_panics`).
-/

namespace RiscvEmu

/-! ## The ISA's read-modify-write -/

/-- The value a Zicsr instruction writes back to its CSR, from the old value
and the operand: CSRRW and CSRRWI write the operand, CSRRS and CSRRSI set
its bits, CSRRC and CSRRCI clear them, and these four write nothing when the
`rs1` field is 0. -/
def isaCsrWrite (op : Op) (old operand : BitVec 64) (rs1 : Fin 32) : Option (BitVec 64) :=
  match op with
  | .csrrw | .csrrwi => some operand
  | .csrrs | .csrrsi => if rs1 = 0 then none else some (old ||| operand)
  | .csrrc | .csrrci => if rs1 = 0 then none else some (old &&& ~~~operand)
  | _ => none

/-- The operand a CSR handler reads: `x[rs1]`, and `uimm` for the
immediate forms. -/
def csrOperand (op : Op) (vm : VM) (i : Instruction) : BitVec 64 :=
  match op with
  | .csrrwi | .csrrsi | .csrrci => uimm i
  | _ => vm.reg i.rs1

/-- The machine after a CSR instruction on CSR `c`: the write-back, if
any, and the old value in `rd` (dropped for `x0`). -/
def VM.csrEffect (vm : VM) (c : Fin 2048) (new : Option (BitVec 64)) (rd : Fin 32) : VM :=
  ({ vm with csr := match new with
    | some v => Function.update vm.csr c v
    | none => vm.csr }).store rd (vm.csr c)

/-! ## The handlers -/

section Handlers

variable {vm : VM} {i : Instruction} (hc : i.imm.toNat < 2048)

theorem readCSR_of_lt : vm.readCSR i.imm = .ok (vm.csr ⟨i.imm.toNat, hc⟩) := dif_pos hc

theorem writeCSR_of_lt (v : BitVec 64) :
    vm.writeCSR i.imm v = .ok { vm with csr := Function.update vm.csr ⟨i.imm.toNat, hc⟩ v } :=
  dif_pos hc

theorem store_x0 (vm : VM) (v : BitVec 64) : vm.store 0 v = vm := if_pos rfl

/-- The `csrSet` family reads, writes back `combine old operand` when
`writes` holds, and stores the old value. -/
theorem csrSet_ok (combine : BitVec 64 → BitVec 64 → BitVec 64)
    (operand : VM → Instruction → BitVec 64) (writes : VM → Instruction → Bool) :
    csrSet combine operand writes vm i = .ok ⟨{}, none, vm.csrEffect ⟨i.imm.toNat, hc⟩
      (if writes vm i then some (combine (vm.csr ⟨i.imm.toNat, hc⟩) (operand vm i)) else none)
      i.rd⟩ := by
  unfold csrSet
  rw [readCSR_of_lt hc]
  split <;> simp only [writeCSR_of_lt hc, VM.csrEffect] <;> rfl

end Handlers

/-- The immediate of CSRRWI, CSRRSI and CSRRCI is the 5-bit `rs1` field
sign-extended. -/
theorem uimm_eq (i : Instruction) : uimm i = (BitVec.ofNat 5 i.rs1.val).signExtend 64 := by
  have hr := i.rs1.isLt
  have hand : BitVec.ofNat 64 i.rs1.val &&& 0x1f = BitVec.ofNat 64 i.rs1.val := by
    apply BitVec.eq_of_toNat_eq
    rw [BitVec.toNat_and, show (0x1f : BitVec 64).toNat = 2 ^ 5 - 1 from rfl,
      Nat.and_pow_two_sub_one_eq_mod, BitVec.toNat_ofNat]
    omega
  have h4 : ((4 : Fin 32) : Nat) = 4 := rfl
  rw [uimm, hand, signExtend_eq_signExtend _ 4 (by rw [BitVec.toNat_ofNat, h4]; omega)]
  congr 1
  apply BitVec.eq_of_toNat_eq
  show (BitVec.setWidth 5 (BitVec.ofNat 64 i.rs1.val)).toNat = (BitVec.ofNat 5 i.rs1.val).toNat
  simp only [BitVec.toNat_setWidth, BitVec.toNat_ofNat]
  omega

theorem uimm_eq_zero_iff (i : Instruction) : uimm i = 0 ↔ i.rs1 = 0 := by
  rw [uimm_eq]
  generalize i.rs1 = r
  revert r
  decide

/-- **CSR instructions are the ISA's read-modify-write.** For each of the
six CSR handlers, every machine and every instruction whose CSR number `c`
is below 2048: the handler returns without error the machine whose `CSR[c]`
is `isaCsrWrite` of the old value and the operand (kept when that is
`none`) and whose `rd` holds the old `CSR[c]`, with every other register,
CSR, `PC` and memory kept; it reports a counter write only for `csrrw`
with `rd = x0` on `RDINSTRET`. -/
theorem csrOps_rmw (op : Op) (hop : op ∈ [.csrrw, .csrrs, .csrrc, .csrrwi, .csrrsi, .csrrci])
    (host : Host) (vm : VM) (i : Instruction) (hc : i.imm.toNat < 2048) :
    op.exec host vm i = .ok ⟨if op = .csrrw ∧ i.rd = 0 ∧ i.imm = BitVec.ofNat 64 RDINSTRET
        then { updatedRDINSTRET := true } else {}, none,
      vm.csrEffect ⟨i.imm.toNat, hc⟩
        (isaCsrWrite op (vm.csr ⟨i.imm.toNat, hc⟩) (csrOperand op vm i) i.rs1) i.rd⟩ := by
  simp only [List.mem_cons, List.mem_singleton, List.not_mem_nil, or_false] at hop
  rcases hop with rfl | rfl | rfl | rfl | rfl | rfl
  · -- CSRRW: with `rd = x0` it writes without reading
    show csrrw vm i = _
    unfold csrrw
    by_cases hrd : i.rd = 0
    · rw [if_pos hrd, writeCSR_of_lt hc, hrd]
      by_cases hr : i.imm = BitVec.ofNat 64 RDINSTRET <;>
        simp [hr, VM.csrEffect, store_x0, isaCsrWrite, csrOperand, bind, Except.bind, pure,
          Except.pure]
    · simp [hrd, readCSR_of_lt hc, writeCSR_of_lt hc, VM.csrEffect, isaCsrWrite, csrOperand, bind,
        Except.bind, pure, Except.pure]
  pick_goal 3
  · -- CSRRWI: as CSRRW, with no counter report
    show csrrwi vm i = _
    unfold csrrwi
    by_cases hrd : i.rd = 0
    · rw [if_pos hrd, writeCSR_of_lt hc, hrd]
      simp [VM.csrEffect, store_x0, isaCsrWrite, csrOperand, bind, Except.bind, pure, Except.pure]
    · simp [hrd, readCSR_of_lt hc, writeCSR_of_lt hc, VM.csrEffect, isaCsrWrite, csrOperand, bind,
        Except.bind, pure, Except.pure]
  -- the `csrSet` family: CSRRS, CSRRC, CSRRSI, CSRRCI
  all_goals
    unfold Op.exec
    refine (csrSet_ok hc _ _ _).trans ?_
    simp only [ne_eq, uimm_eq_zero_iff]
    by_cases h0 : i.rs1 = 0 <;> simp [h0, isaCsrWrite, csrOperand]

/-- `csrrs x1, 0x001, x1` on a machine with `x1 = 6` and `CSR[1] = 3`: `rd`
and `rs1` are the same register. -/
def csrVM : VM :=
  { reg := fun r => if r = 1 then 6 else 0, csr := fun c => if c = 1 then 3 else 0, pc := 0,
    steps := 0, mem := ⟨#[], by decide⟩, lastInstr := none, lastPC := 0 }

def csrrsX1 : Instruction := { fn := .csrrs, rd := 1, rs1 := 1, imm := 1 }

theorem csrOps_rmw_csrrs :
    Op.csrrs.exec .complete csrVM csrrsX1 = .ok ⟨{}, none, csrVM.csrEffect 1 (some 7) 1⟩ :=
  (csrOps_rmw .csrrs (by decide) .complete csrVM csrrsX1 (by decide)).trans (by congr)

end RiscvEmu
