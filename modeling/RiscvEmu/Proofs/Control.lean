import RiscvEmu.Proofs.Step

/-!
# Control transfers: JAL, JALR and the branches

The decoder gathers the B-immediate of a BRANCH word bit by bit; `bImm_eq`
shows it is the immediate the ISA lays out (`isaBImm`, the spec side), and
the branch family adds it to `PC` with `signExtend(imm, 12)`, which is sign
extension of those 13 bits. So every decoded branch goes where the ISA says
(`decode_branch_target`).

The two jumps differ from the ISA (`jump_targets`): `jalr` extends its
12-bit immediate from bit 12 instead of bit 11, `jal` extends its 21-bit
immediate from bit 19 instead of bit 20, and `jalr` stores the link before
it reads `rs1`.
-/

namespace RiscvEmu

/-! ## Branches -/


/-- The B-immediate as the ISA lays it out in a word: `imm[12|10:5]` in bits
31..25 and `imm[4:1|11]` in bits 11..7, with `imm[0] = 0`. -/
def isaBImm (w : BitVec 64) : BitVec 13 :=
  (w.extractLsb' 31 1 ++ w.extractLsb' 7 1 ++ w.extractLsb' 25 6 ++ w.extractLsb' 8 4 ++ 0#1).setWidth 13

theorem getLsbD_high {m : Nat} {x : BitVec m} {i n : Nat} (hi : n ≤ i) (hx : x.toNat < 2 ^ n) :
    x.getLsbD i = false :=
  Nat.testBit_lt_two_pow (lt_of_lt_of_le hx (Nat.pow_le_pow_right (by decide) hi))

/-- The decoder's B-type immediate is the ISA's. -/
theorem bImm_eq (w : BitVec 64) :
    (w >>> 19 &&& 0x1000 ||| w <<< 4 &&& 0x800 ||| w >>> 20 &&& 0x7e0 ||| w >>> 7 &&& 0x1e) =
      (isaBImm w).setWidth 64 := by
  ext ⟨i, hi⟩
  rcases Nat.lt_or_ge i 13 with h | h
  · simp only [isaBImm, BitVec.getLsbD_append, BitVec.getLsbD_extractLsb', BitVec.getLsbD_setWidth,
      BitVec.getLsbD_or, BitVec.getLsbD_and, BitVec.getLsbD_ushiftRight, BitVec.getLsbD_shiftLeft]
    interval_cases i <;> simp only [Nat.reduceAdd, Nat.reduceSub, Nat.reduceLT, Nat.cast_ofNat,
      BitVec.ofNat_eq_ofNat, BitVec.reduceGetLsb, BitVec.getLsbD_zero, decide_True, decide_False,
      Bool.true_and, Bool.and_true, Bool.and_false, Bool.false_and, Bool.and_self, Bool.or_self,
      Bool.false_or, Bool.or_false, Bool.not_false, Bool.not_true, cond_true, cond_false]
  · simp (disch := decide) only [BitVec.getLsbD_or, BitVec.getLsbD_and, BitVec.getLsbD_setWidth,
      BitVec.getLsbD_ge (isaBImm w) i h, getLsbD_high h, Bool.and_false, Bool.or_false]

theorem mem_of_lookup {k : Nat} {op : Op} {l : List (Nat × Op)} (h : l.lookup k = some op) :
    (k, op) ∈ l := by
  obtain ⟨l₁, l₂, rfl, -⟩ := List.lookup_eq_some_iff.mp h
  simp

/-- The low five bits of a key are the base opcode. -/
theorem rviKey_mod (w : BitVec 64) : (rviKey 0 w).toNat % 32 = (w >>> 2 &&& 0x1f).toNat := by
  have hlow : (rviKey 0 w).setWidth 5 = (w >>> 2 &&& 0x1f).setWidth 5 := by
    ext ⟨i, hi⟩
    simp only [rviKey, BitVec.getLsbD_setWidth, BitVec.getLsbD_or, BitVec.getLsbD_and,
      BitVec.getLsbD_ushiftRight]
    interval_cases i <;> simp
  have hlt : (w >>> 2 &&& 0x1f).toNat < 2 ^ 5 := by
    rw [BitVec.toNat_and]; exact Nat.and_lt_two_pow _ (by simp)
  have := congrArg BitVec.toNat hlow
  rw [BitVec.toNat_setWidth, BitVec.toNat_setWidth, Nat.mod_eq_of_lt hlt] at this
  exact this

/-- The table's entries whose key has base opcode BRANCH are the six branches. -/
theorem branch_entries : ∀ e ∈ rvi64Instructions, e.1 % 32 = 0x18 →
    e.2 ∈ [.beq, .bne, .blt, .bge, .bltu, .bgeu] := by
  decide


theorem decodeRvi_branch {pc w : BitVec 64} {i : Instruction} {size : Nat}
    (hop : (w >>> 2 &&& 0x1f).toNat = 0x18) (h : decodeRvi pc w = .ok (.ok (i, size))) :
    i.imm = (isaBImm w).setWidth 64 ∧ i.fn ∈ [.beq, .bne, .blt, .bge, .bltu, .bgeu] := by
  unfold decodeRvi at h
  simp only [hop] at h
  obtain ⟨x, hx, h⟩ := bind_eq_ok.mp h
  unfold rvi64At at hx
  rw [if_pos (rviKey_zero_lt w)] at hx
  cases hx
  split at h
  · cases h
  · rename_i fn hfn
    cases h
    exact ⟨bImm_eq w, branch_entries _ (mem_of_lookup hfn) (by rw [rviKey_mod, hop])⟩


/-- A branch jumps by `signExtend(imm, 12)` exactly when its comparison holds. -/
theorem branch_ok (c : BitVec 64 → BitVec 64 → Bool) (vm : VM) (i : Instruction) :
    ∃ out, branch c vm i = .ok out ∧ out.flags.updatedPC = c (vm.reg i.rs1) (vm.reg i.rs2) ∧
      out.vm.pc = if c (vm.reg i.rs1) (vm.reg i.rs2) then vm.pc + signExtend i.imm 12 else vm.pc := by
  unfold branch
  split <;> exact ⟨_, rfl, by simp [*], by simp [*]⟩

theorem Op.exec_branch {op : Op} (h : op ∈ [.beq, .bne, .blt, .bge, .bltu, .bgeu]) (host : Host)
    (vm : VM) (i : Instruction) :
    ∃ out, op.exec host vm i = .ok out ∧ out.flags.updatedPC = op.taken vm i ∧
      out.vm.pc = if op.taken vm i then vm.pc + signExtend i.imm 12 else vm.pc := by
  simp only [List.mem_cons, List.mem_singleton, List.not_mem_nil, or_false] at h
  rcases h with rfl | rfl | rfl | rfl | rfl | rfl
  · exact branch_ok _ vm i
  · exact branch_ok _ vm i
  · exact branch_ok _ vm i
  · exact branch_ok (fun a b => b.sle a) vm i
  · exact branch_ok _ vm i
  · exact branch_ok (fun a b => b.ule a) vm i

/-- **Decoded branches go where the ISA says.** For every buffer holding a
BRANCH word that `Decode` accepts, and every machine: the handler is one of
the six branches, it reports `updatedPC` exactly when its comparison holds
(signed for BLT/BGE, unsigned for BLTU/BGEU), and it sets `PC` to
`PC + sext13(B-immediate)` then, and leaves it otherwise. -/
theorem decode_branch_target (host : Host) (vm : VM) (pc : BitVec 64) (b : Array (BitVec 8)) (i : Instruction)
    (hb : b.getD 0 0 &&& 3 = 3) (hop : (wordOf b >>> 2 &&& 0x1f).toNat = 0x18)
    (h : decode pc b = .ok (.ok (i, 4))) :
    i.fn ∈ [.beq, .bne, .blt, .bge, .bltu, .bgeu] ∧ ∃ out, i.fn.exec host vm i = .ok out ∧
      out.flags.updatedPC = i.fn.taken vm i ∧
      out.vm.pc = if i.fn.taken vm i then vm.pc + (isaBImm (wordOf b)).signExtend 64 else vm.pc := by
  rcases decode_eq_decodeRvi pc b hb with ⟨e, he⟩ | he
  · cases he.symm.trans h
  obtain ⟨himm, hfn⟩ := decodeRvi_branch hop (he ▸ h)
  have hsx : signExtend i.imm 12 = (isaBImm (wordOf b)).signExtend 64 :=
    himm ▸ signExtend_setWidth 12 (isaBImm (wordOf b))
  obtain ⟨out, hout, hu, hpc⟩ := Op.exec_branch hfn host vm i
  exact ⟨hfn, out, hout, hu, hsx ▸ hpc⟩

/-- A zeroed machine, and `beq x1, x2, 8` (`0x00208463`) as `Decode`
returns it. -/
def branchMachine : VM := VM.boot #[] (by decide) fun _ => 0

def beqX1X2 : Instruction := { fn := .beq, rs1 := 1, rs2 := 2, rd := 8, imm := 8 }

theorem decode_branch_target_beq :
    ∃ out, Op.beq.exec .complete branchMachine beqX1X2 = .ok out ∧
      out.vm.pc = if Op.beq.taken branchMachine beqX1X2
        then branchMachine.pc + (isaBImm (wordOf #[0x63, 0x84, 0x20, 0x00])).signExtend 64
        else branchMachine.pc :=
  let ⟨_, out, hout, _, hpc⟩ := decode_branch_target .complete branchMachine 0 #[0x63, 0x84, 0x20, 0x00]
    beqX1X2 (by decide) (by decide) rfl
  ⟨out, hout, hpc⟩

/-! ## Jumps -/

/-- **Where JAL and JALR land.** (a) `jalr x0, -4(x1)` (`0xFFC08067`):
the immediate `0xFFC` is extended from bit 12, which is clear, so the target
is `x1 + 0xFFC` where the ISA has `x1 - 4`. (b) `jal x0, 0x80000`
(`0x0008006F`): bit 19 of the offset is taken for its sign, so the target
is `PC - 0x80000` where the ISA has `PC + 0x80000`. (c) `jalr x1, 0(x1)`
(`0x000080E7`): the link `PC + 4` is written to `x1` first, so the target
is `PC + 4` whatever `x1` held. -/
theorem jump_targets :
    (decode 0 #[0x67, 0x80, 0xC0, 0xFF] =
        .ok (.ok ({ fn := .jalr, rs1 := 1, rs2 := 28, imm := 0xFFC }, 4)) ∧
      ∀ vm, (jalr vm { fn := .jalr, rs1 := 1, rs2 := 28, imm := 0xFFC }).map (·.vm.pc) =
        .ok ((0xFFC + vm.reg 1) &&& ~~~1)) ∧
    (decode 0 #[0x6F, 0x00, 0x08, 0x00] =
        .ok (.ok ({ fn := .jal, rs1 := 16, imm := 0x80000 }, 4)) ∧
      ∀ vm, (jal vm { fn := .jal, rs1 := 16, imm := 0x80000 }).map (·.vm.pc) =
        .ok (vm.pc - 0x80000)) ∧
    (decode 0 #[0xE7, 0x80, 0x00, 0x00] = .ok (.ok ({ fn := .jalr, rs1 := 1, rd := 1 }, 4)) ∧
      ∀ vm, (jalr vm { fn := .jalr, rs1 := 1, rd := 1 }).map (·.vm.pc) =
        .ok ((vm.pc + 4) &&& ~~~1)) := by
  refine ⟨⟨rfl, fun vm => rfl⟩, ⟨rfl, fun vm => ?_⟩, ⟨rfl, fun vm => ?_⟩⟩
  · show Except.ok (signExtend 0x80000 19 + vm.pc) = _
    rw [show signExtend 0x80000 19 = -0x80000 from rfl]
    exact congrArg Except.ok (by bv_omega)
  · show Except.ok ((signExtend 0 12 + (vm.store 1 (vm.pc + 4)).reg 1) &&& ~~~1) = _
    rw [store_reg, if_pos ⟨rfl, by decide⟩, show signExtend 0 12 = 0#64 from rfl,
      BitVec.zero_add]

end RiscvEmu
