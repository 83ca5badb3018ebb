import RiscvEmu.Proofs.Encoding

/-!
# `PC`: the fetch, and 2-byte alignment

Each iteration of `Run` slices `vm.Mem[PC:end]` with `end := int(PC + 4)`
clamped to `len(vm.Mem)`. `fetch_ok_iff` says when that slice exists: for
`PC` at most `len(vm.Mem)` and `PC + 4` below `2^63`; past `2^63` the
conversion to `int` turns the end negative, and the slice panics even for a
`PC` inside memory.

Every instruction the emulator decodes is 2 or 4 bytes long, and every
target it jumps to is even, so a run that starts on an even `PC` never
leaves the even addresses:

* an instruction that does not jump advances `PC` by its size, 2 or 4
  (`decode_ok_cases`);
* `jalr`, C.JR and C.JALR clear bit 0 of their target (`&^ 1`);
* `jal`, C.J and the branches add their immediate to `PC`, and both
  decoders build every such immediate with bit 0 clear (`decode_imm_even`).

`Op.exec_pc` says once, for all 78 handlers, where a handler leaves `PC`;
`step_pc_even` is the step lemma and `run_pc_even` lifts it to `Run`.
-/

namespace RiscvEmu

/-! ## The fetch -/

/-- `int(PC + 4)`: the sum itself below `2^63`, and less than `PC` from
there on (negative, or wrapped past `2^64`). -/
theorem toInt_add_four (pc : BitVec 64) :
    (pc.toNat + 4 < 2 ^ 63 → (pc + 4).toInt = pc.toNat + 4) ∧
      (2 ^ 63 ≤ pc.toNat + 4 → (pc + 4).toInt < pc.toNat) := by
  have := pc.isLt
  rw [BitVec.toInt_eq_toNat_cond, BitVec.toNat_add, show (4 : BitVec 64).toNat = 4 from rfl]
  constructor <;> intro h <;> split_ifs <;> omega

/-- The fetch: the slice `vm.Mem[PC : min(PC + 4, len)]` when `PC` is at
most `len(vm.Mem)` and `int(PC + 4)` is the sum, and a slice-bounds panic
otherwise. -/
theorem fetch_cases (vm : VM) :
    (vm.pc.toNat ≤ vm.mem.len ∧ vm.pc.toNat + 4 < 2 ^ 63 ∧
      vm.fetch = .ok (vm.mem.bytes.extract vm.pc.toNat (min (vm.pc.toNat + 4) vm.mem.len))) ∨
    (¬ (vm.pc.toNat ≤ vm.mem.len ∧ vm.pc.toNat + 4 < 2 ^ 63) ∧
      ∃ e, vm.fetch = .error (.sliceBounds vm.pc.toNat e vm.mem.len)) := by
  obtain ⟨hlo, hhi⟩ := toInt_add_four vm.pc
  unfold VM.fetch
  dsimp only
  by_cases hs : vm.pc.toNat + 4 < 2 ^ 63
  · -- `int(PC + 4)` is the sum, and the end is `min(PC + 4, len)`
    rw [hlo hs]
    have hend : (if (vm.pc.toNat : Int) + 4 > vm.mem.len then (vm.mem.len : Int)
        else vm.pc.toNat + 4) = ((min (vm.pc.toNat + 4) vm.mem.len : Nat) : Int) := by
      split_ifs <;> omega
    rw [hend]
    by_cases h : vm.pc.toNat ≤ vm.mem.len
    · exact .inl ⟨h, hs, by rw [if_pos (by omega), Int.toNat_natCast]; rfl⟩
    · exact .inr ⟨fun h' => h h'.1, _, if_neg (by omega)⟩
  · -- `int(PC + 4)` is below `PC`, and so is the end
    have hlt := hhi (by omega)
    refine .inr ⟨fun h' => hs h'.2, ?_⟩
    split_ifs <;> first | omega | exact ⟨_, rfl⟩

/-- **What an iteration fetches**: the slice `vm.Mem[PC:end]` exists
exactly when `PC ≤ len(vm.Mem)` and `PC + 4 < 2^63`, and then holds the
bytes from `PC` up to `PC + 4`, cut at the end of memory; for every other
`PC` the fetch panics. -/
theorem fetch_ok_iff (vm : VM) (b : Array (BitVec 8)) :
    vm.fetch = .ok b ↔ vm.pc.toNat ≤ vm.mem.len ∧ vm.pc.toNat + 4 < 2 ^ 63 ∧
      b = vm.mem.bytes.extract vm.pc.toNat (min (vm.pc.toNat + 4) vm.mem.len) := by
  rcases fetch_cases vm with ⟨h1, h2, hf⟩ | ⟨hn, e, hf⟩
  · rw [hf, Except.ok.injEq, eq_comm]
    exact ⟨fun h => ⟨h1, h2, h⟩, fun h => h.2.2⟩
  · rw [hf]
    exact ⟨nofun, fun h => absurd ⟨h.1, h.2.1⟩ hn⟩

/-! ## Where a handler leaves `PC` -/

/-- Where a control transfer goes: the value each jump handler writes to
`PC`, and `PC + signExtend(imm, 12)` for the branches (and, never read, for
every other handler). -/
def Op.target (op : Op) (vm : VM) (i : Instruction) : BitVec 64 :=
  match op with
  | .jal => signExtend i.imm 19 + vm.pc
  | .jalr => (signExtend i.imm 12 + (vm.store i.rd (vm.pc + 4)).reg i.rs1) &&& ~~~1
  | .rvcJAL => i.imm + vm.pc
  | .rvcJALR => (i.imm + (vm.store i.rd (vm.pc + 2)).reg i.rs1) &&& ~~~1
  | _ => vm.pc + signExtend i.imm 12

/-- The control transfers whose target is `PC` plus the decoded immediate. -/
def Op.pcRelative : Op → Bool
  | .jal | .rvcJAL | .beq | .bne | .blt | .bge | .bltu | .bgeu => true
  | _ => false

/-- **Where a handler leaves `PC`**: at its target when it makes a control
transfer, where it was otherwise. -/
theorem Op.exec_pc (op : Op) {host : Host} {vm : VM} {i : Instruction} {r : Outcome}
    (h : op.exec host vm i = .ok r) : r.vm.pc = if op.taken vm i then op.target vm i else vm.pc := by
  rcases em (op ∈ [.beq, .bne, .blt, .bge, .bltu, .bgeu]) with hb | hb
  · obtain ⟨out, hout, -, hpc⟩ := Op.exec_branch hb host vm i
    cases h.symm.trans hout
    simp only [List.mem_cons, List.mem_singleton, List.not_mem_nil, or_false] at hb
    rcases hb with rfl | rfl | rfl | rfl | rfl | rfl <;> exact hpc
  cases op
  case jal | jalr | rvcJAL | rvcJALR => cases h; simp [Op.taken, Op.target]
  case beq | bne | blt | bge | bltu | bgeu => simp at hb
  all_goals exact (Op.exec_framed _ _ vm i r h).pc rfl

/-! ## Even addresses -/

theorem even_iff_getLsbD (x : BitVec 64) : x.toNat % 2 = 0 ↔ x.getLsbD 0 = false := by
  simp [BitVec.getLsbD, Nat.testBit_zero]

theorem even_add {a b : BitVec 64} (ha : a.toNat % 2 = 0) (hb : b.toNat % 2 = 0) :
    (a + b).toNat % 2 = 0 := by
  rw [BitVec.toNat_add]; omega

theorem even_and_not_one (x : BitVec 64) : (x &&& ~~~1).toNat % 2 = 0 := by
  rw [even_iff_getLsbD]; simp

theorem signExtend_getLsbD_zero (v : BitVec 64) (bit : Fin 32) :
    (signExtend v bit).getLsbD 0 = v.getLsbD 0 := by
  rw [signExtend_getLsbD]
  by_cases h0 : bit.val = 0 <;> simp [h0]

theorem even_signExtend {v : BitVec 64} (bit : Fin 32) (hv : v.getLsbD 0 = false) :
    (signExtend v bit).toNat % 2 = 0 := by
  rw [even_iff_getLsbD, signExtend_getLsbD_zero, hv]

/-- Every target is even, given an even `PC` and, for the PC-relative
transfers, an even immediate. -/
theorem Op.target_even (op : Op) {vm : VM} {i : Instruction} (ht : op.taken vm i = true)
    (hpc : vm.pc.toNat % 2 = 0) (himm : op.pcRelative = true → i.imm.getLsbD 0 = false) :
    (op.target vm i).toNat % 2 = 0 := by
  cases op
  case jal => exact even_add (even_signExtend 19 (himm rfl)) hpc
  case rvcJAL => exact even_add ((even_iff_getLsbD _).mpr (himm rfl)) hpc
  case jalr | rvcJALR => exact even_and_not_one _
  case beq | bne | blt | bge | bltu | bgeu => exact even_add hpc (even_signExtend 12 (himm rfl))
  all_goals cases ht

/-! ## The decoders' PC-relative immediates -/

/-- The table keys a PC-relative handler only under base opcode BRANCH or JAL. -/
theorem pcRelative_entries : ∀ e ∈ rvi64Instructions, e.2.pcRelative = true →
    e.1 % 32 = 0x18 ∨ e.1 % 32 = 0x1b := by
  decide

theorem rvi64At_pcRelative {w : BitVec 64} {fn : Op} (hk : rvi64At (rviKey 0 w) = .ok (some fn))
    (hrel : fn.pcRelative = true) :
    (w >>> 2 &&& 0x1f).toNat = 0x18 ∨ (w >>> 2 &&& 0x1f).toNat = 0x1b := by
  unfold rvi64At at hk
  rw [if_pos (rviKey_zero_lt w)] at hk
  rw [← rviKey_mod]
  exact pcRelative_entries _ (mem_of_lookup (Except.ok.inj hk)) hrel

/-- The 32-bit decoder gives a PC-relative handler an even immediate: the
B- and J-immediates leave bit 0 out, and no I- or S-type key names one. -/
theorem decodeRvi_imm_even {pc w : BitVec 64} {i : Instruction} {size : Nat}
    (h : decodeRvi pc w = .ok (.ok (i, size))) (hrel : i.fn.pcRelative = true) :
    i.imm.getLsbD 0 = false := by
  unfold decodeRvi at h
  split at h
  -- R-type: the immediate is 0
  iterate 4 (rw [(rviLookup_ok h).2.1]; rfl)
  -- I- and S-type: the key's base opcode is neither BRANCH nor JAL
  iterate 9 (next hop => exact absurd (rvi64At_pcRelative (rviLookup_ok h).1 hrel) (by omega))
  -- B-type
  · rw [(rviLookup_ok h).2.1]; simp
  -- U-type: LUI and AUIPC
  iterate 2 (split at h <;> cases h <;> cases hrel)
  -- J-type
  · cases h; simp
  · cases h

/-- The `panic` calls of `rvcDecode`, for the floating-point loads and
stores, the reserved and unassigned forms. -/
def rvcPanics : List Panic :=
  [.msg "C.FLD (the F standard extension) is not supported", .msg "reserved",
   .msg "C.FSD (the F standard extension) is not suppored", .msg "unreachable",
   .msg "FLDSP (the F standard extension) is not suppored",
   .msg "FSDSP (the F standard extension) is not suppored", .msg "unrecognized rvc instruction"]

/-- **What `rvcDecode` returns**: one of its `panic`s, an error, or an
instruction whose immediate is even if its handler is PC-relative (C.J,
C.BEQZ, C.BNEZ). -/
theorem rvcDecode_cases (c : BitVec 16) :
    (∃ p ∈ rvcPanics, rvcDecode c = .error p) ∨ (∃ e, rvcDecode c = .ok (.error e)) ∨
      ∃ i, rvcDecode c = .ok (.ok i) ∧ (i.fn.pcRelative = true → i.imm.getLsbD 0 = false) := by
  generalize hr : rvcDecode c = r
  unfold rvcDecode at hr
  repeat' (split at hr <;> try dsimp only at hr)
  all_goals subst hr
  all_goals first
    | exact .inl ⟨_, by simp only [rvcPanics, List.mem_cons, true_or, or_true], rfl⟩
    | exact .inr (.inl ⟨_, rfl⟩)
    | exact .inr (.inr ⟨_, rfl, fun h => Bool.noConfusion h⟩)
    | exact .inr (.inr ⟨_, rfl, fun _ => by simp [signExtend_getLsbD_zero]⟩)

theorem rvcDecode_imm_even {c : BitVec 16} {i : Instruction} (h : rvcDecode c = .ok (.ok i))
    (hrel : i.fn.pcRelative = true) : i.imm.getLsbD 0 = false := by
  rcases rvcDecode_cases c with ⟨p, -, hp⟩ | ⟨e, he⟩ | ⟨i', hi, heven⟩
  · cases hp.symm.trans h
  · cases he.symm.trans h
  · cases hi.symm.trans h
    exact heven hrel

theorem decode_imm_even {pc : BitVec 64} {b : Array (BitVec 8)} {i : Instruction} {size : Nat}
    (h : decode pc b = .ok (.ok (i, size))) (hrel : i.fn.pcRelative = true) :
    i.imm.getLsbD 0 = false := by
  rcases decode_ok_cases h with ⟨-, c, hc⟩ | ⟨-, w, hw⟩
  · exact rvcDecode_imm_even hc hrel
  · exact decodeRvi_imm_even hw hrel

/-! ## Runs -/

/-- **One iteration keeps `PC` even.** -/
theorem step_pc_even {host : Host} {vm : VM} {s : StepOut} (h : vm.step host = .ok s)
    (hpc : vm.pc.toNat % 2 = 0) :
    (s.machine vm).pc.toNat % 2 = 0 := by
  obtain ⟨b, -, ⟨_, -, rfl⟩ | ⟨instr, size, out, hd, hout, ⟨e, he, rfl⟩ | ⟨-, rfl⟩⟩⟩ :=
    step_eq_ok h
  · exact hpc
  · rw [StepOut.machine, (Op.exec_framed _ _ _ _ _ hout).err (by simp [he])]
    exact hpc
  · rw [StepOut.machine, retire_pc, (Op.exec_framed _ _ _ _ _ hout).updatedPC, Op.exec_pc _ hout]
    split
    · exact Op.target_even _ ‹_› hpc (decode_imm_even hd)
    · rcases decode_ok_cases hd with ⟨rfl, -⟩ | ⟨rfl, -⟩ <;> exact even_add hpc rfl

/-- **`PC` stays even across `Run(n)`**: from every machine whose `PC` is
even, for every `n`, whatever `Run` returns (`nil`, the exit signal or an
error), `PC` is still even. -/
theorem run_pc_even (host : Host) (vm : VM) (n : Nat) (h : vm.pc.toNat % 2 = 0) :
    ∀ e vm', vm.run host n = .ok (e, vm') → vm'.pc.toNat % 2 = 0 :=
  fun e vm' hr =>
    runLoop_inv (fun v => v.pc.toNat % 2 = 0) (fun _ _ hs hv => step_pc_even hs hv) n 0 vm
      (e, vm') hr h

/-- `c.j 0` (`0xA001`), a compressed jump to itself. -/
def cjSelf : VM := VM.boot #[0x01, 0xA0] (by decide) fun _ => 0

theorem run_pc_even_cj :
    cjSelf.pc.toNat % 2 = 0 ∧
      ∀ e vm', cjSelf.run .complete 3 = .ok (e, vm') → vm'.pc.toNat % 2 = 0 :=
  ⟨rfl, run_pc_even .complete cjSelf 3 rfl⟩

end RiscvEmu
