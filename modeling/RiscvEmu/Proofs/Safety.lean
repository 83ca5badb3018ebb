import RiscvEmu.Proofs.Pc
import RiscvEmu.Proofs.Faults

/-!
# When `Run` panics

A Go panic stops the emulator. `StepPanic` lists why one iteration of
`Run` can panic, and `run_panics` says that a `Run(n)` that panics does so
in the iteration after `k < n` retired instructions, for one of these
reasons:

* the fetch slice `vm.Mem[PC:end]` does not exist (`fetch_cases`);
* `Decode` indexes `rvi64Instructions` with the key of an R-type word past
  its end (`decodeRvi_panic`);
* `rvcDecode` reaches one of its `panic` calls (`rvcDecode_cases`);
* the handler raises one of the panics `Op.panics` lists (`Op.exec_panics`).

Nothing else in an iteration panics: not `decodeSize`, whose `unreachable`
no first byte reaches, not the byte indexing of `Decode`, and not the call
`in.fn`, since every instruction `Decode` returns names a handler.

In particular a program that runs off the end of its memory, with `PC` at
most `len(Mem)`, gets a decode error and no panic (`run_off_end`).
-/

namespace RiscvEmu

/-- Why an iteration of `Run` on `vm` panics with `p`. -/
inductive StepPanic (vm : VM) : Panic → Prop
  /-- The slice `vm.Mem[PC:end]` does not exist: `PC` is past the end of
  memory, or `int(PC + 4)` is negative. -/
  | fetch (e : Int) : ¬ (vm.pc.toNat ≤ vm.mem.len ∧ vm.pc.toNat + 4 < 2 ^ 63) →
      StepPanic vm (.sliceBounds vm.pc.toNat e vm.mem.len)
  /-- `Decode` indexes `rvi64Instructions` with the key of an AMO, OP,
  OP-32 or OP-FP word, at or past its end. -/
  | tableKey (b : Array (BitVec 8)) : vm.fetch = .ok b → b.getD 0 0 &&& 3 = 3 →
      (wordOf b >>> 2 &&& 0x1f).toNat ∈ [0x0b, 0x0c, 0x0e, 0x14] →
      rvi64Len ≤ (rviKey (wordOf b >>> 17 &&& 0x7f00) (wordOf b)).toNat →
      StepPanic vm
        (.indexOutOfRange (rviKey (wordOf b >>> 17 &&& 0x7f00) (wordOf b)).toNat rvi64Len)
  /-- `rvcDecode` reaches one of its `panic` calls. -/
  | rvc (b : Array (BitVec 8)) {p : Panic} : vm.fetch = .ok b → ¬ b.getD 0 0 &&& 3 = 3 →
      p ∈ rvcPanics → StepPanic vm p
  /-- The handler of the decoded instruction raises a panic that
  `Op.panics` lists for it. -/
  | handler (b : Array (BitVec 8)) (instr : Instruction) (size : Nat) {p : Panic} :
      vm.fetch = .ok b → decode vm.pc b = .ok (.ok (instr, size)) →
      instr.fn.panics { vm with lastPC := vm.pc, lastInstr := some instr } instr p →
      StepPanic vm p

/-- **Why an iteration panics**: one of the reasons `StepPanic` lists. -/
theorem step_panics {host : Host} {vm : VM} {p : Panic} (h : vm.step host = .error p) : StepPanic vm p := by
  rcases step_eq_error h with hf | ⟨b, hb, hd | ⟨instr, size, hd, hx⟩⟩
  · -- the fetch
    rcases fetch_cases vm with ⟨-, -, hok⟩ | ⟨hn, e, herr⟩
    · cases hok.symm.trans hf
    · cases herr.symm.trans hf
      exact .fetch e hn
  · -- `Decode`, on a standard or a compressed first byte
    by_cases h3 : b.getD 0 0 &&& 3 = 3
    · rcases decode_eq_decodeRvi vm.pc b h3 with ⟨e, he⟩ | he
      · cases he.symm.trans hd
      obtain ⟨hop, hk, rfl⟩ := decodeRvi_panic (he ▸ hd)
      exact .tableKey b hb h3 hop hk
    · obtain ⟨c, hc⟩ := decode_panic_rvc h3 hd
      rcases rvcDecode_cases c with ⟨q, hq, hc'⟩ | ⟨e, he⟩ | ⟨i, hi, -⟩
      · cases hc'.symm.trans hc
        exact .rvc b hb h3 hq
      · cases he.symm.trans hc
      · cases hi.symm.trans hc
  · -- the handler
    exact .handler b instr size hb hd (Op.exec_panics _ _ _ _ _ hx)

/-- **When `Run` panics**: for every machine and every `n`, if `vm.Run(n)`
panics with `p`, then some `k < n` instructions retired first, `Run(k)`
leaves a machine `v`, and the next iteration panics on `v` for one of the
reasons `StepPanic` lists. -/
theorem run_panics (host : Host) (vm : VM) (n : Nat) (p : Panic) (h : vm.run host n = .error p) :
    ∃ k < n, ∃ v, vm.run host k = .ok (none, v) ∧ StepPanic v p :=
  let ⟨k, hk, v, hrun, hs⟩ := runLoop_panics n 0 vm p h
  ⟨k, hk, v, hrun k 0, step_panics hs⟩

/-- `0xFE000033`, an OP word with `funct7 = 0x7F`, at `PC = 0`. -/
def rtypeKeyVM : VM := VM.boot #[0x33, 0x00, 0x00, 0xFE] (by decide) fun _ => 0

theorem run_panics_rtype_key :
    rtypeKeyVM.run .complete 1 = .error (.indexOutOfRange 0x7F0C 0x20AF) ∧
      ∃ k < 1, ∃ v, rtypeKeyVM.run .complete k = .ok (none, v) ∧
        StepPanic v (.indexOutOfRange 0x7F0C 0x20AF) :=
  ⟨rfl, run_panics .complete rtypeKeyVM 1 _ rfl⟩

/-! ## Running off the end of memory -/

/-- A non-compressed first byte with 2 bytes to decode: `decodeSize` says
at least 3. -/
theorem decodeSize_gt_two {b : Array (BitVec 8)} {s : Nat}
    (h : decodeSize b = .ok (s, true)) (h3 : b.getD 0 0 &&& 3 = 3) : 2 < s := by
  unfold decodeSize at h
  obtain ⟨b0, h0, h⟩ := bind_eq_ok.mp h
  rw [← byteAt_ok h0] at h3
  rcases ite_eq_iff.mp h with ⟨h1, -⟩ | ⟨-, h⟩
  · exact absurd h3 h1
  -- the 32-bit, 48-bit and 64-bit formats: 4, 3 and 4
  rcases ite_eq_iff.mp h with ⟨-, h⟩ | ⟨-, h⟩
  · cases h; omega
  rcases ite_eq_iff.mp h with ⟨-, h⟩ | ⟨-, h⟩
  · cases h; omega
  rcases ite_eq_iff.mp h with ⟨-, h⟩ | ⟨-, h⟩
  · cases h; omega
  -- the longer formats: `5 + 2 * n`, or not supported
  rcases ite_eq_iff.mp h with ⟨-, h⟩ | ⟨-, h⟩
  · obtain ⟨x, -, h⟩ := bind_eq_ok.mp h
    rcases ite_eq_iff.mp h with ⟨-, h⟩ | ⟨-, h⟩ <;> cases h
    omega
  · cases h

theorem decode_badLength (pc : BitVec 64) {b : Array (BitVec 8)}
    (h : b.size = 0 ∨ b.size % 2 ≠ 0) : decode pc b = .ok (.error (.badLength b.size)) := by
  unfold decode
  rw [if_pos h]
  rfl

/-- Two bytes that do not start a compressed instruction are too few:
`Decode` returns an error. -/
theorem decode_short (pc : BitVec 64) (b : Array (BitVec 8)) (hs : b.size = 2)
    (h3 : b.getD 0 0 &&& 3 = 3) : ∃ e, decode pc b = .ok (.error e) := by
  obtain ⟨⟨s, ok⟩, hsz⟩ := decodeSize_ok (b := b) (by omega)
  unfold decode
  simp only [hs, hsz, OfNat.ofNat_ne_zero, Nat.mod_self, ne_eq, not_true_eq_false, or_self,
    if_false, pure_bind, ok_bind]
  cases ok
  · exact ⟨_, rfl⟩
  · rw [if_neg (by decide), if_pos (by have := decodeSize_gt_two hsz h3; omega)]
    exact ⟨_, rfl⟩

/-- Fewer than 4 bytes before the end: the fetch returns them all. -/
theorem fetch_near_end (vm : VM) (hpc : vm.pc.toNat ≤ vm.mem.len)
    (hend : vm.mem.len < vm.pc.toNat + 4) (h63 : vm.pc.toNat + 4 < 2 ^ 63) :
    ∃ b, vm.fetch = .ok b ∧ b.size = vm.mem.len - vm.pc.toNat ∧
      (0 < b.size → b.getD 0 0 = vm.mem.byte vm.pc.toNat) := by
  rcases fetch_cases vm with ⟨-, -, hf⟩ | ⟨hn, -⟩
  · rw [min_eq_right (by omega)] at hf
    have hsz : (vm.mem.bytes.extract vm.pc.toNat vm.mem.len).size = vm.mem.len - vm.pc.toNat := by
      rw [Array.size_extract]
      simp [Mem.len]
    refine ⟨_, hf, hsz, fun h0 => ?_⟩
    have h1 : vm.pc.toNat < vm.mem.len := by omega
    simp [Array.getD, Mem.byte, h0, h1]
  · exact absurd ⟨hpc, h63⟩ hn

/-- **Running off the end of memory is a decode error, not a panic.** For
every machine whose `PC` is at most `len(Mem)` with fewer than 4 bytes
left, and `PC + 4 < 2^63`, unless the 2 bytes left start a compressed
instruction: every `Run(n)` with `n ≥ 1` returns the decode error of its
first iteration, "can't decode k bytes" for the `k` bytes left when `k` is
0, 1 or 3, and leaves the machine as it was. -/
theorem run_off_end (host : Host) (vm : VM) (n : Nat) (hn : 0 < n) (hpc : vm.pc.toNat ≤ vm.mem.len)
    (hend : vm.mem.len < vm.pc.toNat + 4) (h63 : vm.pc.toNat + 4 < 2 ^ 63)
    (hc : vm.mem.len = vm.pc.toNat + 2 → vm.mem.byte vm.pc.toNat &&& 3 = 3) :
    ∃ e, vm.run host n = .ok (some (.run 1 n e), vm) ∧
      (vm.mem.len ≠ vm.pc.toNat + 2 → e = .badLength (vm.mem.len - vm.pc.toNat)) := by
  obtain ⟨b, hf, hsize, hb0⟩ := fetch_near_end vm hpc hend h63
  obtain ⟨e, hd, he⟩ : ∃ e, decode vm.pc b = .ok (.error e) ∧
      (vm.mem.len ≠ vm.pc.toNat + 2 → e = .badLength (vm.mem.len - vm.pc.toNat)) := by
    by_cases h2 : vm.mem.len = vm.pc.toNat + 2
    · obtain ⟨e, hd⟩ := decode_short vm.pc b (by omega) (by rw [hb0 (by omega)]; exact hc h2)
      exact ⟨e, hd, fun h => absurd h2 h⟩
    · exact ⟨_, decode_badLength vm.pc (by omega), fun _ => by rw [hsize]⟩
  obtain ⟨m, rfl⟩ : ∃ m, n = m + 1 := ⟨n - 1, by omega⟩
  refine ⟨e, runLoop_decodeFailed ?_, he⟩
  unfold VM.step
  rw [hf, ok_bind, hd]
  rfl

/-- After `addi a0, x0, 5`, the one instruction of its memory, `PC` is at
the end. -/
theorem run_off_end_addi :
    ∃ e, addiA0Retired.run .complete 1 = .ok (some (.run 1 1 e), addiA0Retired) ∧
      (addiA0Retired.mem.len ≠ addiA0Retired.pc.toNat + 2 →
        e = .badLength (addiA0Retired.mem.len - addiA0Retired.pc.toNat)) :=
  run_off_end .complete addiA0Retired 1 (by decide) (by decide) (by decide) (by decide) (by decide)

end RiscvEmu
