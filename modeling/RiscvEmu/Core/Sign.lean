import Mathlib

/-!
# Sign extension (`sign.go`)

`signExtend v bit` copies bit `bit` of `v` into every bit above it. It reads
the 32-entry table `signBits`, which `init` fills in a loop before `main`
runs. The model runs that loop (`initSignBits`); `signBits_get` gives the
closed form of each entry, and `signExtend_eq_signExtend` relates the helper
to Lean's `BitVec.signExtend` on every value that fits in `bit + 1` bits,
which is how the handlers below are read. `signExtend_reextend` is the law the
compressed forms rely on: an immediate that `rvcDecode` already extended is
extended again by its handler, from the same or a higher bit, to no effect,
since every bit of an extended value from `bit` up copies its sign
(`signExtend_of_copies`).
-/

namespace RiscvEmu

/-- One entry of `signBits`: the mask of the sign bit, and the mask of the
bits that `signExtend` sets when the sign bit is set. -/
structure SignBit where
  signBit : BitVec 64
  ones : BitVec 64

/-- The loop of `init`: it stores `b` and `ones`, then shifts both left by
one for the next entry. -/
def initSignBits : Nat → BitVec 64 → BitVec 64 → List SignBit
  | 0, _, _ => []
  | k + 1, b, ones => ⟨b, ones⟩ :: initSignBits k (b <<< 1) (ones <<< 1)

/-- `signBits` once `init` has run: `b` starts at `1` and `ones` at
`math.MaxUint64`, over the table's 32 entries. -/
def signBits : List SignBit := initSignBits 32 1 (BitVec.allOnes 64)

theorem length_initSignBits (k : Nat) (b ones : BitVec 64) :
    (initSignBits k b ones).length = k := by
  induction k generalizing b ones <;> simp [initSignBits, *]

/-- `signExtend(v, bit)`. The Go parameter is an `int` that indexes the
32-entry table; every call site passes a constant below 32, so here it is a
`Fin 32`. -/
def signExtend (v : BitVec 64) (bit : Fin 32) : BitVec 64 :=
  let b := signBits.get ⟨bit, by simp [signBits, length_initSignBits]⟩
  if v &&& b.signBit ≠ 0 then v ||| b.ones else v

theorem initSignBits_get (k : Nat) (b ones : BitVec 64) (j : Nat)
    (h : j < (initSignBits k b ones).length) :
    (initSignBits k b ones).get ⟨j, h⟩ = ⟨b <<< j, ones <<< j⟩ := by
  induction k generalizing b ones j with
  | zero => simp [initSignBits] at h
  | succ k ih =>
    cases j with
    | zero => simp [initSignBits]
    | succ j =>
      simp only [initSignBits, List.get_cons_succ]
      rw [ih, ← BitVec.shiftLeft_add, ← BitVec.shiftLeft_add, Nat.add_comm 1 j]

/-- **The table `init` builds**: entry `i` is `⟨1 << i, MaxUint64 << i⟩`. -/
theorem signBits_get (i : Fin 32) (h : i.val < signBits.length) :
    signBits.get ⟨i, h⟩ = ⟨BitVec.twoPow 64 i, BitVec.allOnes 64 <<< i.val⟩ :=
  initSignBits_get 32 1 _ i h

/-- `signExtend` in closed form: set every bit from `bit` up when bit `bit`
of `v` is set. -/
theorem signExtend_getLsbD (v : BitVec 64) (bit : Fin 32) (j : Nat) :
    (signExtend v bit).getLsbD j =
      (v.getLsbD j || (v.getLsbD bit && decide (bit.val ≤ j ∧ j < 64))) := by
  simp only [signExtend, signBits_get, BitVec.and_twoPow]
  by_cases hb : v.getLsbD bit
  · have nz : BitVec.twoPow 64 bit.val ≠ 0 := fun h0 => by
      have := congrArg (·.getLsbD bit) h0
      simp [BitVec.getLsbD_twoPow] at this
      omega
    rw [if_pos hb, if_pos nz]
    simp only [BitVec.getLsbD_or, BitVec.getLsbD_shiftLeft, BitVec.getLsbD_allOnes, hb,
      Bool.true_and]
    cases v.getLsbD j
    · simp only [Bool.false_or, ← decide_not, ← Bool.decide_and, decide_eq_decide]
      omega
    · simp
  · simp [hb]

/-- **`signExtend` is sign extension**: on a value below `2^(bit+1)` it is
Lean's `BitVec.signExtend` of the low `bit + 1` bits. -/
theorem signExtend_eq_signExtend (v : BitVec 64) (bit : Fin 32)
    (hv : v.toNat < 2 ^ (bit.val + 1)) :
    signExtend v bit = (v.setWidth (bit.val + 1)).signExtend 64 := by
  ext j
  have hj := j.isLt
  have high : ∀ k, bit.val + 1 ≤ k → v.getLsbD k = false := fun k hk =>
    Nat.testBit_lt_two_pow (Nat.lt_of_lt_of_le hv (Nat.pow_le_pow_right (by decide) hk))
  rw [signExtend_getLsbD, BitVec.getLsbD_signExtend, BitVec.msb_setWidth'']
  by_cases hlt : j.val < bit.val + 1
  · by_cases hb : v.getLsbD bit <;> simp [hlt, hb]
    intro h
    rwa [show j.val = bit.val by omega]
  · simp [hlt, high j (by omega)]
    omega

/-- `signExtend(v, bit)` of a `bit + 1`-bit value, zero-extended to 64 bits,
is its sign extension. -/
theorem signExtend_setWidth (bit : Fin 32) (x : BitVec (bit.val + 1)) :
    signExtend (x.setWidth 64) bit = x.signExtend 64 := by
  have hb := bit.isLt
  rw [signExtend_eq_signExtend _ _ ?_, BitVec.setWidth_setWidth_of_le _ (by omega),
    BitVec.setWidth_eq]
  rw [BitVec.toNat_setWidth]
  exact lt_of_le_of_lt (Nat.mod_le _ _) x.isLt

/-- `signExtend v bit`, read as a signed number, is `v` read as a `bit + 1`-bit
two's-complement number. -/
theorem signExtend_toInt (v : BitVec 64) (n : Fin 32) (hv : v.toNat < 2 ^ (n.val + 1)) :
    (signExtend v n).toInt =
      if v.toNat < 2 ^ n.val then (v.toNat : Int) else v.toNat - 2 ^ (n.val + 1) := by
  have hP : 2 ^ n.val ≤ 2 ^ 31 := Nat.pow_le_pow_right (by decide) (by omega)
  rw [signExtend_eq_signExtend v n hv, BitVec.signExtend, BitVec.toInt_ofInt,
    BitVec.toInt_eq_toNat_cond, BitVec.toNat_setWidth, Nat.mod_eq_of_lt hv, Int.bmod_def]
  generalize hP' : 2 ^ n.val = P at hP
  have hPI : (2 : Int) ^ n.val = P := by rw [← hP']; push_cast; rfl
  rw [@Nat.pow_succ 2 n.val, hP'] at hv ⊢
  rw [pow_succ (2 : Int), hPI]
  split_ifs <;> push_cast <;> omega

/-- Bit `j` of `signExtend v bit` for `v` below `2^(bit+1)`: the bits of `v` up to `bit`,
then copies of bit `bit` up to bit 63. -/
theorem signExtend_getLsbD_of_lt (v : BitVec 64) (bit : Fin 32)
    (hv : v.toNat < 2 ^ (bit.val + 1)) (j : Nat) :
    (signExtend v bit).getLsbD j =
      (decide (j < 64) && if j < bit.val + 1 then v.getLsbD j else v.getLsbD bit) := by
  rw [signExtend_eq_signExtend v bit hv, BitVec.getLsbD_signExtend, BitVec.msb_setWidth'',
    BitVec.getLsbD_setWidth]
  split <;> simp [*]

/-- Every bit of `signExtend v n` from `n` up is bit `n` of `v`. -/
theorem signExtend_getLsbD_sign (v : BitVec 64) {n m : Fin 32}
    (hv : v.toNat < 2 ^ (n.val + 1)) (hm : n ≤ m) :
    (signExtend v n).getLsbD m = v.getLsbD n := by
  rw [signExtend_getLsbD_of_lt v n hv]
  split <;> simp [show m.val < 64 by omega]
  rw [show m.val = n.val by omega]

/-- A word whose bits from `n` up all equal bit `n` is its own sign
extension from `n`. -/
theorem signExtend_of_copies (w : BitVec 64) (n : Fin 32)
    (h : ∀ j, n.val ≤ j → j < 64 → w.getLsbD j = w.getLsbD n) : signExtend w n = w := by
  ext j
  have hj := j.isLt
  rw [signExtend_getLsbD]
  by_cases hn : n.val ≤ j.val
  · rw [h j hn hj]
    cases w.getLsbD n <;> simp [hn]
  · simp [hn]

/-- Such a word is also the sign extension of its low `n + 1` bits. -/
theorem signExtend_low_of_copies (w : BitVec 64) (n : Fin 32)
    (h : ∀ j, n.val ≤ j → j < 64 → w.getLsbD j = w.getLsbD n) :
    signExtend (BitVec.ofNat 64 (w.toNat % 2 ^ (n.val + 1))) n = w := by
  ext j
  have hj := j.isLt
  have hn64 : n.val < 64 := by omega
  rw [signExtend_getLsbD, BitVec.getLsbD_ofNat, BitVec.getLsbD_ofNat, Nat.testBit_mod_two_pow,
    Nat.testBit_mod_two_pow, BitVec.testBit_toNat, BitVec.testBit_toNat]
  by_cases hn : j.val < n.val + 1
  · by_cases hjn : j.val = n.val
    · simp [hjn, hn64]
    · simp [hn, hj, show ¬ n.val ≤ j.val by omega]
  · rw [h j (by omega) hj]
    simp [hn, hn64, show n.val ≤ j.val by omega]

/-- **Sign extension reads back and re-extends.** For `v` below `2^(n+1)`, `signExtend v n`
is `v` as an `n + 1`-bit signed number, and extending it again from any bit `m ≥ n`, of the
value itself or of its low `m + 1` bits, changes nothing. -/
theorem signExtend_reextend (n : Fin 32) (v : BitVec 64) (hv : v.toNat < 2 ^ (n.val + 1)) :
    (signExtend v n).toInt =
        (if v.toNat < 2 ^ n.val then (v.toNat : Int) else v.toNat - 2 ^ (n.val + 1)) ∧
      ∀ m : Fin 32, n ≤ m →
        signExtend (signExtend v n) m = signExtend v n ∧
        signExtend (BitVec.ofNat 64 ((signExtend v n).toNat % 2 ^ (m.val + 1))) m =
          signExtend v n := by
  refine ⟨signExtend_toInt v n hv, fun m hm => ?_⟩
  have copies : ∀ j, m.val ≤ j → j < 64 →
      (signExtend v n).getLsbD j = (signExtend v n).getLsbD m := fun j hj hj64 => by
    rw [signExtend_getLsbD_sign v hv hm, signExtend_getLsbD_of_lt v n hv, decide_eq_true hj64,
      Bool.true_and]
    split
    · rw [show j = n.val by omega]
    · rfl
  exact ⟨signExtend_of_copies _ m copies, signExtend_low_of_copies _ m copies⟩

/-- The re-extension at `n = 5`, `m = 7` of `v = 0x20`: the 6-bit pattern `100000` is `-32`. -/
theorem signExtend_reextend_0x20 :
    (0x20 : BitVec 64).toNat < 2 ^ ((5 : Fin 32).val + 1) ∧
      ((signExtend 0x20 5).toInt = -32 ∧
        ∀ m : Fin 32, 5 ≤ m →
          signExtend (signExtend 0x20 5) m = signExtend 0x20 5 ∧
          signExtend (BitVec.ofNat 64 ((signExtend 0x20 5).toNat % 2 ^ (m.val + 1))) m =
            signExtend 0x20 5) := by
  refine ⟨by decide, ?_⟩
  have h := signExtend_reextend 5 0x20 (by decide)
  exact ⟨h.1.trans (by decide), h.2⟩

end RiscvEmu
