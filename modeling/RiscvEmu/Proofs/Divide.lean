import RiscvEmu.Core.Rvi

/-!
# Division: DIV, DIVU, REM, REMU and the word forms

`div` and `rem` test the divisor for zero and otherwise use Go's `/` and `%`
on `int64`, which truncate toward zero; `sdiv` and `srem` compute them from
the unsigned quotient and remainder of the magnitudes (`magnitude`), with the
signs put back afterwards (`sdiv_magnitude`, `srem_magnitude`). From the
Euclidean identity of the magnitudes and four sign cases come the laws of
truncated division (`SignedDivision`): the quotient is `Int.tdiv` of the
signed readings, `n = q * d + r` modulo `2^64`, `|r| < |d|`, and a non-zero
remainder has the sign of the dividend. `INT64_MIN / -1` is the one quotient
that does not fit; Go, like the ISA, gives `INT64_MIN` and remainder 0.
-/

namespace RiscvEmu

/-! ## Magnitudes -/

/-- `|x|` as a 64-bit word, the operand `sdiv` and `srem` divide. The
magnitude of `INT64_MIN` is `2^63`, which still fits unsigned. -/
def magnitude (x : BitVec 64) : BitVec 64 := if x.msb then -x else x

theorem msb_iff_toInt_neg (x : BitVec 64) : x.msb = true ↔ x.toInt < 0 := by
  rw [BitVec.msb_eq_decide, BitVec.toInt_eq_toNat_cond]
  split <;> simp <;> omega

theorem toNat_magnitude (x : BitVec 64) : (magnitude x).toNat = x.toInt.natAbs := by
  have hx := x.isLt
  rw [magnitude, BitVec.toInt_eq_toNat_cond]
  by_cases h : x.msb
  · have h' : 2 ^ 63 ≤ x.toNat := by simpa [BitVec.msb_eq_decide] using h
    rw [if_pos h, if_neg (by omega), BitVec.toNat_neg]
    omega
  · have h' : x.toNat < 2 ^ 63 := by simpa [BitVec.msb_eq_decide] using h
    rw [if_neg h, if_pos (by omega)]
    rfl

theorem toNat_magnitude_le (x : BitVec 64) : (magnitude x).toNat ≤ 2 ^ 63 := by
  rw [toNat_magnitude, BitVec.toInt_eq_toNat_cond]
  have := x.isLt
  split <;> omega

/-- A word is its magnitude with the sign put back. -/
theorem eq_sign_magnitude (x : BitVec 64) : x = if x.msb then -magnitude x else magnitude x := by
  unfold magnitude
  split <;> simp

theorem sdiv_magnitude (x y : BitVec 64) :
    x.sdiv y = if x.msb = y.msb then magnitude x / magnitude y else -(magnitude x / magnitude y) := by
  rw [BitVec.sdiv_eq, magnitude, magnitude]
  cases x.msb <;> cases y.msb <;> rfl

theorem srem_magnitude (x y : BitVec 64) :
    x.srem y = if x.msb then -(magnitude x % magnitude y) else magnitude x % magnitude y := by
  rw [BitVec.srem_eq, magnitude, magnitude]
  cases x.msb <;> cases y.msb <;> rfl

/-! ## Reading a signed result -/

theorem toInt_of_lt (u : BitVec 64) (h : u.toNat < 2 ^ 63) : u.toInt = u.toNat := by
  rw [BitVec.toInt_eq_toNat_cond, if_pos (by omega)]

theorem toInt_neg_of_le (u : BitVec 64) (h : u.toNat ≤ 2 ^ 63) : (-u).toInt = -(u.toNat : Int) := by
  rw [BitVec.toInt_eq_toNat_cond, BitVec.toNat_neg]
  by_cases h0 : u.toNat = 0
  · simp [h0]
  · rw [Nat.mod_eq_of_lt (by omega)]
    split <;> omega

theorem toInt_eq_sign_magnitude (x : BitVec 64) :
    x.toInt = if x.msb then -((magnitude x).toNat : Int) else (magnitude x).toNat := by
  rw [toNat_magnitude]
  split
  · next h => have := (msb_iff_toInt_neg x).1 h; omega
  · next h => have := mt (msb_iff_toInt_neg x).2 h; omega

/-- A magnitude of `2^63` is `INT64_MIN`'s. -/
theorem eq_intMin_of_magnitude (x : BitVec 64) (h : (magnitude x).toNat = 2 ^ 63) :
    x = BitVec.intMin 64 := by
  have hx := x.isLt
  apply BitVec.eq_of_toNat_eq
  rw [toNat_magnitude, BitVec.toInt_eq_toNat_cond] at h
  rw [BitVec.toNat_intMin]
  split at h <;> omega

/-- A magnitude of 1 with the sign bit set is `-1`'s. -/
theorem eq_neg_one_of_magnitude (x : BitVec 64) (hs : x.msb = true) (h : (magnitude x).toNat = 1) :
    x = -1 := by
  rw [eq_sign_magnitude x, if_pos hs, show magnitude x = 1 from BitVec.eq_of_toNat_eq h]

theorem toNat_magnitude_lt (x : BitVec 64) (h : x.msb = false) : (magnitude x).toNat < 2 ^ 63 := by
  rw [magnitude, if_neg (by simp [h])]
  simpa [BitVec.msb_eq_decide] using h

theorem magnitude_pos (x : BitVec 64) (h : x ≠ 0) : 0 < (magnitude x).toNat := by
  refine Nat.pos_of_ne_zero fun h0 => h ?_
  rw [eq_sign_magnitude x, show magnitude x = 0 from BitVec.eq_of_toNat_eq h0]
  simp

/-! ## Unsigned division -/

/-- The Euclidean identity of 64-bit unsigned division, which does not wrap. -/
theorem udiv_mul_add_umod (x y : BitVec 64) : x / y * y + x % y = x := by
  apply BitVec.eq_of_toNat_eq
  have h := Nat.div_add_mod' x.toNat y.toNat
  have hm : x.toNat / y.toNat * y.toNat < 2 ^ 64 := by
    have := Nat.div_mul_le_self x.toNat y.toNat
    omega
  rw [BitVec.toNat_add, BitVec.toNat_mul, BitVec.toNat_udiv, BitVec.toNat_umod, Nat.mod_eq_of_lt hm]
  omega

/-! ## Signed division -/

/-- `n = sdiv n d * d + srem n d` modulo `2^64`, for every `n` and `d`. -/
theorem sdiv_mul_add_srem (n d : BitVec 64) : n.sdiv d * d + n.srem d = n := by
  have he := udiv_mul_add_umod (magnitude n) (magnitude d)
  have hn := eq_sign_magnitude n
  have hd := eq_sign_magnitude d
  rw [sdiv_magnitude, srem_magnitude]
  generalize magnitude n = N at *
  generalize magnitude d = D at *
  generalize n.msb = sn at *
  generalize d.msb = sd at *
  subst hn hd
  cases sn <;> cases sd <;> simp only [ite_true, ite_false, Bool.false_eq_true, Bool.true_eq_false]
  · exact he
  · linear_combination he
  · linear_combination -he
  · linear_combination -he

/-- The quotient of two magnitudes fits in 63 bits unless it is `2^63 / 1`. -/
theorem div_lt_of_ne (N D : Nat) (hN : N ≤ 2 ^ 63) (hD : 0 < D) (h : ¬(N = 2 ^ 63 ∧ D = 1)) :
    N / D < 2 ^ 63 := by
  rw [Nat.div_lt_iff_lt_mul hD]
  rcases Nat.lt_or_ge D 2 with h2 | h2
  · obtain rfl : D = 1 := by omega
    omega
  · calc N < 2 ^ 63 * 2 := by omega
      _ ≤ 2 ^ 63 * D := Nat.mul_le_mul_left _ h2

/-- Outside the overflow, `sdiv` is truncated division of the signed readings. -/
theorem toInt_sdiv (n d : BitVec 64) (hd : d ≠ 0) (hno : ¬(n = BitVec.intMin 64 ∧ d = -1)) :
    (n.sdiv d).toInt = n.toInt.tdiv d.toInt := by
  have hN := toNat_magnitude_le n
  have hD := magnitude_pos d hd
  have hq : (magnitude n / magnitude d).toNat = (magnitude n).toNat / (magnitude d).toNat :=
    BitVec.toNat_udiv
  have hqle : (magnitude n).toNat / (magnitude d).toNat ≤ 2 ^ 63 :=
    (Nat.div_le_self _ _).trans hN
  rw [sdiv_magnitude, toInt_eq_sign_magnitude n, toInt_eq_sign_magnitude d]
  cases hsn : n.msb <;> cases hsd : d.msb <;>
    simp only [ite_true, ite_false, Bool.false_eq_true, Bool.true_eq_false, Int.neg_tdiv,
      Int.tdiv_neg, Int.neg_neg, ← Int.ofNat_tdiv]
  · rw [toInt_of_lt _ (hq ▸ div_lt_of_ne _ _ hN hD (by have := toNat_magnitude_lt n hsn; omega)), hq]
  · rw [toInt_neg_of_le _ (hq ▸ hqle), hq]
  · rw [toInt_neg_of_le _ (hq ▸ hqle), hq]
  · refine (toInt_of_lt _ (hq ▸ div_lt_of_ne _ _ hN hD fun ⟨h1, h2⟩ => hno ?_)).trans (by rw [hq])
    exact ⟨eq_intMin_of_magnitude n h1, eq_neg_one_of_magnitude d hsd h2⟩

/-- The remainder is smaller than the divisor and is zero or has the
dividend's sign. -/
theorem srem_bounds (n d : BitVec 64) (hd : d ≠ 0) :
    (n.srem d).toInt.natAbs < d.toInt.natAbs ∧
      (n.srem d = 0 ∨ ((n.srem d).toInt < 0 ↔ n.toInt < 0)) := by
  have hD := toNat_magnitude_le d
  have hR : (magnitude n % magnitude d).toNat < (magnitude d).toNat := by
    rw [BitVec.toNat_umod]
    exact Nat.mod_lt _ (magnitude_pos d hd)
  rw [srem_magnitude, ← toNat_magnitude d, ← msb_iff_toInt_neg n]
  by_cases h0 : magnitude n % magnitude d = 0
  · simp [h0, magnitude_pos d hd]
  · have hR0 : 0 < (magnitude n % magnitude d).toNat :=
      Nat.pos_of_ne_zero fun h => h0 (BitVec.eq_of_toNat_eq h)
    cases n.msb
    · simp only [ite_false, Bool.false_eq_true, toInt_of_lt (magnitude n % magnitude d) (by omega)]
      exact ⟨by omega, .inr (by simp only [Bool.false_eq_true, iff_false, not_lt]; omega)⟩
    · simp only [ite_true, toInt_neg_of_le (magnitude n % magnitude d) (by omega)]
      exact ⟨by omega, .inr (by simp only [iff_true]; omega)⟩

/-! ## The handlers -/

/-- The laws the ISA sets for a signed quotient `q` and remainder `r` of `n`
by `d`: all ones and the dividend for a zero divisor, `INT64_MIN` and 0 for
the overflowing `INT64_MIN / -1`, and otherwise truncated division: `q` is
`Int.tdiv` of the signed readings, `n = q * d + r` modulo `2^64`,
`|r| < |d|`, and `r` is zero or has the sign of `n`. -/
def SignedDivision (n d q r : BitVec 64) : Prop :=
  (d = 0 → q = BitVec.allOnes 64 ∧ r = n) ∧
  (n = BitVec.intMin 64 → d = -1 → q = BitVec.intMin 64 ∧ r = 0) ∧
  (d ≠ 0 → ¬(n = BitVec.intMin 64 ∧ d = -1) →
    q.toInt = n.toInt.tdiv d.toInt ∧ n = q * d + r ∧ r.toInt.natAbs < d.toInt.natAbs ∧
      (r = 0 ∨ (r.toInt < 0 ↔ n.toInt < 0)))

/-- The unsigned analogue: all ones and the dividend for a zero divisor, and
otherwise `q = ⌊n / d⌋`, `n = q * d + r` and `r < d`. -/
def UnsignedDivision (n d q r : BitVec 64) : Prop :=
  (d = 0 → q = BitVec.allOnes 64 ∧ r = n) ∧
  (d ≠ 0 → q.toNat = n.toNat / d.toNat ∧ n = q * d + r ∧ r.toNat < d.toNat)

theorem signedDivision_sdiv (n d : BitVec 64) :
    SignedDivision n d (if d = 0 then BitVec.allOnes 64 else n.sdiv d)
      (if d = 0 then n else n.srem d) := by
  refine ⟨fun h => by simp [h], fun hn hd => by subst hn hd; decide, fun hd hno => ?_⟩
  rw [if_neg hd, if_neg hd]
  exact ⟨toInt_sdiv n d hd hno, (sdiv_mul_add_srem n d).symm, srem_bounds n d hd⟩

theorem unsignedDivision_udiv (n d : BitVec 64) :
    UnsignedDivision n d (if d = 0 then BitVec.allOnes 64 else n / d) (if d = 0 then n else n % d) := by
  refine ⟨fun h => by simp [h], fun hd => ?_⟩
  rw [if_neg hd, if_neg hd]
  have hd' : 0 < d.toNat := Nat.pos_of_ne_zero fun h => hd (BitVec.eq_of_toNat_eq h)
  exact ⟨BitVec.toNat_udiv, (udiv_mul_add_umod n d).symm,
    BitVec.toNat_umod ▸ Nat.mod_lt _ hd'⟩

/-- **DIV, REM, DIVU and REMU divide as the ISA says.** On every machine and
every instruction, the four handlers write a quotient and a remainder of
`rs1` by `rs2` that meet the signed and the unsigned laws. -/
theorem div_rem_laws (vm : VM) (i : Instruction) :
    ∃ q r q' r', div vm i = pure ⟨{}, none, vm.store i.rd q⟩ ∧
      rem vm i = pure ⟨{}, none, vm.store i.rd r⟩ ∧
      divu vm i = pure ⟨{}, none, vm.store i.rd q'⟩ ∧
      remu vm i = pure ⟨{}, none, vm.store i.rd r'⟩ ∧
      SignedDivision (vm.reg i.rs1) (vm.reg i.rs2) q r ∧
      UnsignedDivision (vm.reg i.rs1) (vm.reg i.rs2) q' r' :=
  ⟨_, _, _, _, rfl, rfl, rfl, rfl, signedDivision_sdiv _ _, unsignedDivision_udiv _ _⟩

/-! ## The word forms -/

/-- **REMW and REMUW test the wrong divisor for zero.** They compare all 64
bits of `rs2` with zero but divide its low 32 bits. With `x2 = 2^32` the low
word is zero, the 64-bit test passes, and the 32-bit `%` panics with a
division by zero. With `x2 = 0` the zero path writes the 64-bit dividend
`2^32` unchanged, where the ISA writes the sign extension of its low word,
0. -/
theorem remw_zero_divisor (vm : VM) :
    remw ((vm.store 1 0x100000000).store 2 0x100000000) { fn := .remw, rd := 3, rs1 := 1, rs2 := 2 } =
        throw .divideByZero ∧
      remuw ((vm.store 1 0x100000000).store 2 0x100000000)
          { fn := .remuw, rd := 3, rs1 := 1, rs2 := 2 } = throw .divideByZero ∧
      remw ((vm.store 1 0x100000000).store 2 0) { fn := .remw, rd := 3, rs1 := 1, rs2 := 2 } =
        pure ⟨{}, none, ((vm.store 1 0x100000000).store 2 0).store 3 0x100000000⟩ := by
  have h1 : ∀ v, ((vm.store 1 0x100000000).store 2 v).reg 1 = 0x100000000 := fun v => by
    simp [store_reg]
  have h2 : ∀ v, ((vm.store 1 0x100000000).store 2 v).reg 2 = v := fun v => by simp [store_reg]
  refine ⟨?_, ?_, ?_⟩ <;> simp only [remw, remuw, h1, h2] <;> rfl

end RiscvEmu
