import RiscvEmu.Proofs.Divide

/-!
# The high multiplies: MULHU, MULH and MULHSU

`mulHigh` forms the high half of a 64 × 64-bit product from the four 32 × 32
partial products and a carry term, all in 64-bit arithmetic. Over unbounded
naturals that sum (`mulHighSum`) is exactly `⌊a * b / 2^64⌋`
(`mulHighSum_eq`), and since that is below `2^64` no step of the 64-bit sum
wraps (`mulHigh_toNat_sum`). So `mulhu` is exact (`mulhu_exact`).

`mulh` and `mulhsu` apply `mulHigh` to the magnitudes and negate the result
when the product is negative. Negating the floor of `|p| / 2^64` gives the
ceiling of `p / 2^64`, not the floor the ISA asks for (`mulhSpec`,
`mulhsuSpec`), so on a negative product whose low half is not zero both
return one more than the ISA's value (`mulh_negative_product`). Exactly:
both write `p` divided by `2^64` rounded toward zero, which is the ISA's
value plus one on those products and the ISA's value on every other
(`mulh_rounds_toward_zero`).
-/

namespace RiscvEmu

/-! ## The partial-product sum -/

theorem hi32_toNat (x : BitVec 64) : (x >>> 32).toNat = x.toNat / 2 ^ 32 := by
  rw [BitVec.toNat_ushiftRight, Nat.shiftRight_eq_div_pow]

theorem lo32_toNat (x : BitVec 64) : (x &&& 0xffffffff).toNat = x.toNat % 2 ^ 32 := by
  rw [BitVec.toNat_and]
  exact Nat.and_pow_two_sub_one_eq_mod _ 32

/-- The sum `mulHigh` computes, over unbounded naturals: `a, b, c, d` are the
partial products of the 32-bit halves of `x` and `y`. -/
def mulHighSum (x y : Nat) : Nat :=
  let a := x / 2 ^ 32 * (y / 2 ^ 32)
  let b := x / 2 ^ 32 * (y % 2 ^ 32)
  let c := x % 2 ^ 32 * (y / 2 ^ 32)
  let d := x % 2 ^ 32 * (y % 2 ^ 32)
  a + b / 2 ^ 32 + c / 2 ^ 32 + (d / 2 ^ 32 + b % 2 ^ 32 + c % 2 ^ 32) / 2 ^ 32

/-- The schoolbook identity: the partial-product sum is the high half of the
product, for all naturals. -/
theorem mulHighSum_eq (x y : Nat) : mulHighSum x y = x * y / 2 ^ 64 := by
  have hx := Nat.div_add_mod x (2 ^ 32)
  have hy := Nat.div_add_mod y (2 ^ 32)
  have hxl := Nat.mod_lt x (show 2 ^ 32 > 0 by decide)
  have hyl := Nat.mod_lt y (show 2 ^ 32 > 0 by decide)
  simp only [mulHighSum]
  generalize x / 2 ^ 32 = xh at *
  generalize x % 2 ^ 32 = xl at *
  generalize y / 2 ^ 32 = yh at *
  generalize y % 2 ^ 32 = yl at *
  subst hx hy
  rw [show (2 ^ 32 * xh + xl) * (2 ^ 32 * yh + yl) =
    xh * yh * 2 ^ 64 + (xh * yl + xl * yh) * 2 ^ 32 + xl * yl by ring]
  have hD : xl * yl < 2 ^ 32 * 2 ^ 32 := Nat.mul_lt_mul'' hxl hyl
  generalize xh * yh = A
  generalize xh * yl = B
  generalize xl * yh = C
  generalize xl * yl = D at hD
  omega

theorem mul_lt_of_halves {a b : Nat} (ha : a < 2 ^ 32) (hb : b < 2 ^ 32) : a * b < 2 ^ 64 :=
  calc a * b < 2 ^ 32 * 2 ^ 32 := Nat.mul_lt_mul'' ha hb
    _ = 2 ^ 64 := by norm_num

/-- The sum of `mulHigh` with every `% 2^64` of its 64-bit additions: none
of them cuts anything when the whole sum is below `2^64`. -/
theorem partialSum_mod (A B C D : Nat) (hD : D < 2 ^ 64)
    (hS : A + B / 2 ^ 32 + C / 2 ^ 32 + (D / 2 ^ 32 + B % 2 ^ 32 + C % 2 ^ 32) / 2 ^ 32 < 2 ^ 64) :
    (((A + B / 2 ^ 32) % 2 ^ 64 + C / 2 ^ 32) % 2 ^ 64 +
        ((D / 2 ^ 32 + B % 2 ^ 32) % 2 ^ 64 + C % 2 ^ 32) % 2 ^ 64 / 2 ^ 32) % 2 ^ 64 =
      A + B / 2 ^ 32 + C / 2 ^ 32 + (D / 2 ^ 32 + B % 2 ^ 32 + C % 2 ^ 32) / 2 ^ 32 := by
  omega

/-- **No step of the 64-bit sum wraps**: `mulHigh` computes `mulHighSum`
exactly. -/
theorem mulHigh_toNat_sum (x y : BitVec 64) :
    (mulHigh x y).toNat = mulHighSum x.toNat y.toNat := by
  have hS : mulHighSum x.toNat y.toNat < 2 ^ 64 := by
    rw [mulHighSum_eq]
    exact Nat.div_lt_of_lt_mul (Nat.mul_lt_mul'' x.isLt y.isLt)
  have hxh : x.toNat / 2 ^ 32 < 2 ^ 32 := Nat.div_lt_of_lt_mul x.isLt
  have hyh : y.toNat / 2 ^ 32 < 2 ^ 32 := Nat.div_lt_of_lt_mul y.isLt
  have hxl := Nat.mod_lt x.toNat (show 2 ^ 32 > 0 by decide)
  have hyl := Nat.mod_lt y.toNat (show 2 ^ 32 > 0 by decide)
  simp only [mulHighSum] at hS ⊢
  simp only [mulHigh, BitVec.toNat_add, BitVec.toNat_mul, hi32_toNat, lo32_toNat,
    Nat.mod_eq_of_lt (mul_lt_of_halves hxh hyh), Nat.mod_eq_of_lt (mul_lt_of_halves hxh hyl),
    Nat.mod_eq_of_lt (mul_lt_of_halves hxl hyh), Nat.mod_eq_of_lt (mul_lt_of_halves hxl hyl)]
  exact partialSum_mod _ _ _ _ (mul_lt_of_halves hxl hyl) hS

theorem mulHigh_toNat (x y : BitVec 64) : (mulHigh x y).toNat = x.toNat * y.toNat / 2 ^ 64 := by
  rw [mulHigh_toNat_sum, mulHighSum_eq]

/-! ## MULHU -/

/-- **MULHU is exact.** The 64-bit partial-product sum equals the unbounded
one, and `mulhu` writes `⌊a * b / 2^64⌋` of the unsigned register values. -/
theorem mulhu_exact (vm : VM) (i : Instruction) :
    (mulHigh (vm.reg i.rs1) (vm.reg i.rs2)).toNat =
        mulHighSum (vm.reg i.rs1).toNat (vm.reg i.rs2).toNat ∧
      mulhu vm i = pure ⟨{}, none, vm.store i.rd
        (BitVec.ofNat 64 ((vm.reg i.rs1).toNat * (vm.reg i.rs2).toNat / 2 ^ 64))⟩ := by
  refine ⟨mulHigh_toNat_sum _ _, ?_⟩
  rw [mulhu, writeRd, ← mulHigh_toNat, BitVec.ofNat_toNat, BitVec.setWidth_eq]

/-! ## MULH and MULHSU -/

/-- `MULH` as the ISA defines it: the high 64 bits of the 128-bit product of
the signed readings, `⌊sa * sb / 2^64⌋` modulo `2^64`. -/
def mulhSpec (a b : BitVec 64) : BitVec 64 := BitVec.ofInt 64 (a.toInt * b.toInt / 2 ^ 64)

/-- `MULHSU` as the ISA defines it: `⌊sa * ub / 2^64⌋` modulo `2^64`. -/
def mulhsuSpec (a b : BitVec 64) : BitVec 64 := BitVec.ofInt 64 (a.toInt * b.toNat / 2 ^ 64)

/-- **MULH and MULHSU round a negative product toward zero.** With `x2 = -1`
and `x3 = 1` the product is `-1`, whose high half is all ones; `mulh` and
`mulhsu` take `mulHigh 1 1 = 0` and negate it, and write 0. -/
theorem mulh_negative_product (vm : VM) :
    mulh ((vm.store 2 (-1)).store 3 1) { fn := .mulh, rd := 1, rs1 := 2, rs2 := 3 } =
        pure ⟨{}, none, ((vm.store 2 (-1)).store 3 1).store 1 0⟩ ∧
      mulhsu ((vm.store 2 (-1)).store 3 1) { fn := .mulhsu, rd := 1, rs1 := 2, rs2 := 3 } =
        pure ⟨{}, none, ((vm.store 2 (-1)).store 3 1).store 1 0⟩ ∧
      mulhSpec (-1) 1 = -1 ∧ mulhsuSpec (-1) 1 = -1 := by
  have h2 : ((vm.store 2 (-1)).store 3 1).reg 2 = -1 := by simp [store_reg]
  have h3 : ((vm.store 2 (-1)).store 3 1).reg 3 = 1 := by simp [store_reg]
  refine ⟨?_, ?_, by decide, by decide⟩ <;>
  · simp only [mulh, mulhsu, writeRd, h2, h3]
    rfl

/-! ## MULH and MULHSU for every operand -/

theorem slt_zero_eq_msb (x : BitVec 64) : x.slt 0 = x.msb := by
  rw [Bool.eq_iff_iff, msb_iff_toInt_neg]
  simp [BitVec.slt]

/-- A product of signed readings is the product of the magnitudes, negated
when the signs differ. -/
theorem toInt_mul_toInt (a b : BitVec 64) :
    a.toInt * b.toInt = if a.msb != b.msb
      then -(((magnitude a).toNat * (magnitude b).toNat : Nat) : Int)
      else ((magnitude a).toNat * (magnitude b).toNat : Nat) := by
  rw [toInt_eq_sign_magnitude a, toInt_eq_sign_magnitude b]
  cases a.msb <;> cases b.msb <;> simp [Int.neg_mul, Int.mul_neg]

/-- The same for a signed reading times an unsigned one. -/
theorem toInt_mul_toNat (a b : BitVec 64) :
    a.toInt * b.toNat = if a.msb
      then -(((magnitude a).toNat * b.toNat : Nat) : Int)
      else ((magnitude a).toNat * b.toNat : Nat) := by
  rw [toInt_eq_sign_magnitude a]
  cases a.msb <;> simp [Int.neg_mul]

/-- Negating a word when `s` is set is `ofInt` of the signed value. -/
theorem ofInt_signed (N : Nat) (s : Bool) :
    BitVec.ofInt 64 (if s then -(N : Int) else N) =
      if s then -BitVec.ofNat 64 N else BitVec.ofNat 64 N := by
  apply BitVec.eq_of_toNat_eq
  cases s <;> simp only [BitVec.toNat_ofInt, BitVec.toNat_neg, BitVec.toNat_ofNat, ite_true,
    ite_false, Bool.false_eq_true] <;> omega

/-- Truncated division of a signed value by `2^64` divides its magnitude. -/
theorem tdiv_signed (N : Nat) (s : Bool) :
    (if s then -(N : Int) else N).tdiv (2 ^ 64) =
      if s then -((N / 2 ^ 64 : Nat) : Int) else (N / 2 ^ 64 : Nat) := by
  cases s <;> simp only [ite_true, ite_false, Bool.false_eq_true, Int.neg_tdiv] <;>
    rw [Int.ofNat_tdiv] <;> rfl

/-- The high half of the product of two words, negated when `s` is set, is
the truncated quotient by `2^64` of the signed product. -/
theorem signedHigh_eq (x y : BitVec 64) (s : Bool) :
    (if s then -mulHigh x y else mulHigh x y) =
      BitVec.ofInt 64 ((if s then -((x.toNat * y.toNat : Nat) : Int)
        else (x.toNat * y.toNat : Nat)).tdiv (2 ^ 64)) := by
  rw [tdiv_signed, ofInt_signed, ← mulHigh_toNat, BitVec.ofNat_toNat, BitVec.setWidth_eq]

/-- Truncated and floor division by `2^64` differ by one exactly on negative
values that are not multiples of `2^64`. -/
theorem tdiv_eq_ediv_add (p : Int) :
    p.tdiv (2 ^ 64) = p / 2 ^ 64 + if p < 0 ∧ ¬ (2 ^ 64 : Int) ∣ p then 1 else 0 := by
  rcases Int.le_or_lt 0 p with hp | hp
  · rw [Int.tdiv_eq_ediv hp (by decide), if_neg (by omega), Int.add_zero]
  · have h := Int.tdiv_eq_ediv (a := -p) (b := 2 ^ 64) (by omega) (by decide)
    rw [Int.neg_tdiv] at h
    split <;> omega

/-- **MULH and MULHSU round toward zero.** On every machine they write the
signed product `p` of the registers (signed times unsigned for MULHSU)
divided by `2^64` and truncated. That is the ISA's value plus one when `p`
is negative and not a multiple of `2^64`, and the ISA's value otherwise. -/
theorem mulh_rounds_toward_zero (vm : VM) (i : Instruction) :
    mulh vm i = pure ⟨{}, none, vm.store i.rd
        (BitVec.ofInt 64 (((vm.reg i.rs1).toInt * (vm.reg i.rs2).toInt).tdiv (2 ^ 64)))⟩ ∧
      mulhsu vm i = pure ⟨{}, none, vm.store i.rd
        (BitVec.ofInt 64 (((vm.reg i.rs1).toInt * (vm.reg i.rs2).toNat).tdiv (2 ^ 64)))⟩ ∧
      ∀ a b : BitVec 64,
        BitVec.ofInt 64 ((a.toInt * b.toInt).tdiv (2 ^ 64)) = mulhSpec a b +
          (if a.toInt * b.toInt < 0 ∧ ¬ (2 ^ 64 : Int) ∣ a.toInt * b.toInt then 1 else 0) ∧
        BitVec.ofInt 64 ((a.toInt * b.toNat).tdiv (2 ^ 64)) = mulhsuSpec a b +
          (if a.toInt * b.toNat < 0 ∧ ¬ (2 ^ 64 : Int) ∣ a.toInt * b.toNat then 1 else 0) := by
  refine ⟨?_, ?_, fun a b => ⟨?_, ?_⟩⟩
  · simp only [mulh, writeRd, slt_zero_eq_msb]
    rw [toInt_mul_toInt, ← signedHigh_eq]
    rfl
  · simp only [mulhsu, writeRd, slt_zero_eq_msb]
    rw [toInt_mul_toNat, ← signedHigh_eq]
    rfl
  all_goals
    rw [tdiv_eq_ediv_add, BitVec.ofInt_add]
    split <;> rfl

end RiscvEmu
