import RiscvEmu.Core.Boot
import RiscvEmu.Proofs.Memory

/-!
# The initial stack of `NewVM`

Each push writes just below `SP` and moves `SP` down over what it wrote, so
what an earlier push left sits at or above every later `SP`, where no later
push writes. The module says what one push leaves (`pushCString_ok`,
`pushUint64_ok`), carries it through the loops by induction on their lists
(`pushCStrings_ok`, `pushUint64s_ok`) and through the two stages of
`NewVM`, strings then tables (`pushStrings_ok`, `pushTables_ok`), and reads
the finished stack back with `VM.Memory` (`memory_addrTable`,
`newVM_stack`): `argc` at `SP`, then the `argv` pointer table, a 0 word,
the `envp` table and a 0 word, each pointer naming a NUL-terminated copy of
its string. The copies sit one right after another from just above the
tables to the end of memory (`Mem.HoldsCStrings`), so no write overlaps
another.

The allocations bound the layout: `make` takes at most `maxAlloc` bytes, so
a size whose `uint64` sum does not wrap can still make `NewVM` panic
(`newVM_large_panics`).
-/

namespace RiscvEmu

/-! ## What sits in memory -/

/-- The bytes of `s` and a 0 byte sit at `a` in `m`, inside it. -/
def Mem.HoldsCString (m : Mem) (a : Nat) (s : List (BitVec 8)) : Prop :=
  a + s.length < m.len ∧ ∀ j ≤ s.length, m.byte (a + j) = (s ++ [0]).getD j 0

/-- The little-endian word `v` sits at `a` in `m`, inside it. -/
def Mem.HoldsWord (m : Mem) (a : Nat) (v : BitVec 64) : Prop :=
  a + 8 ≤ m.len ∧ ∀ j < 8, m.byte (a + j) = (v >>> (8 * j)).setWidth 8

/-- `m'` has the length of `m` and its bytes from `b` on. -/
def Mem.SameFrom (m m' : Mem) (b : Nat) : Prop :=
  m'.len = m.len ∧ ∀ j, b ≤ j → m'.byte j = m.byte j

theorem Mem.SameFrom.refl (m : Mem) (b : Nat) : m.SameFrom m b := ⟨rfl, fun _ _ => rfl⟩

/-- Two pushes in a row, the second below the first. -/
theorem Mem.SameFrom.trans {m₁ m₂ m₃ : Mem} {b b' : Nat} (h₁ : m₁.SameFrom m₂ b)
    (h₂ : m₂.SameFrom m₃ b') (hb : b' ≤ b) : m₁.SameFrom m₃ b :=
  ⟨h₂.1.trans h₁.1, fun j hj => (h₂.2 j (by omega)).trans (h₁.2 j hj)⟩

theorem Mem.HoldsCString.frame {m m' : Mem} {a b : Nat} {s : List (BitVec 8)}
    (h : m.HoldsCString a s) (hf : m.SameFrom m' b) (hb : b ≤ a) : m'.HoldsCString a s :=
  ⟨hf.1 ▸ h.1, fun j hj => (hf.2 _ (by omega)).trans (h.2 j hj)⟩

theorem Mem.HoldsWord.frame {m m' : Mem} {a b : Nat} {v : BitVec 64}
    (h : m.HoldsWord a v) (hf : m.SameFrom m' b) (hb : b ≤ a) : m'.HoldsWord a v :=
  ⟨hf.1 ▸ h.1, fun j hj => (hf.2 _ (by omega)).trans (h.2 j hj)⟩

/-- A word that sits at `a` is what `VM.Memory` reads there. -/
theorem Mem.HoldsWord.readLE {m : Mem} {a : Nat} {v : BitVec 64} (h : m.HoldsWord a v) :
    readLE m (BitVec.ofNat 64 a) 8 = .ok v := by
  have hlen := m.len_lt
  have ha : (BitVec.ofNat 64 a).toNat = a := by
    have := h.1
    rw [BitVec.toNat_ofNat]
    omega
  obtain ⟨r, hr, hbits⟩ := readLE_ok m (BitVec.ofNat 64 a) 8 (by rw [ha]; exact h.1)
  rw [hr]
  congr 1
  ext ⟨t, ht⟩
  rw [hbits t ht, ha, h.2 (t / 8) (by omega), BitVec.getLsbD_setWidth,
    BitVec.getLsbD_ushiftRight]
  simp only [show t < 8 * 8 from ht, show t % 8 < 8 from Nat.mod_lt _ (by decide), decide_True,
    Bool.true_and]
  rw [Nat.div_add_mod]

/-! ## One push -/

/-- `writeBytes` from index `i` writes `bs` at `a + i` on, and nothing else. -/
theorem writeBytes_ok (a : BitVec 64) :
    ∀ (bs : List (BitVec 8)) (m : Mem) (i : Nat), a.toNat + i + bs.length ≤ m.len →
      ∃ m', writeBytes m a i bs = .ok m' ∧ m'.len = m.len ∧
        ∀ j, m'.byte j = if a.toNat + i ≤ j ∧ j < a.toNat + i + bs.length
          then bs.getD (j - (a.toNat + i)) 0 else m.byte j
  | [], m, _, _ => ⟨m, rfl, rfl, fun j => by rw [if_neg (by simp)]⟩
  | b :: bs, m, i, h => by
    have hai : a.toNat + i < m.len := by simp at h; omega
    obtain ⟨m₁, h₁, hl₁, hb₁⟩ := Mem.set_ok b ((toNat_add_ofNat hai).symm ▸ hai)
    obtain ⟨m₂, h₂, hl₂, hb₂⟩ := writeBytes_ok a bs m₁ (i + 1) (by simp at h; omega)
    refine ⟨m₂, by rw [writeBytes, h₁]; exact h₂, hl₂.trans hl₁, fun j => ?_⟩
    rw [hb₂, hb₁, toNat_add_ofNat hai]
    by_cases hj : j = a.toNat + i
    · subst hj
      simp
    · by_cases hr : a.toNat + (i + 1) ≤ j ∧ j < a.toNat + (i + 1) + bs.length
      · rw [if_pos hr, if_pos (by simp; omega), show j - (a.toNat + i) = j - (a.toNat + (i + 1)) + 1 by
          omega]
        rfl
      · rw [if_neg hr, if_neg hj, if_neg (by simp; omega)]

/-- **`pushCString`** moves `SP` down by `len(s) + 1`, writes `s` and its NUL
there, and leaves every byte from the old `SP` on as it was. -/
theorem pushCString_ok (vm : VM) (s : List (BitVec 8)) (hsp : (vm.reg SP).toNat ≤ vm.mem.len)
    (hs : s.length + 1 ≤ (vm.reg SP).toNat) :
    ∃ vm', vm.pushCString s = .ok vm' ∧ (vm'.reg SP).toNat = (vm.reg SP).toNat - (s.length + 1) ∧
      vm.mem.SameFrom vm'.mem (vm.reg SP).toNat ∧ vm'.mem.HoldsCString (vm'.reg SP).toNat s := by
  obtain ⟨sp, hsp'⟩ : ∃ sp, vm.reg SP - BitVec.ofNat 64 (s.length + 1) = sp := ⟨_, rfl⟩
  have h' : sp.toNat = (vm.reg SP).toNat - (s.length + 1) := by
    have := vm.mem.len_lt
    rw [← hsp', BitVec.toNat_sub, BitVec.toNat_ofNat]
    omega
  obtain ⟨m₁, h₁, hl₁, hb₁⟩ := writeBytes_ok sp s vm.mem 0 (by omega)
  have hend : sp.toNat + s.length < m₁.len := by omega
  obtain ⟨m₂, h₂, hl₂, hb₂⟩ := Mem.set_ok 0 ((toNat_add_ofNat hend).symm ▸ hend)
  rw [toNat_add_ofNat hend] at hb₂
  refine ⟨{ vm.setSP sp with mem := m₂ }, ?_, by simpa using h', ⟨hl₂.trans hl₁, fun j hj => ?_⟩,
    ⟨by simp only [VM.setSP_reg_SP]; omega, fun j hj => ?_⟩⟩
  · simp only [VM.pushCString, VM.setSP_reg_SP, VM.setSP_mem, hsp', h₁, h₂, bind, Except.bind,
      pure, Except.pure]
  · rw [hb₂, hb₁, if_neg (by omega), if_neg (by omega)]
  · simp only [VM.setSP_reg_SP]
    rw [hb₂, hb₁]
    rcases Nat.lt_or_ge j s.length with hj' | hj'
    · rw [if_neg (by omega), if_pos (by omega), List.getD_append _ _ _ _ hj']
      congr 1
      omega
    · obtain rfl : j = s.length := by omega
      rw [if_pos rfl, List.getD_append_right _ _ _ _ le_rfl]
      simp

/-- **`pushUint64`** moves `SP` down by 8, writes `v` there, and leaves every
byte from the old `SP` on as it was. -/
theorem pushUint64_ok (vm : VM) (v : BitVec 64) (hsp : (vm.reg SP).toNat ≤ vm.mem.len)
    (h8 : 8 ≤ (vm.reg SP).toNat) :
    ∃ vm', vm.pushUint64 v = .ok vm' ∧ (vm'.reg SP).toNat = (vm.reg SP).toNat - 8 ∧
      vm.mem.SameFrom vm'.mem (vm.reg SP).toNat ∧ vm'.mem.HoldsWord (vm'.reg SP).toNat v := by
  obtain ⟨sp, hsp'⟩ : ∃ sp, vm.reg SP - 8 = sp := ⟨_, rfl⟩
  have h' : sp.toNat = (vm.reg SP).toNat - 8 := by
    rw [← hsp', BitVec.toNat_sub]
    have := (vm.reg SP).isLt
    simp only [show (8 : BitVec 64).toNat = 8 from rfl]
    omega
  obtain ⟨m, hw, hl, hb⟩ := writeLE_ok vm.mem sp v 8 (by omega)
  refine ⟨{ vm.setSP sp with mem := m }, ?_, by simpa using h', ⟨hl, fun j hj => ?_⟩,
    ⟨by simp only [VM.setSP_reg_SP]; omega, fun j hj => ?_⟩⟩
  · simp only [VM.pushUint64, VM.setSP_reg_SP, VM.setSP_mem, hsp', hw, bind, Except.bind, pure,
      Except.pure]
  · rw [hb, if_neg (by omega)]
  · simp only [VM.setSP_reg_SP]
    rw [hb, if_pos (by omega), Nat.add_sub_cancel_left]

/-! ## The loops -/

/-- The bytes the strings `ss` take on the stack, each with its NUL. -/
def cstringsLen (ss : List (List (BitVec 8))) : Nat := (ss.map (·.length + 1)).sum

@[simp] theorem cstringsLen_nil : cstringsLen [] = 0 := rfl

@[simp] theorem cstringsLen_cons (s : List (BitVec 8)) (ss : List (List (BitVec 8))) :
    cstringsLen (s :: ss) = s.length + 1 + cstringsLen ss := by
  simp [cstringsLen]

/-- The strings `ss` sit one right after another from `a` on, each with its
NUL, and `as` lists where each one starts. -/
def Mem.HoldsCStrings (m : Mem) : Nat → List (BitVec 64) → List (List (BitVec 8)) → Prop
  | _, [], [] => True
  | a, b :: as, s :: ss => b.toNat = a ∧ m.HoldsCString a s ∧ m.HoldsCStrings (a + s.length + 1) as ss
  | _, _, _ => False

theorem Mem.HoldsCStrings.length_eq {m : Mem} :
    ∀ {a : Nat} {as : List (BitVec 64)} {ss : List (List (BitVec 8))},
      m.HoldsCStrings a as ss → as.length = ss.length
  | _, [], [], _ => rfl
  | _, _ :: _, _ :: _, ⟨_, _, h⟩ => congrArg (· + 1) h.length_eq
  | _, [], _ :: _, h => False.elim h
  | _, _ :: _, [], h => False.elim h

theorem Mem.HoldsCStrings.frame {m m' : Mem} {b : Nat} (hf : m.SameFrom m' b) :
    ∀ {a : Nat} {as : List (BitVec 64)} {ss : List (List (BitVec 8))},
      m.HoldsCStrings a as ss → b ≤ a → m'.HoldsCStrings a as ss
  | _, [], [], _, _ => trivial
  | _, _ :: _, _ :: _, ⟨ha, hs, h⟩, hb => ⟨ha, hs.frame hf hb, h.frame hf (by omega)⟩
  | _, [], _ :: _, h, _ => False.elim h
  | _, _ :: _, [], h, _ => False.elim h

/-- Two runs of strings, the second starting where the first ends. -/
theorem Mem.HoldsCStrings.append {m : Mem} :
    ∀ {a : Nat} {as bs : List (BitVec 64)} {ss ts : List (List (BitVec 8))},
      m.HoldsCStrings a as ss → m.HoldsCStrings (a + cstringsLen ss) bs ts →
        m.HoldsCStrings a (as ++ bs) (ss ++ ts)
  | _, [], _, [], _, _, h => h
  | _, _ :: _, _, s :: _, _, ⟨ha, hs, h⟩, h' =>
    ⟨ha, hs, h.append (by rwa [cstringsLen_cons, ← Nat.add_assoc, ← Nat.add_assoc] at h')⟩
  | _, [], _, _ :: _, _, h, _ => False.elim h
  | _, _ :: _, _, [], _, h, _ => False.elim h

/-- **The string loop** pushes every string of `ss`, last first, and appends
the address of each to `addrs`: from the final `SP` on, the strings sit in
their list order, one right after another. -/
theorem pushCStrings_ok :
    ∀ (ss : List (List (BitVec 8))) (vm : VM) (addrs : List (BitVec 64)),
      (vm.reg SP).toNat ≤ vm.mem.len → cstringsLen ss ≤ (vm.reg SP).toNat →
      ∃ vm' L, vm.pushCStrings addrs ss = .ok (vm', addrs ++ L.reverse) ∧
        (vm'.reg SP).toNat = (vm.reg SP).toNat - cstringsLen ss ∧
        vm.mem.SameFrom vm'.mem (vm.reg SP).toNat ∧ vm'.mem.HoldsCStrings (vm'.reg SP).toNat L ss
  | [], vm, addrs, _, _ =>
    ⟨vm, [], by simp [VM.pushCStrings]; rfl, by simp, Mem.SameFrom.refl _ _, trivial⟩
  | s :: ss, vm, addrs, hsp, hs => by
    rw [cstringsLen_cons] at hs
    obtain ⟨vm₁, L₁, h₁, hsp₁, hf₁, hL₁⟩ := pushCStrings_ok ss vm addrs hsp (by omega)
    obtain ⟨vm₂, h₂, hsp₂, hf₂, hs₂⟩ := pushCString_ok vm₁ s (by rw [hf₁.1]; omega) (by omega)
    refine ⟨vm₂, vm₂.reg SP :: L₁, ?_, by rw [cstringsLen_cons]; omega, hf₁.trans hf₂ (by omega),
      rfl, hs₂, ?_⟩
    · simp only [VM.pushCStrings, h₁, h₂, bind, Except.bind, pure, Except.pure, List.reverse_cons,
        List.append_assoc]
    · rw [show (vm₂.reg SP).toNat + s.length + 1 = (vm₁.reg SP).toNat by omega]
      exact hL₁.frame hf₂ le_rfl

/-- **The pointer loop** pushes the words of `as` in order: the word at
`8 * u` above the final `SP` is the `len(as) - 1 - u`-th. -/
theorem pushUint64s_ok :
    ∀ (as : List (BitVec 64)) (vm : VM),
      (vm.reg SP).toNat ≤ vm.mem.len → 8 * as.length ≤ (vm.reg SP).toNat →
      ∃ vm', vm.pushUint64s as = .ok vm' ∧ (vm'.reg SP).toNat = (vm.reg SP).toNat - 8 * as.length ∧
        vm.mem.SameFrom vm'.mem (vm.reg SP).toNat ∧
        ∀ u < as.length, vm'.mem.HoldsWord ((vm'.reg SP).toNat + 8 * u) (as.getD (as.length - 1 - u) 0)
  | [], vm, _, _ => ⟨vm, rfl, by simp, Mem.SameFrom.refl _ _, fun u hu => absurd hu (Nat.not_lt_zero u)⟩
  | a :: as, vm, hsp, h8 => by
    rw [List.length_cons] at h8
    obtain ⟨vm₁, h₁, hsp₁, hf₁, ha₁⟩ := pushUint64_ok vm a hsp (by omega)
    obtain ⟨vm₂, h₂, hsp₂, hf₂, hw₂⟩ := pushUint64s_ok as vm₁ (by rw [hf₁.1]; omega) (by omega)
    refine ⟨vm₂, by simp only [VM.pushUint64s, h₁, h₂, bind, Except.bind], by simp; omega,
      hf₁.trans hf₂ (by omega), fun u hu => ?_⟩
    rw [List.length_cons] at hu ⊢
    rcases Nat.lt_or_ge u as.length with hu' | hu'
    · rw [show as.length + 1 - 1 - u = as.length - 1 - u + 1 by omega, List.getD_cons_succ]
      exact hw₂ u hu'
    · obtain rfl : u = as.length := by omega
      rw [show as.length + 1 - 1 - as.length = 0 by omega, List.getD_cons_zero,
        show (vm₂.reg SP).toNat + 8 * as.length = (vm₁.reg SP).toNat by omega]
      exact ha₁.frame hf₂ le_rfl

/-! ## Sizes and addresses -/

theorem makeMem_ok (n : BitVec 64) (h : n.toNat ≤ maxAlloc) :
    ∃ m, makeMem n = .ok m ∧ m.len = n.toNat :=
  ⟨_, dif_pos h, by simp [Mem.len]⟩

/-- The size loops do not wrap while the total stays below `2^64`. -/
theorem cstringsSize_toNat :
    ∀ (ss : List (List (BitVec 8))) (n : BitVec 64), n.toNat + cstringsLen ss < 2 ^ 64 →
      (cstringsSize n ss).toNat = n.toNat + cstringsLen ss
  | [], _, _ => rfl
  | s :: ss, n, h => by
    rw [cstringsLen_cons] at h
    have hn : (n + BitVec.ofNat 64 (s.length + 1)).toNat = n.toNat + (s.length + 1) := by
      rw [BitVec.toNat_add, BitVec.toNat_ofNat]
      omega
    rw [cstringsSize, List.foldl_cons, ← cstringsSize, cstringsSize_toNat ss _ (by omega), hn,
      cstringsLen_cons]
    omega

/-- `x &^ 7` rounds down to a multiple of 8. -/
theorem and_not_seven_toNat (x : BitVec 64) : (x &&& ~~~(7 : BitVec 64)).toNat = x.toNat / 8 * 8 := by
  have h : x &&& ~~~(7 : BitVec 64) = x >>> 3 <<< 3 := by
    ext ⟨i, hi⟩
    simp only [BitVec.getLsbD_and, BitVec.getLsbD_not, BitVec.getLsbD_shiftLeft,
      BitVec.getLsbD_ushiftRight, hi, decide_True, Bool.true_and]
    rcases Nat.lt_or_ge i 3 with h3 | h3
    · interval_cases i <;> simp
    · have : (7 : BitVec 64).getLsbD i = false :=
        Nat.testBit_lt_two_pow (lt_of_lt_of_le (by decide) (Nat.pow_le_pow_right (by decide) h3))
      simp only [this, Bool.not_false, Bool.and_true, show ¬ i < 3 by omega, decide_False,
        Bool.true_and, show 3 + (i - 3) = i by omega]
  rw [h, BitVec.toNat_shiftLeft, BitVec.toNat_ushiftRight, Nat.shiftLeft_eq,
    Nat.shiftRight_eq_div_pow]
  have := x.isLt
  omega

theorem add_ofNat_eq (x : BitVec 64) (c : Nat) :
    x + BitVec.ofNat 64 c = BitVec.ofNat 64 (x.toNat + c) := by
  apply BitVec.eq_of_toNat_eq
  simp only [BitVec.toNat_add, BitVec.toNat_ofNat]
  omega

/-- `VM.Memory(SP + c)` reads a word that sits at `SP + c`. -/
theorem memory_of_holdsWord {vm : VM} {c : Nat} {v : BitVec 64}
    (h : vm.mem.HoldsWord ((vm.reg SP).toNat + c) v) :
    vm.memory (vm.reg SP + BitVec.ofNat 64 c) = .ok v := by
  rw [VM.memory, add_ofNat_eq]
  exact h.readLE

/-- The address list `NewVM` pushes, `0, env addresses, 0, argv addresses`,
entry by entry. -/
theorem addrTable_getD (Le La : List (BitVec 64)) (u : Nat) :
    ([0] ++ Le ++ [0] ++ La).getD u 0 =
      if u = 0 ∨ u = Le.length + 1 then 0
      else if u ≤ Le.length then Le.getD (u - 1) 0 else La.getD (u - (Le.length + 2)) 0 := by
  rcases Nat.lt_or_ge u (Le.length + 2) with h | h
  · rw [List.getD_append _ _ _ _ (by simp; omega)]
    rcases Nat.lt_or_ge u (Le.length + 1) with h' | h'
    · rw [List.getD_append _ _ _ _ (by simp; omega)]
      rcases u with _ | u
      · simp
      · rw [List.getD_append_right _ _ _ _ (by simp), if_neg (by omega), if_pos (by omega)]
        simp
    · rw [List.getD_append_right _ _ _ _ (by simp; omega), if_pos (by omega)]
      simp [show u - (Le.length + 1) = 0 by omega]
  · rw [List.getD_append_right _ _ _ _ (by simp; omega), if_neg (by omega), if_neg (by omega)]
    simp only [List.length_append, List.length_singleton]
    congr 1
    omega

/-! ## The initial stack -/

/-- **The string loops** of `NewVM`: the `Env` strings, their addresses
appended to `[0]`, then a 0 and the `Argv` strings. From the `SP` the loops
leave, the `Argv` strings and then the `Env` strings sit one right after
another, up to the `SP` they started from. -/
theorem pushStrings_ok (vm : VM) (args envs : List (List (BitVec 8)))
    (hsp : (vm.reg SP).toNat ≤ vm.mem.len)
    (hs : cstringsLen args + cstringsLen envs ≤ (vm.reg SP).toNat) :
    ∃ vm₁ vm₂ Le La, vm.pushCStrings [0] envs = .ok (vm₁, [0] ++ Le.reverse) ∧
      vm₁.pushCStrings ([0] ++ Le.reverse ++ [0]) args =
        .ok (vm₂, [0] ++ Le.reverse ++ [0] ++ La.reverse) ∧
      (vm₂.reg SP).toNat = (vm.reg SP).toNat - cstringsLen envs - cstringsLen args ∧
      vm.mem.SameFrom vm₂.mem (vm.reg SP).toNat ∧ La.length = args.length ∧ Le.length = envs.length ∧
      vm₂.mem.HoldsCStrings (vm₂.reg SP).toNat (La ++ Le) (args ++ envs) := by
  obtain ⟨vm₁, Le, h₁, hsp₁, hf₁, hL₁⟩ := pushCStrings_ok envs vm [0] hsp (by omega)
  obtain ⟨vm₂, La, h₂, hsp₂, hf₂, hL₂⟩ :=
    pushCStrings_ok args vm₁ ([0] ++ Le.reverse ++ [0]) (by rw [hf₁.1]; omega) (by omega)
  refine ⟨vm₁, vm₂, Le, La, h₁, h₂, by omega, hf₁.trans hf₂ (by omega), hL₂.length_eq,
    hL₁.length_eq, hL₂.append ?_⟩
  rw [show (vm₂.reg SP).toNat + cstringsLen args = (vm₁.reg SP).toNat by omega]
  exact hL₁.frame hf₂ le_rfl

/-- **The pointer tables**: `NewVM` aligns `SP` down to 8, pushes the address
list and then `argc`. `argc` sits at the final `SP`, the word `8 * (u + 1)`
above it is entry `len(addrs) - 1 - u` of the list, and nothing from the
aligned `SP` on changes. -/
theorem pushTables_ok (vm : VM) (addrs : List (BitVec 64)) (argc : BitVec 64)
    (hsp : (vm.reg SP).toNat ≤ vm.mem.len)
    (h8 : 8 * (addrs.length + 1) ≤ (vm.reg SP).toNat / 8 * 8) :
    ∃ vm₄ vm₅, (vm.setSP (vm.reg SP &&& ~~~7)).pushUint64s addrs = .ok vm₄ ∧
      vm₄.pushUint64 argc = .ok vm₅ ∧
      (vm₅.reg SP).toNat = (vm.reg SP).toNat / 8 * 8 - 8 * (addrs.length + 1) ∧
      vm.mem.SameFrom vm₅.mem ((vm.reg SP).toNat / 8 * 8) ∧
      vm₅.memory (vm₅.reg SP) = .ok argc ∧
      ∀ u < addrs.length, vm₅.mem.HoldsWord ((vm₅.reg SP).toNat + (8 + 8 * u))
        (addrs.getD (addrs.length - 1 - u) 0) := by
  have hsp₃ : ((vm.setSP (vm.reg SP &&& ~~~7)).reg SP).toNat = (vm.reg SP).toNat / 8 * 8 := by
    rw [VM.setSP_reg_SP, and_not_seven_toNat]
  obtain ⟨vm₄, h₄, hsp₄, hf₄, hw₄⟩ := pushUint64s_ok addrs (vm.setSP (vm.reg SP &&& ~~~7))
    (by rw [hsp₃, VM.setSP_mem]; omega) (by omega)
  rw [hsp₃] at hsp₄ hf₄
  obtain ⟨vm₅, h₅, hsp₅, hf₅, hw₅⟩ :=
    pushUint64_ok vm₄ argc (by rw [hf₄.1, VM.setSP_mem]; omega) (by omega)
  refine ⟨vm₄, vm₅, h₄, h₅, by omega, hf₄.trans hf₅ (by omega), ?_, fun u hu => ?_⟩
  · simpa using memory_of_holdsWord (c := 0) (by simpa using hw₅)
  · have h := (hw₄ u hu).frame hf₅ (by omega)
    rwa [show (vm₄.reg SP).toNat + 8 * u = (vm₅.reg SP).toNat + (8 + 8 * u) by omega] at h

/-- Entry `len - 1 - i` of a reversed list is entry `i` of the list. -/
theorem getD_reverse_sub {α : Type} (L : List α) (d : α) {i : Nat} (h : i < L.length) :
    L.reverse.getD (L.length - 1 - i) d = L.getD i d := by
  simp [List.getD_eq_getElem?_getD, List.getElem?_reverse (show L.length - 1 - i < L.length by omega),
    show L.length - 1 - (L.length - 1 - i) = i by omega]

/-- The table `0, env addresses, 0, argv addresses`, each list pushed last
address first, read back word by word from the final `SP` on: the `argv`
addresses in order, a 0 word, the `env` addresses in order and a 0 word. -/
theorem memory_addrTable {vm : VM} {Le La : List (BitVec 64)}
    (hw : ∀ u < ([0] ++ Le.reverse ++ [0] ++ La.reverse).length,
      vm.mem.HoldsWord ((vm.reg SP).toNat + (8 + 8 * u))
        (([0] ++ Le.reverse ++ [0] ++ La.reverse).getD
          (([0] ++ Le.reverse ++ [0] ++ La.reverse).length - 1 - u) 0)) :
    (∀ i < La.length, vm.memory (vm.reg SP + BitVec.ofNat 64 (8 + 8 * i)) = .ok (La.getD i 0)) ∧
      vm.memory (vm.reg SP + BitVec.ofNat 64 (8 + 8 * La.length)) = .ok 0 ∧
      (∀ j < Le.length, vm.memory (vm.reg SP + BitVec.ofNat 64 (16 + 8 * La.length + 8 * j)) =
        .ok (Le.getD j 0)) ∧
      vm.memory (vm.reg SP + BitVec.ofNat 64 (16 + 8 * La.length + 8 * Le.length)) = .ok 0 := by
  have hlen : ([0] ++ Le.reverse ++ [0] ++ La.reverse).length = La.length + Le.length + 2 := by
    simp only [List.length_append, List.length_singleton, List.length_reverse]
    omega
  rw [hlen] at hw
  refine ⟨fun i hi => memory_of_holdsWord ?_, memory_of_holdsWord ?_,
    fun j hj => memory_of_holdsWord ?_, memory_of_holdsWord ?_⟩
  · have h := hw i (by omega)
    rwa [addrTable_getD, List.length_reverse, if_neg (by omega), if_neg (by omega),
      show La.length + Le.length + 2 - 1 - i - (Le.length + 2) = La.length - 1 - i by omega,
      getD_reverse_sub _ _ hi] at h
  · have h := hw La.length (by omega)
    rwa [addrTable_getD, List.length_reverse, if_pos (by omega)] at h
  · have h := hw (La.length + 1 + j) (by omega)
    rwa [addrTable_getD, List.length_reverse, if_neg (by omega), if_pos (by omega),
      show La.length + Le.length + 2 - 1 - (La.length + 1 + j) - 1 = Le.length - 1 - j by omega,
      getD_reverse_sub _ _ hj,
      show 8 + 8 * (La.length + 1 + j) = 16 + 8 * La.length + 8 * j by omega] at h
  · have h := hw (La.length + 1 + Le.length) (by omega)
    rwa [addrTable_getD, List.length_reverse, if_pos (by omega),
      show 8 + 8 * (La.length + 1 + Le.length) = 16 + 8 * La.length + 8 * Le.length by omega] at h

/-- **The initial stack of `NewVM`.** For every program with `Argv` or `Env`
set whose memory, `M + S + 8 * (len(argv) + len(env) + 3)` bytes with `S`
the bytes of the strings and their NULs, is within `maxAlloc`, `NewVM`
returns a machine with that much memory and `SP = M` rounded down to 8,
where `VM.Memory` reads `argc`; above it the `argv` table and a 0 word, then
the `envp` table and a 0 word. From `M mod 8` bytes above the tables to the
end of memory sit the copies of the `argv` strings and then of the `env`
strings, each with its NUL, one right after another, each at the address its
table holds. -/
theorem newVM_stack (p : Prog) (hp : p.argv.isSome ∨ p.env.isSome)
    (hfit : p.memSize.toNat + cstringsLen p.args + cstringsLen p.envs +
      8 * (p.args.length + p.envs.length + 3) ≤ maxAlloc) :
    ∃ vm argvp envp, newVM p = .ok vm ∧
      vm.mem.len = p.memSize.toNat + cstringsLen p.args + cstringsLen p.envs +
        8 * (p.args.length + p.envs.length + 3) ∧
      (vm.reg SP).toNat = p.memSize.toNat / 8 * 8 ∧
      vm.memory (vm.reg SP) = .ok (BitVec.ofNat 64 p.args.length) ∧
      argvp.length = p.args.length ∧ envp.length = p.envs.length ∧
      (∀ i < p.args.length,
        vm.memory (vm.reg SP + BitVec.ofNat 64 (8 + 8 * i)) = .ok (argvp.getD i 0)) ∧
      vm.memory (vm.reg SP + BitVec.ofNat 64 (8 + 8 * p.args.length)) = .ok 0 ∧
      (∀ j < p.envs.length,
        vm.memory (vm.reg SP + BitVec.ofNat 64 (16 + 8 * p.args.length + 8 * j)) =
          .ok (envp.getD j 0)) ∧
      vm.memory (vm.reg SP + BitVec.ofNat 64 (16 + 8 * p.args.length + 8 * p.envs.length)) =
        .ok 0 ∧
      vm.mem.HoldsCStrings ((vm.reg SP).toNat + 8 * (p.args.length + p.envs.length + 3) +
        p.memSize.toNat % 8) (argvp ++ envp) (p.args ++ p.envs) := by
  have hmax : maxAlloc < 2 ^ 63 := by decide
  have hT : (cstringsSize (cstringsSize p.memSize p.envs) p.args +
      BitVec.ofNat 64 (1 + p.envs.length + 1 + p.args.length + 1) * 8).toNat =
      p.memSize.toNat + cstringsLen p.args + cstringsLen p.envs +
        8 * (p.args.length + p.envs.length + 3) := by
    rw [BitVec.toNat_add, BitVec.toNat_mul, cstringsSize_toNat _ _ (by
      rw [cstringsSize_toNat _ _ (by omega)]; omega), cstringsSize_toNat _ _ (by omega),
      BitVec.toNat_ofNat, show (8 : BitVec 64).toNat = 8 from rfl]
    omega
  generalize hTe : cstringsSize (cstringsSize p.memSize p.envs) p.args +
    BitVec.ofNat 64 (1 + p.envs.length + 1 + p.args.length + 1) * 8 = T at hT
  have hnone : ¬(p.argv.isNone = true ∧ p.env.isNone = true) := fun ⟨h1, h2⟩ => by
    rw [Option.isNone_iff_eq_none] at h1 h2
    simp [h1, h2] at hp
  obtain ⟨mem₀, hm₀, -⟩ := makeMem_ok p.memSize (by omega)
  obtain ⟨mem, hm, hl₀⟩ := makeMem_ok T (by omega)
  have hsp₀ : ((VM.fresh p.start mem).setSP T).reg SP = T := VM.setSP_reg_SP _ _
  obtain ⟨vm₁, vm₂, Le, La, h₁, h₂, hsp₂, hf₂, hla, hle, hstr⟩ :=
    pushStrings_ok ((VM.fresh p.start mem).setSP T) p.args p.envs (by rw [hsp₀]; exact hl₀.ge)
      (by rw [hsp₀]; omega)
  rw [hsp₀] at hsp₂
  have hlen : ([0] ++ Le.reverse ++ [0] ++ La.reverse).length = p.args.length + p.envs.length + 2 := by
    simp only [List.length_append, List.length_singleton, List.length_reverse, hle, hla]
    omega
  obtain ⟨vm₄, vm₅, h₄, h₅, hsp₅, hf₅, hargc, hw⟩ :=
    pushTables_ok vm₂ ([0] ++ Le.reverse ++ [0] ++ La.reverse) (BitVec.ofNat 64 p.args.length)
      (by rw [hf₂.1]; exact hl₀.ge.trans' (by omega)) (by rw [hlen]; omega)
  obtain ⟨hargv, hnil, henv, hnil'⟩ := memory_addrTable hw
  simp only [hla, hle] at hargv hnil henv hnil'
  refine ⟨vm₅, La, Le, ?_, hf₅.1.trans (hf₂.1.trans (hl₀.trans hT)), by omega, hargc, hla, hle,
    hargv, hnil, henv, hnil', ?_⟩
  · simp only [newVM, hm₀, bind, Except.bind, hnone, if_false, pure, Except.pure, hTe, hm, h₁, h₂,
      h₄, h₅]
  · rw [show (vm₅.reg SP).toNat + 8 * (p.args.length + p.envs.length + 3) + p.memSize.toNat % 8 =
      (vm₂.reg SP).toNat by omega]
    exact hstr.frame hf₅ (by omega)

/-- A program run as `echo` with environment `A=1` in `0x1001` bytes, a size
that is not a multiple of 8. -/
def echoProg : Prog :=
  { argv := some [[0x65, 0x63, 0x68, 0x6F]], env := some [[0x41, 0x3D, 0x31]], start := 0,
    memSize := 0x1001 }

theorem newVM_stack_echo :
    ∃ vm, newVM echoProg = .ok vm ∧ (vm.reg SP).toNat = 0x1000 ∧
      vm.memory (vm.reg SP) = .ok 1 := by
  obtain ⟨vm, -, -, h, -, hsp, hargc, -⟩ := newVM_stack echoProg (by decide) (by decide)
  exact ⟨vm, h, hsp.trans (by decide), hargc⟩

/-! ## Allocation limits -/

/-- One empty argument and `MemSize = 2^63 - 1`: the sizes add up to
`2^63 + 32`, well inside `uint64`. -/
def hugeProg : Prog := { argv := some [[]], env := none, start := 0, memSize := 0x7FFFFFFFFFFFFFFF }

/-- **`NewVM` panics when memory passes the allocation limit.** The size sum
of `hugeProg` does not wrap, but already the first `make([]byte, p.MemSize)`
asks for more than `maxAlloc` bytes and panics, so no machine is returned. -/
theorem newVM_large_panics :
    hugeProg.memSize.toNat + cstringsLen hugeProg.args + cstringsLen hugeProg.envs +
        8 * (hugeProg.args.length + hugeProg.envs.length + 3) < 2 ^ 64 ∧
      newVM hugeProg = .error .makeSliceLen := by
  have hbig : makeMem hugeProg.memSize = .error .makeSliceLen := dif_neg (by decide)
  exact ⟨by decide, by simp only [newVM, hbig, bind, Except.bind]⟩

end RiscvEmu
