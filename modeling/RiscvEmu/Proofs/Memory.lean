import RiscvEmu.Proofs.Step

/-!
# Memory: stores, loads and `VM.Memory`

The stores write `width` little-endian bytes with one `vm.Mem[a+k] = ...`
per byte, and the loads and `VM.Memory` read them back the same way
(`writeLE`, `readLE`). Inside memory the address sums `a + k` do not wrap,
because a Go slice is shorter than `2^63`; `writeLE_ok` and `readLE_ok`
give the bytes written and the bits read, and `writeLE_readLE` puts them
together: the load of a store returns the low `8 * width` bits of the
stored value. `store_load_pairs` lifts this to the seven store/load pairs
of the ISA, through the handlers `Decode` dispatches to.
-/

namespace RiscvEmu

/-! ## Bytes -/

/-- Byte `j` of memory, `0` past its end. -/
def Mem.byte (m : Mem) (j : Nat) : BitVec 8 := m.bytes.getD j 0

theorem Mem.len_lt (m : Mem) : m.len < 2 ^ 63 := m.size_lt

theorem Mem.get_ok {m : Mem} {a : BitVec 64} (h : a.toNat < m.len) :
    m.get a = .ok (m.byte a.toNat) := by
  unfold Mem.get Mem.byte Mem.len at *
  rw [dif_pos h, Array.getD, dif_pos h]
  rfl

theorem Mem.set_ok {m : Mem} {a : BitVec 64} (b : BitVec 8) (h : a.toNat < m.len) :
    ∃ m', m.set a b = .ok m' ∧ m'.len = m.len ∧
      ∀ j, m'.byte j = if j = a.toNat then b else m.byte j := by
  refine ⟨_, dif_pos h, by simp [Mem.len], fun j => ?_⟩
  simp only [Mem.byte, Array.getD_eq_get?]
  split_ifs with hj
  · subst hj
    exact congrArg (·.getD 0) (Array.getElem?_set_eq m.bytes ⟨a.toNat, h⟩ b)
  · exact congrArg (·.getD 0) (Array.getElem?_set_ne m.bytes ⟨a.toNat, h⟩ b (Ne.symm hj))

theorem toNat_add_ofNat {m : Mem} {a : BitVec 64} {k : Nat} (h : a.toNat + k < m.len) :
    (a + BitVec.ofNat 64 k).toNat = a.toNat + k := by
  have := m.len_lt
  rw [BitVec.toNat_add, BitVec.toNat_ofNat]
  omega

/-! ## The byte loops -/

/-- **The bytes a store writes**: byte `k` of `v` goes to `a + k`, for
`k < n`, and every other byte is kept. -/
theorem writeLE_ok (m : Mem) (a v : BitVec 64) :
    ∀ k, a.toNat + k ≤ m.len → ∃ m', writeLE m a v k = .ok m' ∧ m'.len = m.len ∧
      ∀ j, m'.byte j = if a.toNat ≤ j ∧ j < a.toNat + k
        then (v >>> (8 * (j - a.toNat))).setWidth 8 else m.byte j
  | 0, _ => ⟨m, rfl, rfl, fun j => by rw [if_neg (by omega)]⟩
  | k + 1, h => by
    obtain ⟨m1, h1, hl1, hb1⟩ := writeLE_ok m a v k (by omega)
    have hak : (a + BitVec.ofNat 64 k).toNat = a.toNat + k :=
      toNat_add_ofNat (show a.toNat + k < m.len by omega)
    have hlt : (a + BitVec.ofNat 64 k).toNat < m1.len := by omega
    obtain ⟨m2, h2, hl2, hb2⟩ := Mem.set_ok ((v >>> (8 * k)).setWidth 8) hlt
    refine ⟨m2, by rw [writeLE, h1]; exact h2, hl2.trans hl1, fun j => ?_⟩
    rw [hb2, hb1, hak]
    by_cases hj : j = a.toNat + k
    · rw [if_pos hj, if_pos (by omega), hj, Nat.add_sub_cancel_left]
    · rw [if_neg hj]
      by_cases hr : a.toNat ≤ j ∧ j < a.toNat + k
      · rw [if_pos hr, if_pos (by omega)]
      · rw [if_neg hr, if_neg (by omega)]

/-- **The bits a load reads**: bit `t` of the result is bit `t % 8` of the
byte at `a + t / 8`, for `t < 8 * n`, and 0 above. -/
theorem readLE_ok (m : Mem) (a : BitVec 64) :
    ∀ k, a.toNat + k ≤ m.len → ∃ r, readLE m a k = .ok r ∧
      ∀ t < 64, r.getLsbD t = (decide (t < 8 * k) && (m.byte (a.toNat + t / 8)).getLsbD (t % 8))
  | 0, _ => ⟨0, rfl, fun t _ => by simp⟩
  | k + 1, h => by
    obtain ⟨r, h1, hr⟩ := readLE_ok m a k (by omega)
    have hak : (a + BitVec.ofNat 64 k).toNat = a.toNat + k :=
      toNat_add_ofNat (show a.toNat + k < m.len by omega)
    refine ⟨r ||| (m.byte (a.toNat + k)).setWidth 64 <<< (8 * k), ?_, fun t ht => ?_⟩
    · rw [readLE, h1, Mem.get_ok (by omega), hak]; rfl
    simp only [BitVec.getLsbD_or, BitVec.getLsbD_shiftLeft, BitVec.getLsbD_setWidth, hr t ht]
    by_cases h1 : t < 8 * k
    · simp [h1, ht, show t < 8 * (k + 1) by omega]
    by_cases h2 : t < 8 * k + 8
    · have hq : t / 8 = k := by omega
      have hm : t % 8 = t - 8 * k := by omega
      simp [h1, ht, hq, hm, show t < 8 * (k + 1) by omega, show t - 8 * k < 64 by omega]
    · simp [h1, ht, show ¬ t < 8 * (k + 1) by omega, show t - 8 * k < 64 by omega,
        BitVec.getLsbD_ge (m.byte (a.toNat + k)) (t - 8 * k) (by omega)]


/-- Reading back `n` bytes just written gives the low `8 * n` bits of the
value. -/
theorem writeLE_readLE (m : Mem) (a v : BitVec 64) (N : Nat) (h : a.toNat + N ≤ m.len) :
    ∃ m', writeLE m a v N = .ok m' ∧ m'.len = m.len ∧
      (∀ j, m'.byte j = if a.toNat ≤ j ∧ j < a.toNat + N
        then (v >>> (8 * (j - a.toNat))).setWidth 8 else m.byte j) ∧
      readLE m' a N = .ok ((v.setWidth (8 * N)).setWidth 64) := by
  obtain ⟨m', hw, hl, hb⟩ := writeLE_ok m a v N h
  obtain ⟨r, hr, hbits⟩ := readLE_ok m' a N (hl ▸ h)
  refine ⟨m', hw, hl, hb, hr.trans (congrArg Except.ok ?_)⟩
  ext t
  rw [hbits t t.isLt, BitVec.getLsbD_setWidth, BitVec.getLsbD_setWidth]
  by_cases ht : t.val < 8 * N
  · have hj : a.toNat ≤ a.toNat + t.val / 8 ∧ a.toNat + t.val / 8 < a.toNat + N := by omega
    simp only [hb, if_pos hj, Nat.add_sub_cancel_left, BitVec.getLsbD_setWidth,
      BitVec.getLsbD_ushiftRight, Nat.div_add_mod, ht, t.isLt, Nat.mod_lt _ (by decide : 8 > 0),
      decide_True, Bool.true_and]
  · simp [ht]

/-! ## The handlers -/

/-- `vm.address in` for a 12-bit immediate: the base plus the immediate
sign-extended from 12 bits. -/
theorem address_eq (vm : VM) (i : Instruction) (h : i.imm.toNat < 2 ^ 12) :
    vm.address i = vm.reg i.rs1 + (i.imm.setWidth 12).signExtend 64 :=
  congrArg (vm.reg i.rs1 + ·) (signExtend_eq_signExtend i.imm 11 h)

theorem storeBytes_ok (N : Nat) (vm : VM) (i : Instruction)
    (h : (vm.address i).toNat + N ≤ vm.mem.len) :
    ∃ m, storeBytes N vm i = .ok ⟨{}, none, { vm with mem := m }⟩ ∧ m.len = vm.mem.len ∧
      (∀ j, m.byte j = if (vm.address i).toNat ≤ j ∧ j < (vm.address i).toNat + N
        then (vm.reg i.rs2 >>> (8 * (j - (vm.address i).toNat))).setWidth 8 else vm.mem.byte j) ∧
      readLE m (vm.address i) N = .ok (((vm.reg i.rs2).setWidth (8 * N)).setWidth 64) := by
  obtain ⟨m, hw, hl, hb, hr⟩ := writeLE_readLE vm.mem (vm.address i) (vm.reg i.rs2) N h
  exact ⟨m, by unfold storeBytes; rw [hw]; rfl, hl, hb, hr⟩

theorem load_ok {N : Nat} {ext : BitVec 64 → BitVec 64} {vm : VM} {i : Instruction}
    {v x : BitVec 64} (h : readLE vm.mem (vm.address i) N = .ok v) (hx : ext v = x) :
    load N ext vm i = .ok ⟨{}, none, vm.store i.rd x⟩ := by
  unfold load; rw [h, ← hx]; rfl

/-- What a load of `N` bytes makes of the low `8 * N` bits of `v`:
sign-extended for the signed loads, zero-extended otherwise. -/
def loadValue (signed : Bool) (N : Nat) (v : BitVec 64) : BitVec 64 :=
  if signed then (v.setWidth (8 * N)).signExtend 64 else (v.setWidth (8 * N)).setWidth 64

/-- The store/load pairs of one width: the store, the load, the width in
bytes, and whether the load sign-extends. -/
def memPairs : List (Op × Op × Nat × Bool) :=
  [(.sb, .lb, 1, true), (.sb, .lbu, 1, false), (.sh, .lh, 2, true), (.sh, .lhu, 2, false),
   (.sw, .lw, 4, true), (.sw, .lwu, 4, false), (.sd, .ld, 8, false)]

/-- **Store, then load**: for each store/load pair of width `N`, every
machine, every base and value register and every 12-bit immediate whose
address `a` has `a + N` bytes of memory: the store writes the `N`
little-endian bytes of the value to `Mem[a..a+N)` and changes nothing else
(no other byte, no register, no other field of the machine); a load from
`a` that follows writes the low `8N` bits of the value, sign- or
zero-extended, to its `rd`; and after `sd`, `VM.Memory(a)` is the value. -/
theorem store_load_pairs (host : Host) (vm : VM) (stOp ldOp : Op) (N : Nat) (signed : Bool)
    (hp : (stOp, ldOp, N, signed) ∈ memPairs) (i : Instruction) (rd : Fin 32)
    (himm : i.imm.toNat < 2 ^ 12)
    (ha : (vm.reg i.rs1 + (i.imm.setWidth 12).signExtend 64).toNat + N ≤ vm.mem.len) :
    let a := vm.reg i.rs1 + (i.imm.setWidth 12).signExtend 64
    let v := vm.reg i.rs2
    ∃ m, stOp.exec host vm i = .ok ⟨{}, none, { vm with mem := m }⟩ ∧ m.len = vm.mem.len ∧
      (∀ j, m.byte j = if a.toNat ≤ j ∧ j < a.toNat + N
        then (v >>> (8 * (j - a.toNat))).setWidth 8 else vm.mem.byte j) ∧
      ldOp.exec host { vm with mem := m } { i with fn := ldOp, rd := rd } =
        .ok ⟨{}, none, { vm with mem := m }.store rd (loadValue signed N v)⟩ ∧
      (stOp = .sd → { vm with mem := m }.memory a = .ok v) := by
  intro a v
  have haddr : vm.address i = a := address_eq vm i himm
  obtain ⟨m, hs, hl, hb, hr⟩ := storeBytes_ok N vm i (haddr ▸ ha)
  rw [haddr] at hb
  simp only [memPairs, List.mem_cons, Prod.mk.injEq, List.mem_nil_iff, or_false] at hp
  rcases hp with ⟨rfl, rfl, rfl, rfl⟩ | ⟨rfl, rfl, rfl, rfl⟩ | ⟨rfl, rfl, rfl, rfl⟩ |
    ⟨rfl, rfl, rfl, rfl⟩ | ⟨rfl, rfl, rfl, rfl⟩ | ⟨rfl, rfl, rfl, rfl⟩ | ⟨rfl, rfl, rfl, rfl⟩
  · exact ⟨m, hs, hl, hb, load_ok hr (signExtend_setWidth 7 (v.setWidth 8)), nofun⟩
  · exact ⟨m, hs, hl, hb, load_ok hr rfl, nofun⟩
  · exact ⟨m, hs, hl, hb, load_ok hr (signExtend_setWidth 15 (v.setWidth 16)), nofun⟩
  · exact ⟨m, hs, hl, hb, load_ok hr rfl, nofun⟩
  · exact ⟨m, hs, hl, hb, load_ok hr (signExtend_setWidth 31 (v.setWidth 32)), nofun⟩
  · exact ⟨m, hs, hl, hb, load_ok hr rfl, nofun⟩
  · refine ⟨m, hs, hl, hb, load_ok hr rfl, fun _ => ?_⟩
    rw [VM.memory, ← haddr]
    exact hr

/-- `sw x2, 0(x0)` with `x2 = 0x80000000`, on eight zero bytes. -/
def swMachine : VM :=
  VM.boot (Array.mkArray 8 0) (by decide) fun r => if r = 2 then 0x80000000 else 0

def swX2 : Instruction := { fn := .sw, rs2 := 2 }

theorem store_load_pairs_sw :
    ∃ m, Op.sw.exec .complete swMachine swX2 = .ok ⟨{}, none, { swMachine with mem := m }⟩ ∧
      Op.lw.exec .complete { swMachine with mem := m } { swX2 with fn := .lw, rd := 5 } =
        .ok ⟨{}, none, { swMachine with mem := m }.store 5 (loadValue true 4 0x80000000)⟩ :=
  let ⟨m, hs, _, _, hl, _⟩ :=
    store_load_pairs .complete swMachine .sw .lw 4 true (by decide) swX2 5 (by decide) (by decide)
  ⟨m, hs, hl⟩

end RiscvEmu
