import RiscvEmu.Proofs.Control

/-!
# The RV64IM encodings `Decode` accepts

`rv64imEncodings` is the ISA's side, written from riscv-spec v2.2 (chapter
19, the listing the source cites for `rvi64Instructions`): one row per RV64IM
mnemonic with the fields its encoding fixes, the 7-bit opcode, `funct3`, and
the bits above the register fields that tell apart the mnemonics sharing
both. Every other bit of a word is free.

`decode_encodings` runs `Decode` on every word of every row but three: it
returns size 4, the register fields `rd = w[11:7]`, `rs1 = w[19:15]` and
`rs2 = w[24:20]`, and a handler that, after the secondary dispatch of
`shiftRight` and `ecallOrBreak`, runs as the row's own. The rows left out
are SRAI, SRAIW and EBREAK, whose words reach another handler.

The proof goes by format. Lemmas on `decodeRvi` say which arm of the format
switch a base opcode takes; the key lemmas rebuild the table key from the
fields the row fixes; and one `decide` per format checks the rows against
`rvi64Instructions`.
-/

namespace RiscvEmu

/-! ## The ISA's encodings -/

/-- A row of the RV64IM encoding tables: the handler of the mnemonic, its
7-bit `opcode`, its `funct3` (none for U- and J-type), and the bits the ISA
fixes above the register fields as `(lo, v)`: bits 31..lo of the word are
`v`. That field is `funct7` for R-type and the 32-bit shifts, `imm[11:6]`
for the 64-bit shifts, and `imm[11:0]` for ECALL and EBREAK. -/
structure Encoding where
  op : Op
  opcode : Nat
  funct3 : Option Nat := none
  fixed : Option (Nat × Nat) := none
  deriving DecidableEq, Repr

/-- The 32-bit word `w` is an encoding of row `e`. -/
def Encoding.Matches (e : Encoding) (w : BitVec 64) : Prop :=
  w &&& 0x7f = .ofNat 64 e.opcode ∧ (∀ f ∈ e.funct3, w >>> 12 &&& 7 = .ofNat 64 f) ∧
    ∀ f ∈ e.fixed, w >>> f.1 = .ofNat 64 f.2

instance (e : Encoding) (w : BitVec 64) : Decidable (e.Matches w) :=
  inferInstanceAs (Decidable (_ ∧ _ ∧ _))

/-- LUI, AUIPC and JAL: `(op, opcode)`. -/
def uRows : List (Op × Nat) := [(.lui, 0x37), (.auipc, 0x17), (.jal, 0x6f)]

/-- The R-type rows of RV64I and RV64M: `(op, opcode, funct3, funct7)`. -/
def rTypeRows : List (Op × Nat × Nat × Nat) :=
  [(.add, 0x33, 0, 0), (.sub, 0x33, 0, 0x20), (.sll, 0x33, 1, 0), (.slt, 0x33, 2, 0),
   (.sltu, 0x33, 3, 0), (.xor, 0x33, 4, 0), (.srl, 0x33, 5, 0), (.sra, 0x33, 5, 0x20),
   (.or, 0x33, 6, 0), (.and, 0x33, 7, 0),
   (.addw, 0x3b, 0, 0), (.subw, 0x3b, 0, 0x20), (.sllw, 0x3b, 1, 0), (.srlw, 0x3b, 5, 0),
   (.sraw, 0x3b, 5, 0x20),
   (.mul, 0x33, 0, 1), (.mulh, 0x33, 1, 1), (.mulhsu, 0x33, 2, 1), (.mulhu, 0x33, 3, 1),
   (.div, 0x33, 4, 1), (.divu, 0x33, 5, 1), (.rem, 0x33, 6, 1), (.remu, 0x33, 7, 1),
   (.mulw, 0x3b, 0, 1), (.divw, 0x3b, 4, 1), (.divuw, 0x3b, 5, 1), (.remw, 0x3b, 6, 1),
   (.remuw, 0x3b, 7, 1)]

/-- The I-, S- and B-type rows: `(op, opcode, funct3, fixed)`. -/
def immRows : List (Op × Nat × Nat × Option (Nat × Nat)) :=
  [(.jalr, 0x67, 0, none),
   (.beq, 0x63, 0, none), (.bne, 0x63, 1, none), (.blt, 0x63, 4, none), (.bge, 0x63, 5, none),
   (.bltu, 0x63, 6, none), (.bgeu, 0x63, 7, none),
   (.lb, 0x03, 0, none), (.lh, 0x03, 1, none), (.lw, 0x03, 2, none), (.ld, 0x03, 3, none),
   (.lbu, 0x03, 4, none), (.lhu, 0x03, 5, none), (.lwu, 0x03, 6, none),
   (.sb, 0x23, 0, none), (.sh, 0x23, 1, none), (.sw, 0x23, 2, none), (.sd, 0x23, 3, none),
   (.addi, 0x13, 0, none), (.slti, 0x13, 2, none), (.sltiu, 0x13, 3, none),
   (.xori, 0x13, 4, none), (.ori, 0x13, 6, none), (.andi, 0x13, 7, none),
   (.slli, 0x13, 1, some (26, 0)), (.srli, 0x13, 5, some (26, 0)),
   (.srai, 0x13, 5, some (26, 0x10)),
   (.addiw, 0x1b, 0, none), (.slliw, 0x1b, 1, some (25, 0)), (.srliw, 0x1b, 5, some (25, 0)),
   (.sraiw, 0x1b, 5, some (25, 0x20)),
   (.fence, 0x0f, 0, none), (.fenceI, 0x0f, 1, none),
   (.ecall, 0x73, 0, some (20, 0)), (.ebreak, 0x73, 0, some (20, 1)),
   (.csrrw, 0x73, 1, none), (.csrrs, 0x73, 2, none), (.csrrc, 0x73, 3, none),
   (.csrrwi, 0x73, 5, none), (.csrrsi, 0x73, 6, none), (.csrrci, 0x73, 7, none)]

/-- Every RV64IM row. -/
def rv64imEncodings : List Encoding :=
  uRows.map (fun r => ⟨r.1, r.2, none, none⟩) ++
  rTypeRows.map (fun r => ⟨r.1, r.2.1, some r.2.2.1, some (25, r.2.2.2)⟩) ++
  immRows.map (fun r => ⟨r.1, r.2.1, some r.2.2.1, r.2.2.2⟩)

/-! ## The fields in the decoder's expressions -/

/-- The key of `Decode` from a word's fields: `funct7 << 8 | funct3 << 5 |
opcode >> 2`. -/
def fieldKey (funct7 funct3 opcode : BitVec 64) : BitVec 64 :=
  funct7 <<< 8 ||| funct3 <<< 5 ||| opcode >>> 2

theorem opcode_field (w : BitVec 64) : w >>> 2 &&& (0x1f : BitVec 64) = (w &&& 0x7f) >>> 2 := by
  ext ⟨i, hi⟩
  rcases Nat.lt_or_ge i 5 with h | h
  · simp only [BitVec.getLsbD_and, BitVec.getLsbD_ushiftRight]
    interval_cases i <;> simp
  · have h7 : 7 ≤ 2 + i := by omega
    simp (disch := decide) only [BitVec.getLsbD_and, BitVec.getLsbD_ushiftRight, getLsbD_high h,
      getLsbD_high h7, Bool.and_false]

theorem funct3_field (w : BitVec 64) : w >>> 7 &&& 0xE0 = (w >>> 12 &&& 7) <<< 5 := by
  ext ⟨i, hi⟩
  rcases Nat.lt_or_ge i 8 with h | h
  · simp only [BitVec.getLsbD_and, BitVec.getLsbD_ushiftRight, BitVec.getLsbD_shiftLeft]
    interval_cases i <;> simp
  · have h3 : 3 ≤ i - 5 := by omega
    simp (disch := first | decide | omega) only [BitVec.getLsbD_and, BitVec.getLsbD_shiftLeft,
      getLsbD_high h, getLsbD_high h3, Bool.and_false]

theorem funct7_field (w : BitVec 64) :
    w >>> 17 &&& (0x7f00 : BitVec 64) = (w >>> 25 &&& 0x7f) <<< 8 := by
  ext ⟨i, hi⟩
  rcases Nat.lt_or_ge i 15 with h | h
  · simp only [BitVec.getLsbD_and, BitVec.getLsbD_ushiftRight, BitVec.getLsbD_shiftLeft]
    interval_cases i <;> simp
  · have h7 : 7 ≤ i - 8 := by omega
    simp (disch := first | decide | omega) only [BitVec.getLsbD_and, BitVec.getLsbD_shiftLeft,
      getLsbD_high h, getLsbD_high h7, Bool.and_false]

/-- Without `funct7`, the key is `funct3 << 5 | opcode >> 2`. -/
theorem rviKey_zero_fields (w : BitVec 64) :
    rviKey 0 w = fieldKey 0 (w >>> 12 &&& 7) (w &&& 0x7f) := by
  simp only [rviKey, fieldKey, funct3_field, opcode_field]
  rfl

/-- An R-type word's key adds its `funct7 << 8`. -/
theorem rviKey_rtype_fields (w : BitVec 64) :
    rviKey (w >>> 17 &&& 0x7f00) w = fieldKey (w >>> 25 &&& 0x7f) (w >>> 12 &&& 7) (w &&& 0x7f) := by
  simp only [rviKey, fieldKey, funct3_field, opcode_field, funct7_field]

theorem regOf_field (w : BitVec 64) (k : Nat) :
    (regOf (w >>> k &&& 0x1f).toNat).val = (w >>> k &&& 0x1f).toNat := by
  have : (w >>> k &&& 0x1f).toNat < 32 := by
    rw [BitVec.toNat_and]; exact Nat.and_lt_two_pow (n := 5) _ (by decide)
  exact Nat.mod_eq_of_lt this

/-! ## The arms of the format switch -/

/-- The instruction `Decode` builds from `w` once the format has set the
immediate and the table or the switch has given the handler. -/
def wordInstr (w : BitVec 64) (fn : Op) (imm : BitVec 64) : Instruction :=
  { fn := fn, rs1 := regOf (w >>> 15 &&& 0x1f).toNat, rs2 := regOf (w >>> 20 &&& 0x1f).toNat,
    rd := regOf (w >>> 7 &&& 0x1f).toNat, imm := imm }

theorem decodeRvi_rtype {pc w : BitVec 64} (h : (w >>> 2 &&& 0x1f).toNat ∈ [0x0b, 0x0c, 0x0e, 0x14]) :
    decodeRvi pc w = rviLookup pc w (w >>> 17 &&& 0x7f00) 0 := by
  simp only [List.mem_cons, List.mem_singleton, List.not_mem_nil, or_false] at h
  unfold decodeRvi
  rcases h with h | h | h | h <;> simp only [h]

theorem decodeRvi_itype {pc w : BitVec 64}
    (h : (w >>> 2 &&& 0x1f).toNat ∈ [0x00, 0x01, 0x03, 0x04, 0x06, 0x19, 0x1c]) :
    decodeRvi pc w = rviLookup pc w 0 (w >>> 20 &&& 0xfff) := by
  simp only [List.mem_cons, List.mem_singleton, List.not_mem_nil, or_false] at h
  unfold decodeRvi
  rcases h with h | h | h | h | h | h | h <;> simp only [h]

/-- The I-, S- and B-type arms look up the key without `funct7`. -/
theorem decodeRvi_keyed {pc w : BitVec 64}
    (h : (w >>> 2 &&& 0x1f).toNat ∈ [0x00, 0x01, 0x03, 0x04, 0x06, 0x19, 0x1c, 0x08, 0x09, 0x18]) :
    ∃ imm, decodeRvi pc w = rviLookup pc w 0 imm := by
  simp only [List.mem_cons, List.mem_singleton, List.not_mem_nil, or_false] at h
  unfold decodeRvi
  rcases h with h | h | h | h | h | h | h | h | h | h <;> simp only [h] <;> exact ⟨_, rfl⟩

theorem decodeRvi_utype {pc w : BitVec 64} {op : Op}
    (h : (op, (w >>> 2 &&& 0x1f).toNat) ∈ [(Op.lui, 0x0d), (.auipc, 0x05), (.jal, 0x1b)]) :
    ∃ imm, decodeRvi pc w = .ok (.ok (wordInstr w op imm, 4)) := by
  simp only [List.mem_cons, List.mem_singleton, List.not_mem_nil, or_false, Prod.mk.injEq] at h
  unfold decodeRvi
  rcases h with ⟨rfl, h⟩ | ⟨rfl, h⟩ | ⟨rfl, h⟩ <;> simp only [h] <;> exact ⟨_, rfl⟩

theorem rviLookup_some {pc w F imm : BitVec 64} {fn : Op} (hk : (rviKey F w).toNat < rvi64Len)
    (hl : rvi64Instructions.lookup (rviKey F w).toNat = some fn) :
    rviLookup pc w F imm = .ok (.ok (wordInstr w fn imm, 4)) := by
  simp only [rviLookup, rvi64At, if_pos hk, hl]
  rfl

/-! ## The secondary dispatch on an I-type immediate -/

/-- An I-type immediate whose bits 11..6 are clear passes `shiftRight`'s
`0xFC00` test for `srli`. -/
theorem srli_imm (w : BitVec 64) (h : w >>> 26 = 0) : (w >>> 20 &&& 0xfff) &&& 0xFC00 = 0 := by
  have hw : ∀ j, w.getLsbD (26 + j) = false := fun j => by
    simpa using congrArg (·.getLsbD j) h
  have h30 : w.getLsbD 30 = false := hw 4
  have h31 : w.getLsbD 31 = false := hw 5
  ext ⟨i, hi⟩
  rcases Nat.lt_or_ge i 12 with h12 | h12
  · simp only [BitVec.getLsbD_and, BitVec.getLsbD_ushiftRight, BitVec.getLsbD_zero]
    interval_cases i <;> simp [h30, h31]
  · simp (disch := decide) only [BitVec.getLsbD_and, getLsbD_high h12, Bool.and_false,
      Bool.false_and, BitVec.getLsbD_zero]

/-- A 12-bit immediate has nothing above bit 11 for `ecallOrBreak` to see. -/
theorem itype_imm_high (w : BitVec 64) : (w >>> 20 &&& 0xfff) >>> 12 = 0 := by
  ext ⟨i, hi⟩
  have h12 : 12 ≤ 12 + i := by omega
  simp (disch := decide) only [BitVec.getLsbD_ushiftRight, BitVec.getLsbD_and, getLsbD_high h12,
    Bool.and_false]
  exact BitVec.getLsbD_zero.symm

/-! ## From the bytes to the word -/

theorem decodeSize_four {b : Array (BitVec 8)} (h1 : 1 ≤ b.size) (h3 : b.getD 0 0 &&& 3 = 3)
    (h4 : b.getD 0 0 &&& 0x1f ≠ 0x1f) : decodeSize b = .ok (4, true) := by
  unfold decodeSize
  rw [byteAt_of_lt (by omega), ok_bind, if_neg (not_not.mpr h3), if_pos h4]
  rfl

/-- With four bytes or more, an even length, and a first byte of a 32-bit
encoding, `Decode` is the 32-bit decoder on the word of the first four. -/
theorem decode_of_word (pc : BitVec 64) (b : Array (BitVec 8)) (hsize : 4 ≤ b.size)
    (heven : b.size % 2 = 0) (h3 : b.getD 0 0 &&& 3 = 3) (h4 : b.getD 0 0 &&& 0x1f ≠ 0x1f) :
    decode pc b = decodeRvi pc (wordOf b) := by
  unfold decode
  dsimp only
  rw [if_neg (by omega), pure_bind, decodeSize_four (by omega) h3 h4, ok_bind]
  dsimp only
  rw [if_neg (by decide), pure_bind, if_neg (by omega), pure_bind, if_neg (by decide), pure_bind,
    if_neg (by decide), pure_bind, byteAt_of_lt (show 3 < b.size by omega), ok_bind,
    byteAt_of_lt (show 2 < b.size by omega), ok_bind, byteAt_of_lt (show 1 < b.size by omega),
    ok_bind, byteAt_of_lt (show 0 < b.size by omega), ok_bind]
  rfl

/-- The opcode field of the word is that of the first byte. -/
theorem wordOf_opcode (b : Array (BitVec 8)) :
    wordOf b &&& 0x7f = (b.getD 0 0 &&& 0x7f).setWidth 64 := by
  ext ⟨i, hi⟩
  rcases Nat.lt_or_ge i 7 with h | h
  · simp only [wordOf, BitVec.getLsbD_and, BitVec.getLsbD_or, BitVec.getLsbD_shiftLeft,
      BitVec.getLsbD_setWidth, show i < 8 by omega, show i < 16 by omega, show i < 24 by omega,
      decide_True, Bool.not_true, Bool.and_false, Bool.false_and, Bool.false_or, Bool.true_and]
    interval_cases i <;> rfl
  · simp (disch := decide) only [BitVec.getLsbD_and, BitVec.getLsbD_setWidth, getLsbD_high h,
      Bool.and_false, decide_True, Bool.true_and]

theorem firstByte_of_opcode {b : Array (BitVec 8)} {opc : Nat}
    (h : wordOf b &&& 0x7f = .ofNat 64 opc) :
    b.getD 0 0 &&& 0x7f = (BitVec.ofNat 64 opc).setWidth 8 := by
  rw [← h, wordOf_opcode, BitVec.setWidth_setWidth_of_le _ (by omega), BitVec.setWidth_eq]

/-- Every row's opcode marks a 32-bit encoding: bits 1..0 set, bits 4..2
not all set. -/
theorem rv64imEncodings_standard : ∀ e ∈ rv64imEncodings,
    (BitVec.ofNat 64 e.opcode).setWidth 8 &&& 3 = 3 ∧
      (BitVec.ofNat 64 e.opcode).setWidth 8 &&& 0x1f ≠ 0x1f := by
  decide

/-! ## Every row decodes -/

/-- `decodeRvi` on `w` gives size 4, the register fields of `w`, and a
handler that runs as `op`. -/
def DecodesTo (pc w : BitVec 64) (op : Op) : Prop :=
  ∃ i, decodeRvi pc w = .ok (.ok (i, 4)) ∧ i.rd = regOf (w >>> 7 &&& 0x1f).toNat ∧
    i.rs1 = regOf (w >>> 15 &&& 0x1f).toNat ∧ i.rs2 = regOf (w >>> 20 &&& 0x1f).toNat ∧
    ∀ host vm, i.fn.exec host vm i = op.exec host vm i

theorem decodesTo_of_eq {pc w imm : BitVec 64} {op : Op}
    (h : decodeRvi pc w = .ok (.ok (wordInstr w op imm, 4))) :
    DecodesTo pc w op :=
  ⟨_, h, rfl, rfl, rfl, fun _ _ => rfl⟩

theorem uRows_table : ∀ r ∈ uRows,
    (r.1, (BitVec.ofNat 64 r.2 >>> 2).toNat) ∈ [(Op.lui, 0x0d), (.auipc, 0x05), (.jal, 0x1b)] := by
  decide

theorem rTypeRows_table : ∀ r ∈ rTypeRows,
    (BitVec.ofNat 64 r.2.1 >>> 2).toNat ∈ [0x0b, 0x0c, 0x0e, 0x14] ∧
      (fieldKey (.ofNat 64 r.2.2.2 &&& 0x7f) (.ofNat 64 r.2.2.1) (.ofNat 64 r.2.1)).toNat <
        rvi64Len ∧
      rvi64Instructions.lookup
        (fieldKey (.ofNat 64 r.2.2.2 &&& 0x7f) (.ofNat 64 r.2.2.1) (.ofNat 64 r.2.1)).toNat =
        some r.1 := by
  decide

/-- The table gives every I-, S- and B-type row but SRAI, SRAIW and EBREAK
its own handler, or for SRLI and ECALL (I-type) the dispatcher that picks
it. -/
theorem immRows_table : ∀ r ∈ immRows, r.1 ∉ [.srai, .sraiw, .ebreak] →
    (BitVec.ofNat 64 r.2.1 >>> 2).toNat ∈ [0x00, 0x01, 0x03, 0x04, 0x06, 0x19, 0x1c, 0x08, 0x09, 0x18] ∧
      (fieldKey 0 (.ofNat 64 r.2.2.1) (.ofNat 64 r.2.1)).toNat < rvi64Len ∧
      (rvi64Instructions.lookup (fieldKey 0 (.ofNat 64 r.2.2.1) (.ofNat 64 r.2.1)).toNat = some r.1 ∨
        (BitVec.ofNat 64 r.2.1 >>> 2).toNat ∈ [0x00, 0x01, 0x03, 0x04, 0x06, 0x19, 0x1c] ∧
          (rvi64Instructions.lookup (fieldKey 0 (.ofNat 64 r.2.2.1) (.ofNat 64 r.2.1)).toNat =
              some .shiftRight ∧ r.1 = .srli ∧ r.2.2.2 = some (26, 0) ∨
            rvi64Instructions.lookup (fieldKey 0 (.ofNat 64 r.2.2.1) (.ofNat 64 r.2.1)).toNat =
              some .ecallOrBreak ∧ r.1 = .ecall)) := by
  decide

theorem uRow_decodes {r : Op × Nat} (hr : r ∈ uRows) {pc w : BitVec 64}
    (hop : w &&& 0x7f = .ofNat 64 r.2) : DecodesTo pc w r.1 := by
  have h := uRows_table r hr
  rw [← hop, ← opcode_field] at h
  obtain ⟨_, h⟩ := decodeRvi_utype h
  exact decodesTo_of_eq h

theorem rTypeRow_decodes {r : Op × Nat × Nat × Nat} (hr : r ∈ rTypeRows) {pc w : BitVec 64}
    (hop : w &&& 0x7f = .ofNat 64 r.2.1) (hf3 : w >>> 12 &&& 7 = .ofNat 64 r.2.2.1)
    (hf7 : w >>> 25 = .ofNat 64 r.2.2.2) : DecodesTo pc w r.1 := by
  obtain ⟨hfmt, hk, hl⟩ := rTypeRows_table r hr
  rw [← hop, ← opcode_field] at hfmt
  rw [← hf7, ← hf3, ← hop, ← rviKey_rtype_fields] at hk hl
  exact decodesTo_of_eq ((decodeRvi_rtype hfmt).trans (rviLookup_some hk hl))

theorem immRow_decodes {r : Op × Nat × Nat × Option (Nat × Nat)} (hr : r ∈ immRows)
    (hmis : r.1 ∉ [.srai, .sraiw, .ebreak]) {pc w : BitVec 64}
    (hop : w &&& 0x7f = .ofNat 64 r.2.1) (hf3 : w >>> 12 &&& 7 = .ofNat 64 r.2.2.1)
    (hfix : ∀ f ∈ r.2.2.2, w >>> f.1 = .ofNat 64 f.2) : DecodesTo pc w r.1 := by
  obtain ⟨hfmt, hk, hl⟩ := immRows_table r hr hmis
  rw [← hop] at hfmt
  rw [← hf3, ← hop] at hk hl
  rw [← opcode_field] at hfmt hl
  rw [← rviKey_zero_fields] at hk hl
  rcases hl with hl | ⟨hi, ⟨hl, hop', hfx⟩ | ⟨hl, hop'⟩⟩
  · obtain ⟨_, h⟩ : ∃ imm, decodeRvi pc w = rviLookup pc w 0 imm := decodeRvi_keyed hfmt
    exact decodesTo_of_eq (h.trans (rviLookup_some hk hl))
  · refine ⟨_, (decodeRvi_itype hi).trans (rviLookup_some hk hl), rfl, rfl, rfl, fun _ _ => ?_⟩
    rw [hop']
    exact if_pos (srli_imm w (hfix (26, 0) (hfx ▸ rfl)))
  · refine ⟨_, (decodeRvi_itype hi).trans (rviLookup_some hk hl), rfl, rfl, rfl, fun _ _ => ?_⟩
    rw [hop']
    exact if_pos (itype_imm_high w)

/-- **Every RV64IM encoding but SRAI, SRAIW and EBREAK decodes to its own
handler.** For every row of `rv64imEncodings` other than those three, and
every buffer of four bytes or more and even length whose first word is an
encoding of the row, `Decode` returns size 4, `rd = w[11:7]`,
`rs1 = w[19:15]` and `rs2 = w[24:20]`, and an instruction whose handler runs
on every host and machine as the row's handler: itself, or for SRLI and ECALL the
dispatcher `shiftRight` or `ecallOrBreak`, which picks it. -/
theorem decode_encodings (e : Encoding) (he : e ∈ rv64imEncodings)
    (hmis : e.op ∉ [.srai, .sraiw, .ebreak]) (pc : BitVec 64) (b : Array (BitVec 8))
    (hsize : 4 ≤ b.size) (heven : b.size % 2 = 0) (hw : e.Matches (wordOf b)) :
    ∃ i, decode pc b = .ok (.ok (i, 4)) ∧ i.rd.val = (wordOf b >>> 7 &&& 0x1f).toNat ∧
      i.rs1.val = (wordOf b >>> 15 &&& 0x1f).toNat ∧ i.rs2.val = (wordOf b >>> 20 &&& 0x1f).toNat ∧
      ∀ host vm, i.fn.exec host vm i = e.op.exec host vm i := by
  obtain ⟨hop, hf3, hfix⟩ := hw
  obtain ⟨h3, h4⟩ := rv64imEncodings_standard e he
  have hb := firstByte_of_opcode hop
  have hlow : ∀ k : BitVec 8, 0x7f &&& k = k → b.getD 0 0 &&& k = (b.getD 0 0 &&& 0x7f) &&& k :=
    fun k hk => by rw [BitVec.and_assoc, hk]
  rw [decode_of_word pc b hsize heven (by rw [hlow 3 rfl, hb, h3])
    (by rw [hlow 0x1f rfl, hb]; exact h4)]
  have hd : DecodesTo pc (wordOf b) e.op := by
    simp only [rv64imEncodings, List.mem_append, List.mem_map] at he
    rcases he with (⟨r, hr, rfl⟩ | ⟨r, hr, rfl⟩) | ⟨r, hr, rfl⟩
    · exact uRow_decodes hr hop
    · exact rTypeRow_decodes hr hop (hf3 _ rfl) (hfix _ rfl)
    · exact immRow_decodes hr hmis hop (hf3 _ rfl) hfix
  obtain ⟨i, hi, hrd, hrs1, hrs2, hx⟩ := hd
  exact ⟨i, hi, hrd ▸ regOf_field _ 7, hrs1 ▸ regOf_field _ 15, hrs2 ▸ regOf_field _ 20, hx⟩

/-- `add a0, a0, a1` (`0x00B50533`). -/
theorem decode_encodings_add :
    ∃ i, decode 0 #[0x33, 0x05, 0xB5, 0x00] = .ok (.ok (i, 4)) ∧ i.rd.val = 10 ∧
      i.rs1.val = 10 ∧ i.rs2.val = 11 ∧ ∀ host vm, i.fn.exec host vm i = Op.add.exec host vm i :=
  decode_encodings ⟨.add, 0x33, some 0, some (25, 0)⟩ (by decide) (by decide) 0
    #[0x33, 0x05, 0xB5, 0x00] (by decide) (by decide) (by decide)

end RiscvEmu
