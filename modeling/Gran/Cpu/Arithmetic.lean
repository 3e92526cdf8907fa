import Gran.Cpu.Isa

/-!
# Register instructions

The results of `op_imm` and `op` against those of the architecture. `follows_arith_iff` says exactly
when they are the same: the two right shifts are taken for each other, which shows on negative
values only.
-/

namespace Gran

open Rv64i (Arch Instr Alu)
open Rv64i.Arch

namespace Core

variable {c : Core} {insn : BitVec 32} {i : Instr}

/-! ## Writing a result back -/

/-- An instruction that writes one register and goes on follows the architecture when it writes what
that writes, or `x0`. -/
theorem follows_writeback_iff {rd : BitVec 5} {v v' : Word} (hdec : Rv64i.decode insn = some i)
    (hex : c.execute insn = some (c.writeback rd v))
    (hexec : i.exec c.arch = some (c.arch.write rd v').next) :
    c.Follows insn ↔ rd = 0 ∨ v = v' := by
  obtain ⟨c', hc', harch⟩ := writeback_arch (c := c) rd v
  rw [hc'] at hex
  rw [follows_iff hdec hex, hexec, harch, Option.some.injEq, next_inj, write_inj, eq_comm (a := v)]

/-! ## Shift amounts -/

theorem shamt_eq (x : Word) : shamt x = x.toNat % 64 := by
  rw [shamt, BitVec.toNat_and]
  exact Nat.and_two_pow_sub_one_eq_mod x.toNat 6

/-- The constant of a shift is the low part of the immediate. -/
theorem shamt_immI (insn : BitVec 32) : shamt (Rv64i.immI insn) = (Rv64i.shamt insn).toNat := by
  have hlow : (Rv64i.immI insn).setWidth 6 = Rv64i.shamt insn := by
    apply BitVec.eq_of_getLsbD_eq
    intro j hj
    simp only [Rv64i.immI, Rv64i.shamt, BitVec.getLsbD_setWidth, BitVec.getLsbD_signExtend,
      BitVec.getLsbD_extractLsb']
    grind
  rw [shamt_eq, ← hlow, BitVec.toNat_setWidth]

/-- The immediate of a shift by a constant. -/
theorem immI_eq_funct6_shamt (insn : BitVec 32) :
    Rv64i.immI insn = (Rv64i.funct6 insn ++ Rv64i.shamt insn).signExtend 64 := by
  have hfields : insn.extractLsb' 20 12 = Rv64i.funct6 insn ++ Rv64i.shamt insn := by
    apply BitVec.eq_of_getLsbD_eq
    intro j hj
    simp only [Rv64i.funct6, Rv64i.shamt, BitVec.getLsbD_append, BitVec.getLsbD_extractLsb']
    grind
  rw [Rv64i.immI, hfields]

/-- The test that tells the right shifts apart, on the constants of SRLI. -/
theorem srli_test {insn : BitVec 32} (h : Rv64i.funct6 insn = 0b000000) :
    Rv64i.immI insn &&& ~~~0b11111 ≠ 0 ↔ 32 ≤ (Rv64i.shamt insn).toNat := by
  have htest : ∀ s : BitVec 6,
      (0b000000#6 ++ s).signExtend 64 &&& ~~~0b11111 ≠ 0 ↔ 32 ≤ s.toNat := by decide
  rw [immI_eq_funct6_shamt, h]
  exact htest _

/-- The test that tells the right shifts apart, on the constants of SRAI. -/
theorem srai_test {insn : BitVec 32} (h : Rv64i.funct6 insn = 0b010000) :
    Rv64i.immI insn &&& ~~~0b11111 ≠ 0 := by
  have htest : ∀ s : BitVec 6, (0b010000#6 ++ s).signExtend 64 &&& ~~~0b11111 ≠ 0 := by decide
  rw [immI_eq_funct6_shamt, h]
  exact htest _

/-! ## OP-IMM -/

/-- The core gets the result of `f` on `a`, shifted by `s`. -/
def ShiftsRight (f : Alu) (a : Word) (s : Nat) : Prop :=
  f = .srl ∨ f = .sra → a.msb = false ∨ s = 0

/-- Either right shift in place of the other. -/
theorem shiftsRight_iff {f : Alu} {a : Word} {s : Nat} (hf : f = .srl ∨ f = .sra) :
    ShiftsRight f a s ↔ a >>> s = a.sshiftRight s := by
  rw [BitVec.ushiftRight_eq_sshiftRight_iff, or_comm]
  exact ⟨fun h => h hf, fun h _ => h⟩

/-- The result of `op_imm`. -/
theorem opImm_spec (hdec : Rv64i.decodeOpImm insn = some i) :
    ∃ f imm v, i = .opImm f (Rv64i.rd insn) (Rv64i.rs1 insn) imm ∧
      c.opImm insn = c.writeback (Rv64i.rd insn) v ∧
      (v = f.eval (c.getReg (Rv64i.rs1 insn)) imm ↔
        f = .srl ∧ 32 ≤ imm.toNat ∨ ShiftsRight f (c.getReg (Rv64i.rs1 insn)) imm.toNat) := by
  simp only [opImm, Insn.itypeImm_eq, Insn.rd_eq, Insn.rs1_eq, Insn.funct3_eq]
  have hconst : ((Rv64i.shamt insn).setWidth 64).toNat = (Rv64i.shamt insn).toNat := by
    exact BitVec.toNat_setWidth_of_le (by omega)
  have hmod : (Rv64i.shamt insn).toNat % 64 = (Rv64i.shamt insn).toNat :=
    Nat.mod_eq_of_lt (Rv64i.shamt insn).isLt
  unfold Rv64i.decodeOpImm at hdec
  dsimp only at hdec
  split at hdec
  case h_1 h =>
    cases hdec
    simp only [h]
    exact ⟨_, _, _, rfl, rfl, by simp [Alu.eval, ShiftsRight]⟩
  case h_2 h =>
    cases hdec
    simp only [h]
    exact ⟨_, _, _, rfl, rfl, by simp [Alu.eval, ShiftsRight, ofBool, BitVec.slt]⟩
  case h_3 h =>
    cases hdec
    simp only [h]
    exact ⟨_, _, _, rfl, rfl, by simp [Alu.eval, ShiftsRight, ofBool, BitVec.ult]⟩
  case h_4 h =>
    cases hdec
    simp only [h]
    exact ⟨_, _, _, rfl, rfl, by simp [Alu.eval, ShiftsRight]⟩
  case h_5 h =>
    cases hdec
    simp only [h]
    exact ⟨_, _, _, rfl, rfl, by simp [Alu.eval, ShiftsRight]⟩
  case h_6 h =>
    cases hdec
    simp only [h]
    exact ⟨_, _, _, rfl, rfl, by simp [Alu.eval, ShiftsRight]⟩
  case h_7 h =>
    split at hdec <;> cases hdec
    simp only [h]
    refine ⟨_, _, _, rfl, rfl, ?_⟩
    simp [Alu.eval, ShiftsRight, shamt_immI, hconst, hmod]
  case h_8 h =>
    simp only [h]
    split at hdec
    case isTrue hsrl =>
      cases hdec
      by_cases hlarge : 32 ≤ (Rv64i.shamt insn).toNat
      · rw [if_pos ((srli_test hsrl).2 hlarge)]
        refine ⟨_, _, _, rfl, rfl, ?_⟩
        simp [Alu.eval, hlarge, shamt_immI, hconst, hmod]
      · rw [if_neg fun h => hlarge ((srli_test hsrl).1 h)]
        refine ⟨_, _, _, rfl, rfl, ?_⟩
        rw [shiftsRight_iff (.inl rfl)]
        simp [Alu.eval, hlarge, shamt_immI, hconst, hmod, eq_comm]
    case isFalse =>
      split at hdec <;> cases hdec
      case isTrue hsra =>
      rw [if_pos (srai_test hsra)]
      refine ⟨_, _, _, rfl, rfl, ?_⟩
      rw [shiftsRight_iff (.inr rfl)]
      simp [Alu.eval, shamt_immI, hconst, hmod]
  case h_9 => cases hdec

/-! ## OP -/

/-- The result of `op`. -/
theorem op_spec (hdec : Rv64i.decodeOp insn = some i) :
    ∃ f v, i = .op f (Rv64i.rd insn) (Rv64i.rs1 insn) (Rv64i.rs2 insn) ∧
      c.op insn = c.writeback (Rv64i.rd insn) v ∧
      (v = f.eval (c.getReg (Rv64i.rs1 insn)) (c.getReg (Rv64i.rs2 insn)) ↔
        ShiftsRight f (c.getReg (Rv64i.rs1 insn)) ((c.getReg (Rv64i.rs2 insn)).toNat % 64)) := by
  simp only [op, Insn.rd_eq, Insn.rs1_eq, Insn.rs2_eq, Insn.funct3_eq, shamt_eq]
  unfold Rv64i.decodeOp at hdec
  dsimp only at hdec
  split at hdec
  case isTrue hfunct7 =>
    have hfunct7' : ¬ Insn.funct7 insn ≠ 0 := fun h => h hfunct7
    split at hdec <;> cases hdec <;> simp only [show (Rv64i.funct3 insn).toNat = _ by assumption]
    case h_1 =>
      rw [if_neg hfunct7']
      exact ⟨_, _, rfl, rfl, by simp [Alu.eval, ShiftsRight]⟩
    case h_6 =>
      -- SRL is shifted arithmetically
      rw [if_neg hfunct7']
      refine ⟨_, _, rfl, rfl, ?_⟩
      rw [shiftsRight_iff (.inl rfl), eq_comm]
      rfl
    all_goals
      exact ⟨_, _, rfl, rfl, by simp [Alu.eval, ShiftsRight, ofBool, BitVec.slt, BitVec.ult]⟩
  case isFalse =>
    split at hdec
    case isFalse => cases hdec
    case isTrue hfunct7 =>
      have hfunct7' : Insn.funct7 insn ≠ 0 := by
        rw [Insn.funct7_eq, hfunct7]
        decide
      split at hdec <;> cases hdec <;> simp only [show (Rv64i.funct3 insn).toNat = _ by assumption]
      case h_1 =>
        rw [if_pos hfunct7']
        exact ⟨_, _, rfl, rfl, by simp [Alu.eval, ShiftsRight]⟩
      case h_2 =>
        -- and SRA logically
        rw [if_pos hfunct7']
        refine ⟨_, _, rfl, rfl, ?_⟩
        rw [shiftsRight_iff (.inr rfl)]
        rfl

/-! ## Both of them -/

/-- The core has the result that the architecture has. -/
def ComputesResult (c : Core) : Instr → Prop
  | .opImm f rd rs1 imm =>
      rd = 0 ∨ f = .srl ∧ 32 ≤ imm.toNat ∨ ShiftsRight f (c.getReg rs1) imm.toNat
  | .op f rd rs1 rs2 =>
      rd = 0 ∨ ShiftsRight f (c.getReg rs1) ((c.getReg rs2).toNat % 64)
  | _ => False

/-- The opcodes OP-IMM and OP. -/
def arithOpcodes : List Nat := [0b0010011, 0b0110011]

/-- OP-IMM and OP are executed as the architecture says exactly when they shift nothing negative to
the right, write `x0`, or are SRLI by 32 and more. -/
theorem follows_arith_iff (hop : (Insn.op insn).toNat ∈ arithOpcodes)
    (hdec : Rv64i.decode insn = some i) : c.Follows insn ↔ c.ComputesResult i := by
  simp only [arithOpcodes, List.mem_cons, List.not_mem_nil, or_false] at hop
  obtain hop | hop := hop
  · have hdec' : Rv64i.decodeOpImm insn = some i := by
      have hop' : (insn.extractLsb' 0 7).toNat = 0b0010011 := hop
      simpa only [Rv64i.decode, hop'] using hdec
    have hex : c.execute insn = some (c.opImm insn) := by simp only [execute, hop]
    obtain ⟨f, imm, v, rfl, hv, hiff⟩ := opImm_spec (c := c) hdec'
    rw [hv] at hex
    rw [follows_writeback_iff hdec hex rfl, ComputesResult, ← hiff]
    rfl
  · have hdec' : Rv64i.decodeOp insn = some i := by
      have hop' : (insn.extractLsb' 0 7).toNat = 0b0110011 := hop
      simpa only [Rv64i.decode, hop'] using hdec
    have hex : c.execute insn = some (c.op insn) := by simp only [execute, hop]
    obtain ⟨f, v, rfl, hv, hiff⟩ := op_spec (c := c) hdec'
    rw [hv] at hex
    rw [follows_writeback_iff hdec hex rfl, ComputesResult, ← hiff]
    rfl

/-- A shift `srli x1, x1, 63` of a nonnegative value. -/
theorem follows_arith_iff_srli :
    Follows ⟨0, fun _ => 5, 8⟩ 0x03f0d093 ↔
      ComputesResult ⟨0, fun _ => 5, 8⟩ (.opImm .srl 1 1 63) :=
  follows_arith_iff (by decide) (by decide)

/-- The shift `srli x1, x1, 1` of -1 leaves -1. -/
theorem follows_arith_srli :
    ¬ ∀ (c : Core) (insn : BitVec 32) (i : Instr), (Insn.op insn).toNat ∈ arithOpcodes →
      Rv64i.decode insn = some i → c.Follows insn := by
  intro h
  have hdec : Rv64i.decode 0x0010d093 = some (.opImm .srl 1 1 1) := by decide
  have hfollows := h ⟨0, fun _ => -1, 0⟩ 0x0010d093 _ (by decide) hdec
  have hex : execute ⟨0, fun _ => -1, 0⟩ 0x0010d093 = some (writeback ⟨0, fun _ => -1, 0⟩ 1 (-1)) :=
    rfl
  have hvalue := (follows_writeback_iff hdec hex rfl).1 hfollows
  revert hvalue
  decide

end Core

end Gran
