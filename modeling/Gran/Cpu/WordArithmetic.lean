import Gran.Cpu.Arithmetic

/-!
# Word instructions

`op_imm_32` repeats `op_imm`, so the results of the word instructions are those of a whole
register. `computesWord_iff` says exactly when this makes no difference.
-/

namespace Gran

open Rv64i (Arch Instr AluW)
open Rv64i.Arch

namespace Core

variable {c : Core} {insn : BitVec 32} {i : Instr}

/-! ## Immediates of word instructions -/

theorem immI_setWidth (insn : BitVec 32) :
    (Rv64i.immI insn).setWidth 32 = (insn.extractLsb' 20 12).signExtend 32 := by
  apply BitVec.eq_of_getLsbD_eq
  intro j hj
  simp only [Rv64i.immI, BitVec.getLsbD_setWidth, BitVec.getLsbD_signExtend]
  grind

/-- The immediate as a word has the same value. -/
theorem toInt_immI_setWidth (insn : BitVec 32) :
    ((Rv64i.immI insn).setWidth 32).toInt = (Rv64i.immI insn).toInt := by
  rw [immI_setWidth, Rv64i.immI, BitVec.toInt_signExtend_of_le (by omega),
    BitVec.toInt_signExtend_of_le (by omega)]

theorem toInt_immI_bounds (insn : BitVec 32) :
    -2048 ≤ (Rv64i.immI insn).toInt ∧ (Rv64i.immI insn).toInt < 2048 := by
  rw [Rv64i.immI, BitVec.toInt_signExtend_of_le (by omega)]
  exact ⟨BitVec.le_toInt _, BitVec.toInt_lt⟩

/-- A sum with an immediate is one of a word when it does not leave the words. -/
theorem add_immI_iff (insn : BitVec 32) (x : Word) :
    x + Rv64i.immI insn = (x.setWidth 32 + (Rv64i.immI insn).setWidth 32).signExtend 64 ↔
      -2 ^ 31 ≤ x.toInt + (Rv64i.immI insn).toInt ∧ x.toInt + (Rv64i.immI insn).toInt < 2 ^ 31 := by
  rw [← BitVec.setWidth_add _ _ (by omega),
    BitVec.eq_signExtend_setWidth_iff _ (by omega) (by omega),
    BitVec.toInt_add]
  have hx : -2 ^ 63 ≤ x.toInt ∧ x.toInt < 2 ^ 63 := ⟨BitVec.le_toInt x, BitVec.toInt_lt⟩
  have himm := toInt_immI_bounds insn
  generalize x.toInt = a at *
  generalize (Rv64i.immI insn).toInt = b at *
  -- a sum that wraps around is far from the words
  by_cases hwrap : -2 ^ 63 ≤ a + b ∧ a + b < 2 ^ 63
  · rw [Int.bmod_eq_of_le (by omega) (by omega)]
  · rw [Int.bmod_def]
    split <;> omega

/-- The constant of a shift of a word. -/
theorem shamt_eq_rs2 (hbit : (Rv64i.funct7 insn).getLsbD 0 = false) :
    (Rv64i.shamt insn).toNat = (Rv64i.rs2 insn).toNat := by
  have hfields : Rv64i.shamt insn = (Rv64i.rs2 insn).setWidth 6 := by
    apply BitVec.eq_of_getLsbD_eq
    intro j hj
    simp only [Rv64i.funct7, BitVec.getLsbD_extractLsb'] at hbit
    simp only [Rv64i.shamt, Rv64i.rs2, BitVec.getLsbD_setWidth, BitVec.getLsbD_extractLsb']
    grind
  rw [hfields, BitVec.toNat_setWidth_of_le (by omega)]

theorem funct6_eq (insn : BitVec 32) :
    Rv64i.funct6 insn = (Rv64i.funct7 insn).extractLsb' 1 6 := by
  apply BitVec.eq_of_getLsbD_eq
  intro j hj
  simp only [Rv64i.funct6, Rv64i.funct7, BitVec.getLsbD_extractLsb']
  grind

/-! ## Results -/

/-- The result of `f` on words is what a whole register gets. -/
def WordSized (x : Word) (imm : BitVec 32) : AluW → Prop
  | .add => -2 ^ 31 ≤ x.toInt + imm.toInt ∧ x.toInt + imm.toInt < 2 ^ 31
  | .sll => ∀ j, 31 - imm.toNat ≤ j → j < 64 - imm.toNat → x.getLsbD j = x.getLsbD (31 - imm.toNat)
  | .srl => if imm = 0 then -2 ^ 31 ≤ x.toInt ∧ x.toInt < 2 ^ 31 else x.toNat < 2 ^ 32
  | .sra => if imm = 0 then -2 ^ 31 ≤ x.toInt ∧ x.toInt < 2 ^ 31 else x.toNat < 2 ^ 31

theorem wordSized_srl {x : Word} {imm : BitVec 32} (hlt : imm.toNat < 32) :
    x.sshiftRight imm.toNat = ((x.setWidth 32) >>> imm.toNat).signExtend 64 ↔
      WordSized x imm .srl := by
  rw [WordSized]
  split
  case isTrue hzero =>
    rw [hzero, show (0 : BitVec 32).toNat = 0 from rfl, BitVec.sshiftRight_zero,
      BitVec.ushiftRight_zero]
    exact BitVec.eq_signExtend_setWidth_iff x (by omega) (by omega)
  case isFalse hne =>
    have hpos : 0 < imm.toNat := Nat.pos_of_ne_zero fun h => hne (BitVec.eq_of_toNat_eq h)
    exact BitVec.sshiftRight_eq_signExtend_iff x hpos hlt (by omega)

theorem wordSized_sra {x : Word} {imm : BitVec 32} (hlt : imm.toNat < 32) :
    x >>> imm.toNat = ((x.setWidth 32).sshiftRight imm.toNat).signExtend 64 ↔
      WordSized x imm .sra := by
  rw [WordSized]
  split
  case isTrue hzero =>
    rw [hzero, show (0 : BitVec 32).toNat = 0 from rfl, BitVec.sshiftRight_zero,
      BitVec.ushiftRight_zero]
    exact BitVec.eq_signExtend_setWidth_iff x (by omega) (by omega)
  case isFalse hne =>
    have hpos : 0 < imm.toNat := Nat.pos_of_ne_zero fun h => hne (BitVec.eq_of_toNat_eq h)
    exact BitVec.ushiftRight_eq_signExtend_iff x hpos hlt (by omega)

/-- The result of `op_imm_32`. -/
theorem opImm32_spec (hdec : Rv64i.decodeOpImm32 insn = some i) :
    ∃ f imm v, i = .opImmW f (Rv64i.rd insn) (Rv64i.rs1 insn) imm ∧
      c.opImm32 insn = c.writeback (Rv64i.rd insn) v ∧
      (v = (f.eval ((c.getReg (Rv64i.rs1 insn)).setWidth 32) imm).signExtend 64 ↔
        WordSized (c.getReg (Rv64i.rs1 insn)) imm f) := by
  simp only [opImm32, opImm, Insn.itypeImm_eq, Insn.rd_eq, Insn.rs1_eq, Insn.funct3_eq]
  generalize c.getReg (Rv64i.rs1 insn) = x
  have hlt : (Rv64i.rs2 insn).toNat < 32 := (Rv64i.rs2 insn).isLt
  have hconst : ((Rv64i.rs2 insn).setWidth 32).toNat = (Rv64i.rs2 insn).toNat :=
    BitVec.toNat_setWidth_of_le (by omega)
  have hmod : (Rv64i.rs2 insn).toNat % 32 = (Rv64i.rs2 insn).toNat := Nat.mod_eq_of_lt hlt
  unfold Rv64i.decodeOpImm32 at hdec
  dsimp only at hdec
  split at hdec
  case h_1 h =>
    cases hdec
    simp only [h]
    refine ⟨_, _, _, rfl, rfl, ?_⟩
    rw [WordSized, toInt_immI_setWidth]
    exact add_immI_iff insn x
  case h_2 h =>
    split at hdec <;> cases hdec
    case isTrue hfunct7 =>
    simp only [h]
    refine ⟨_, _, _, rfl, rfl, ?_⟩
    rw [shamt_immI, shamt_eq_rs2 (by rw [hfunct7]; rfl), AluW.eval, WordSized, hconst, hmod]
    exact BitVec.shiftLeft_eq_signExtend_iff x hlt (by omega)
  case h_3 h =>
    simp only [h]
    split at hdec
    case isTrue hfunct7 =>
      cases hdec
      have hfunct6 : Rv64i.funct6 insn = 0b000000 := by
        rw [funct6_eq, hfunct7]
        rfl
      have hshamt := shamt_eq_rs2 (show (Rv64i.funct7 insn).getLsbD 0 = false by rw [hfunct7]; rfl)
      -- the constant is below 32, which `op_imm` takes for SRAI
      rw [if_neg fun htest => absurd ((srli_test hfunct6).1 htest) (by omega)]
      refine ⟨_, _, _, rfl, rfl, ?_⟩
      rw [shamt_immI, hshamt, AluW.eval, ← wordSized_srl (by omega), hconst, hmod]
    case isFalse =>
      split at hdec <;> cases hdec
      case isTrue hfunct7 =>
      have hfunct6 : Rv64i.funct6 insn = 0b010000 := by
        rw [funct6_eq, hfunct7]
        rfl
      have hshamt := shamt_eq_rs2 (show (Rv64i.funct7 insn).getLsbD 0 = false by rw [hfunct7]; rfl)
      rw [if_pos (srai_test hfunct6)]
      refine ⟨_, _, _, rfl, rfl, ?_⟩
      rw [shamt_immI, hshamt, AluW.eval, ← wordSized_sra (by omega), hconst, hmod]
  case h_4 => cases hdec

/-! ## Every word -/

/-- OP-IMM-32 is executed as the architecture says: the word instructions compute their result, and
a `funct3` that no instruction has is refused and changes nothing. -/
def ComputesWord (c : Core) (insn : BitVec 32) : Prop :=
  match (Rv64i.funct3 insn).toNat with
  | 0b000 | 0b001 | 0b101 => ∀ i, Rv64i.decode insn = some i → c.Follows insn
  | _ => c.execute insn = some (.ret .ENOSUCH c)

/-- The result of a word instruction is the one of a whole register. -/
def WordSizedResult (c : Core) : Instr → Prop
  | .opImmW f rd rs1 imm => rd = 0 ∨ WordSized (c.getReg rs1) imm f
  | _ => False

/-- The word is of a word instruction that has the result of a whole register. -/
def WordSizedCase (c : Core) (insn : BitVec 32) : Prop :=
  match (Rv64i.funct3 insn).toNat with
  | 0b000 | 0b001 | 0b101 => ∀ i, Rv64i.decode insn = some i → c.WordSizedResult i
  | _ => False

theorem follows_word_iff (hop : (Insn.op insn).toNat = 0b0011011)
    (hdec : Rv64i.decode insn = some i) : c.Follows insn ↔ c.WordSizedResult i := by
  have hdec' : Rv64i.decodeOpImm32 insn = some i := by
    have hop' : (insn.extractLsb' 0 7).toNat = 0b0011011 := hop
    simpa only [Rv64i.decode, hop'] using hdec
  have hex : c.execute insn = some (c.opImm32 insn) := by simp only [execute, hop]
  obtain ⟨f, imm, v, rfl, hv, hiff⟩ := opImm32_spec (c := c) hdec'
  rw [hv] at hex
  rw [follows_writeback_iff hdec hex rfl, WordSizedResult, ← hiff]
  rfl

/-- Nothing is refused. -/
theorem opImm32_ne_ENOSUCH : c.opImm32 insn ≠ .ret .ENOSUCH c := by
  have hlt : (Insn.funct3 insn).toNat < 8 := (Insn.funct3 insn).isLt
  unfold opImm32 opImm
  dsimp only
  intro h
  split at h
  case h_8 => split at h <;> cases h
  case h_9 h0 h2 h3 h7 h6 h4 h1 h5 =>
    generalize (Insn.funct3 insn).toNat = n at *
    grind
  all_goals cases h

/-- OP-IMM-32 is executed as the architecture says exactly when the result of a whole register is
the result on words, and a `funct3` that no instruction has is never refused. -/
theorem computesWord_iff (hop : (Insn.op insn).toNat = 0b0011011) :
    c.ComputesWord insn ↔ c.WordSizedCase insn := by
  rw [ComputesWord, WordSizedCase]
  split
  case h_4 =>
    have hex : c.execute insn = some (c.opImm32 insn) := by simp only [execute, hop]
    rw [iff_false, hex, Option.some.injEq]
    exact opImm32_ne_ENOSUCH
  all_goals exact forall₂_congr fun i hdec => follows_word_iff hop hdec

/-- `addiw x1, x1, 1` on a small value. -/
theorem computesWord_iff_addiw :
    ComputesWord ⟨0, fun _ => 5, 8⟩ 0x0010809b ↔ WordSizedCase ⟨0, fun _ => 5, 8⟩ 0x0010809b :=
  computesWord_iff (by decide)

/-- `addiw x1, x1, 1` on the largest word does not wrap around. -/
theorem computesWord_addiw :
    ¬ ∀ (c : Core) (insn : BitVec 32), (Insn.op insn).toNat = 0b0011011 →
      c.ComputesWord insn := by
  intro h
  have hdec : Rv64i.decode 0x0010809b = some (.opImmW .add 1 1 1) := by decide
  have hfollows : Follows ⟨0, fun _ => 0x7fffffff, 0⟩ 0x0010809b :=
    h ⟨0, fun _ => 0x7fffffff, 0⟩ 0x0010809b (by decide) _ hdec
  have hvalue := (follows_word_iff (by decide) hdec).1 hfollows
  have hvalue' : (1 : BitVec 5) = 0 ∨
      -2 ^ 31 ≤ (0x7fffffff : Word).toInt + (1 : BitVec 32).toInt ∧
        (0x7fffffff : Word).toInt + (1 : BitVec 32).toInt < 2 ^ 31 := hvalue
  revert hvalue'
  decide

end Core

end Gran
