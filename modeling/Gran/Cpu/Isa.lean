import Gran.Cpu.Interpreter
import Gran.Foundations.Rv64i
import Gran.Foundations.MachineWords

/-!
# The core against the architecture

What programs see of a core (`Core.arch`), the immediates that its macros put together against
those of the architecture, and what it means that a core executes an instruction word as the
architecture says (`Core.Follows`).
-/

namespace Gran

open Rv64i (Arch Instr)

/-! ## Immediates -/

namespace Insn

variable (i : BitVec 32)

/-- `extend_imm12` extends the sign of twelve bits. -/
theorem extendImm12_eq (x : BitVec 32) : extendImm12 x = (x.setWidth 12).signExtend 64 :=
  BitVec.signExtend_sshiftRight_shiftLeft (k := 20) (w := 12) x (by omega)

/-- `extend_imm20` extends the sign of twenty bits. -/
theorem extendImm20_eq (x : BitVec 32) : extendImm20 x = (x.setWidth 20).signExtend 64 :=
  BitVec.signExtend_sshiftRight_shiftLeft (k := 12) (w := 20) x (by omega)

/-- The immediate of an I-type instruction is the architecture's. -/
theorem itypeImm_eq : itypeImm i = Rv64i.immI i := by
  rw [itypeImm, extendImm12_eq, Rv64i.immI]
  congr 1
  ext j hj
  simp only [field, BitVec.getElem_setWidth, BitVec.getLsbD_setWidth,
    BitVec.getElem_extractLsb', BitVec.getLsbD_extractLsb']
  grind

/-- The immediate of an S-type instruction is the architecture's. -/
theorem stypeImm_eq : stypeImm i = Rv64i.immS i := by
  rw [stypeImm, extendImm12_eq, Rv64i.immS]
  congr 1
  apply BitVec.eq_of_getLsbD_eq
  intro j hj
  simp only [field, BitVec.getLsbD_setWidth, BitVec.getLsbD_append, BitVec.getLsbD_or,
    BitVec.getLsbD_shiftLeft, BitVec.getLsbD_extractLsb']
  grind

/-- The bits of a B-type immediate, without the extension. -/
def rawB : BitVec 13 :=
  i.extractLsb' 31 1 ++ i.extractLsb' 7 1 ++ i.extractLsb' 25 6 ++ i.extractLsb' 8 4 ++ 0#1

/-- The bits of a J-type immediate, without the extension. -/
def rawJ : BitVec 21 :=
  i.extractLsb' 31 1 ++ i.extractLsb' 12 8 ++ i.extractLsb' 20 1 ++ i.extractLsb' 21 10 ++ 0#1

/-- The immediate of a B-type instruction in terms of its raw bits. -/
theorem btypeImm_eq : btypeImm i = ((rawB i).setWidth 12).signExtend 64 := by
  rw [btypeImm, extendImm12_eq]
  congr 1
  apply BitVec.eq_of_getLsbD_eq
  intro j hj
  simp only [field, rawB, BitVec.getLsbD_setWidth, BitVec.getLsbD_append, BitVec.getLsbD_or,
    BitVec.getLsbD_shiftLeft, BitVec.getLsbD_extractLsb', BitVec.getLsbD_zero]
  grind

/-- The immediate of a J-type instruction in terms of its raw bits. -/
theorem jtypeImm_eq : jtypeImm i = ((rawJ i).setWidth 20).signExtend 64 := by
  rw [jtypeImm, extendImm20_eq]
  congr 1
  apply BitVec.eq_of_getLsbD_eq
  intro j hj
  simp only [field, rawJ, BitVec.getLsbD_setWidth, BitVec.getLsbD_append, BitVec.getLsbD_or,
    BitVec.getLsbD_shiftLeft, BitVec.getLsbD_extractLsb', BitVec.getLsbD_zero]
  grind

/-- `BTYPE_IMM` takes the sign from the bit below it. -/
theorem btypeImm_eq_iff : btypeImm i = Rv64i.immB i ↔ i.getLsbD 31 = i.getLsbD 7 := by
  have hsign : (rawB i).getLsbD 12 = i.getLsbD 31 := by
    simp only [rawB, BitVec.getLsbD_append, BitVec.getLsbD_extractLsb']
    rfl
  have hbelow : (rawB i).getLsbD 11 = i.getLsbD 7 := by
    simp only [rawB, BitVec.getLsbD_append, BitVec.getLsbD_extractLsb']
    rfl
  rw [btypeImm_eq, ← hsign, ← hbelow]
  exact BitVec.signExtend_setWidth_iff (rawB i) (by omega) (by omega)

/-- `JTYPE_IMM` takes the sign from the bit below it. -/
theorem jtypeImm_eq_iff : jtypeImm i = Rv64i.immJ i ↔ i.getLsbD 31 = i.getLsbD 19 := by
  have hsign : (rawJ i).getLsbD 20 = i.getLsbD 31 := by
    simp only [rawJ, BitVec.getLsbD_append, BitVec.getLsbD_extractLsb']
    rfl
  have hbelow : (rawJ i).getLsbD 19 = i.getLsbD 19 := by
    simp only [rawJ, BitVec.getLsbD_append, BitVec.getLsbD_extractLsb']
    rfl
  rw [jtypeImm_eq, ← hsign, ← hbelow]
  exact BitVec.signExtend_setWidth_iff (rawJ i) (by omega) (by omega)

end Insn

/-! ## Fields -/

namespace Insn

variable (i : BitVec 32)

@[simp] theorem rd_eq : rd i = Rv64i.rd i := rfl
@[simp] theorem rs1_eq : rs1 i = Rv64i.rs1 i := rfl
@[simp] theorem rs2_eq : rs2 i = Rv64i.rs2 i := rfl
@[simp] theorem funct3_eq : funct3 i = Rv64i.funct3 i := rfl
@[simp] theorem funct7_eq : funct7 i = Rv64i.funct7 i := rfl

end Insn

/-! ## Registers -/

namespace Core

/-- What programs see of a core. -/
def arch (c : Core) : Arch := ⟨c.getReg, c.pc⟩

variable {c c' : Core} {insn : BitVec 32} {i : Instr}

@[simp] theorem arch_x : c.arch.x = c.getReg := rfl

@[simp] theorem arch_pc : c.arch.pc = c.pc := rfl

@[simp] theorem getReg_zero : c.getReg 0 = 0 := rfl

/-- Moving the program counter. -/
theorem arch_goto (pc : Word) : ({ c with pc } : Core).arch = c.arch.goto pc := rfl

/-- Writing a register writes that of the architecture. -/
theorem arch_setReg (rd : BitVec 5) (v : Word) : (c.setReg rd v).arch = c.arch.write rd v := by
  unfold setReg Arch.write
  split
  case isTrue h => rfl
  case isFalse h =>
    simp only [arch, Arch.mk.injEq, and_true]
    funext j
    by_cases hj : j = 0
    · subst hj
      rw [Function.update_of_ne (Ne.symm h)]
      rfl
    · simp only [getReg, hj, if_false, Function.update_apply]

/-- Writing a register and moving the program counter. -/
theorem arch_jump (rd : BitVec 5) (v pc : Word) :
    ({ c.setReg rd v with pc } : Core).arch = (c.arch.write rd v).goto pc := by
  rw [arch_goto, arch_setReg]

/-- The register instructions write one register and go on. -/
theorem writeback_arch (rd : BitVec 5) (v : Word) :
    ∃ c', c.writeback rd v = .ret .OK c' ∧ c'.arch = (c.arch.write rd v).next := by
  refine ⟨_, rfl, ?_⟩
  show ((c.setReg rd v).arch.goto ((c.setReg rd v).arch.pc + 4)) = _
  rw [arch_setReg]
  rfl

/-- The core executes an instruction word as the architecture says. -/
def Follows (c : Core) (insn : BitVec 32) : Prop :=
  ∃ c', c.execute insn = some (.ret .OK c') ∧
    (Rv64i.decode insn).bind (Instr.exec c.arch) = some c'.arch

/-- An instruction that returns follows the architecture if the states agree. -/
theorem follows_iff (hdec : Rv64i.decode insn = some i)
    (hex : c.execute insn = some (.ret .OK c')) :
    c.Follows insn ↔ i.exec c.arch = some c'.arch := by
  simp [Follows, hdec, hex]

end Core

/-! ## States of the architecture -/

namespace Rv64i.Arch

variable {a : Arch} {rd : BitVec 5} {v v' pc pc' : Word}

/-- States that go on elsewhere are the same exactly if they go on at one place. -/
theorem goto_inj : a.goto pc = a.goto pc' ↔ pc = pc' := by
  simp [goto]

/-- Two values are told apart by what they leave in a register other than `x0`. -/
theorem write_inj : a.write rd v = a.write rd v' ↔ rd = 0 ∨ v = v' := by
  by_cases hrd : rd = 0
  · simp [write, hrd]
  · simp only [write, hrd, if_false, false_or, mk.injEq, and_true]
    exact (Function.update_injective a.x rd).eq_iff

/-- Writing a register and going on can be swapped. -/
theorem write_next : a.next.write rd v = (a.write rd v).next := by
  unfold write
  split <;> rfl

/-- States are the same if they are the same after going on. -/
theorem next_inj {a' : Arch} : a.next = a'.next ↔ a = a' := by
  cases a
  cases a'
  simp [next, goto]

end Rv64i.Arch

end Gran
