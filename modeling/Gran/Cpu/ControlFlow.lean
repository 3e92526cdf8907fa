import Gran.Cpu.Isa

/-!
# Control flow

Where the jumps, the branches and the fences of `simple_riscv64.c` go. `follows_control_iff` says
exactly when that is where the architecture has them go: the long immediates lose their top bit,
JALR is relative to the program counter, and a fence is never left.
-/

namespace Gran

open Rv64i (Arch Instr Cond)
open Rv64i.Arch

namespace Core

variable {c : Core} {insn : BitVec 32} {i : Instr}

/-- The core goes where the instruction of a word goes. The sign of a J-type immediate is bit 31 of
its word and that of a B-type immediate, too; the macros take it from the bit below. -/
def ReachesTarget (c : Core) (insn : BitVec 32) : Instr → Prop
  | .jal .. => insn.getLsbD 31 = insn.getLsbD 19
  | .jalr _ rs1 imm => c.pc = if (c.getReg rs1 + imm).getLsbD 0 then -1 else 0
  | .branch cond rs1 rs2 _ =>
      cond.holds (c.getReg rs1) (c.getReg rs2) = true → insn.getLsbD 31 = insn.getLsbD 7
  | _ => False

/-! ## Jumps -/

theorem jal_iff (hop : (Insn.op insn).toNat = 0b1101111) (hdec : Rv64i.decode insn = some i) :
    c.Follows insn ↔ c.ReachesTarget insn i := by
  have hdec' : Rv64i.decode insn = some (.jal (Rv64i.rd insn) (Rv64i.immJ insn)) := by
    have hop' : (insn.extractLsb' 0 7).toNat = 0b1101111 := hop
    simp only [Rv64i.decode, hop']
  obtain rfl := Option.some.inj (hdec'.symm.trans hdec)
  have hex : c.execute insn = some (c.jal insn) := by simp only [execute, hop]
  rw [follows_iff hdec hex, arch_jump, setReg_pc, Instr.exec, Option.some.injEq]
  refine goto_inj.trans ?_
  rw [arch_pc, BitVec.add_right_inj, eq_comm, Insn.jtypeImm_eq_iff, ReachesTarget]

/-- Clearing the lowest bit of an address and adding the program counter to it are the same at two
program counters only. -/
theorem jalr_target_iff (pc t : Word) :
    t &&& ~~~1 = pc + t ↔ pc = if t.getLsbD 0 then -1 else 0 := by
  show t &&& ~~~1#64 = pc + t ↔ _
  have hneg : -(t &&& 1#64) = if t.getLsbD 0 then -1 else 0 := by
    rw [BitVec.and_one_eq_ite]
    split <;> rfl
  have hsplit : (t &&& ~~~1#64) + (t &&& 1#64) = t := BitVec.and_not_add_and t 1#64
  have hpc : pc = -(t &&& 1#64) ↔ 0#64 = pc + (t &&& 1#64) := by
    rw [← BitVec.zero_sub, BitVec.eq_sub_iff_add_eq, eq_comm]
  have hsum : pc + t = (pc + (t &&& 1#64)) + (t &&& ~~~1#64) := by
    calc pc + t = pc + ((t &&& ~~~1#64) + (t &&& 1#64)) := by rw [hsplit]
      _ = (pc + (t &&& 1#64)) + (t &&& ~~~1#64) := by ac_rfl
  have hcancel := BitVec.add_left_inj (x := 0#64) (y := pc + (t &&& 1#64)) (t &&& ~~~1#64)
  rw [BitVec.zero_add] at hcancel
  rw [← hneg, hpc, hsum, hcancel]

theorem jalr_iff (hop : (Insn.op insn).toNat = 0b1100111) (hdec : Rv64i.decode insn = some i) :
    c.Follows insn ↔ c.ReachesTarget insn i := by
  have hdec' : Rv64i.decode insn =
      some (.jalr (Rv64i.rd insn) (Rv64i.rs1 insn) (Rv64i.immI insn)) := by
    have hop' : (insn.extractLsb' 0 7).toNat = 0b1100111 := hop
    simp only [Rv64i.decode, hop']
  obtain rfl := Option.some.inj (hdec'.symm.trans hdec)
  have hex : c.execute insn = some (c.jalr insn) := by simp only [execute, hop]
  rw [follows_iff hdec hex, arch_jump, setReg_pc, Instr.exec, Option.some.injEq,
    Insn.itypeImm_eq]
  refine goto_inj.trans ?_
  exact jalr_target_iff c.pc (c.getReg (Rv64i.rs1 insn) + Rv64i.immI insn)

/-! ## Branches -/

/-- The core compares as the architecture does, and goes on by the immediate of the macro. -/
theorem decodeBranch_spec (hdec : Rv64i.decodeBranch insn = some i) :
    ∃ cond, i = .branch cond (Rv64i.rs1 insn) (Rv64i.rs2 insn) (Rv64i.immB insn) ∧
      c.branch insn = .ret .OK { c with
        pc := c.pc + if cond.holds (c.getReg (Rv64i.rs1 insn)) (c.getReg (Rv64i.rs2 insn))
          then Insn.btypeImm insn else 4 } := by
  have hne (a b : Word) : (a != b) = Cond.ne.holds a b := by
    simp only [Cond.holds, bne, BEq.beq, decide_not]
  simp only [branch, hne]
  unfold Rv64i.decodeBranch at hdec
  dsimp only at hdec
  -- the same six values of `funct3` on both sides
  split at hdec <;> cases hdec <;> refine ⟨_, rfl, ?_⟩ <;>
    simp only [show (Insn.funct3 insn).toNat = _ by assumption] <;> rfl

theorem branch_iff (hop : (Insn.op insn).toNat = 0b1100011)
    (hdec : Rv64i.decode insn = some i) : c.Follows insn ↔ c.ReachesTarget insn i := by
  have hdec' : Rv64i.decodeBranch insn = some i := by
    have hop' : (insn.extractLsb' 0 7).toNat = 0b1100011 := hop
    simpa only [Rv64i.decode, hop'] using hdec
  have hex : c.execute insn = some (c.branch insn) := by simp only [execute, hop]
  obtain ⟨cond, rfl, hbranch⟩ := decodeBranch_spec (c := c) hdec'
  rw [hbranch] at hex
  rw [follows_iff hdec hex, Instr.exec, Option.some.injEq]
  refine goto_inj.trans ?_
  rw [arch_pc, BitVec.add_right_inj, arch_x, ReachesTarget]
  by_cases htaken : cond.holds (c.getReg (Rv64i.rs1 insn)) (c.getReg (Rv64i.rs2 insn)) = true
  · rw [if_pos htaken, if_pos htaken, eq_comm, Insn.btypeImm_eq_iff]
    exact ⟨fun h _ => h, fun h => h htaken⟩
  · rw [if_neg htaken, if_neg htaken]
    exact ⟨fun _ h => absurd h htaken, fun _ => rfl⟩

/-! ## Fences -/

theorem miscMem_iff (hop : (Insn.op insn).toNat = 0b0001111)
    (hdec : Rv64i.decode insn = some i) : c.Follows insn ↔ c.ReachesTarget insn i := by
  have hdec' : Rv64i.decode insn = some .miscMem := by
    have hop' : (insn.extractLsb' 0 7).toNat = 0b0001111 := hop
    simp only [Rv64i.decode, hop']
  obtain rfl := Option.some.inj (hdec'.symm.trans hdec)
  have hex : c.execute insn = some (.ret .OK c) := by simp only [execute, hop]
  rw [follows_iff hdec hex, Instr.exec, Option.some.injEq]
  show c.arch.next = c.arch ↔ False
  rw [iff_false]
  intro h
  -- the program counter stays
  have hpc : c.pc + 4 = c.pc := congrArg Arch.pc h
  simp at hpc

/-! ## All of them -/

/-- The opcodes JAL, JALR, BRANCH and MISC-MEM. -/
def controlOpcodes : List Nat := [0b1101111, 0b1100111, 0b1100011, 0b0001111]

/-- Jumps, branches and fences go where the architecture has them go, and write what it has them
write, exactly when the sign of their immediate is also in the bit below it, or the branch is not
taken; a JALR only at program counter 0 or, to an odd target, -1; and a fence never. -/
theorem follows_control_iff (hop : (Insn.op insn).toNat ∈ controlOpcodes)
    (hdec : Rv64i.decode insn = some i) : c.Follows insn ↔ c.ReachesTarget insn i := by
  simp only [controlOpcodes, List.mem_cons, List.not_mem_nil, or_false] at hop
  obtain hop | hop | hop | hop := hop
  · exact jal_iff hop hdec
  · exact jalr_iff hop hdec
  · exact branch_iff hop hdec
  · exact miscMem_iff hop hdec

/-- A taken branch backwards, `beq x0, x0, -4` at address 8. -/
theorem follows_control_iff_beq :
    Follows ⟨0, fun _ => 0, 8⟩ 0xfe000ee3 ↔
      ReachesTarget ⟨0, fun _ => 0, 8⟩ 0xfe000ee3 (.branch .eq 0 0 (-4)) :=
  follows_control_iff (by decide) (by decide)

/-- A return, `jalr x0, 0(x1)` at address 0x100 with 0x40 in `x1`, does not go to 0x40. -/
theorem follows_control_ret :
    ¬ ∀ (c : Core) (insn : BitVec 32) (i : Instr), (Insn.op insn).toNat ∈ controlOpcodes →
      Rv64i.decode insn = some i → c.Follows insn := by
  intro h
  have hdec : Rv64i.decode 0x00008067 = some (.jalr 0 1 0) := by decide
  have hfollows := h ⟨0, fun _ => 0x40, 0x100⟩ 0x00008067 (.jalr 0 1 0) (by decide) hdec
  have htarget : (0x100 : Word) = if (0x40 + 0 : Word).getLsbD 0 then -1 else 0 :=
    (jalr_iff (by decide) hdec).1 hfollows
  revert htarget
  decide

end Core

end Gran
