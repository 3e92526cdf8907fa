import Mathlib.Logic.Function.Basic

/-!
# The RV64I instruction set

The integer instructions of a 64-bit hart, as the architecture defines them: a decoder from
instruction words, and what each instruction does to the registers and the program counter. Loads
and stores are decoded to their width and their effective address; `Width.extend` is what a load
writes.
-/

namespace Gran.Rv64i

/-- The registers, of which `x0` reads 0, and the program counter. -/
structure Arch where
  x : BitVec 5 → BitVec 64
  pc : BitVec 64

namespace Arch

/-- Write a register. Writes to `x0` are lost. -/
def write (a : Arch) (rd : BitVec 5) (v : BitVec 64) : Arch :=
  if rd = 0 then a else { a with x := Function.update a.x rd v }

/-- Go to an address. -/
def goto (a : Arch) (pc : BitVec 64) : Arch := { a with pc }

/-- Go on with the next instruction. -/
def next (a : Arch) : Arch := a.goto (a.pc + 4)

end Arch

/-! ## Operations -/

/-- The register operations. -/
inductive Alu where
  | add | sub | slt | sltu | xor | or | and | sll | srl | sra
deriving DecidableEq

/-- The result of a register operation. Shifts are by the low six bits of the second operand. -/
def Alu.eval (a b : BitVec 64) : Alu → BitVec 64
  | .add => a + b
  | .sub => a - b
  | .slt => if a.toInt < b.toInt then 1 else 0
  | .sltu => if a.toNat < b.toNat then 1 else 0
  | .xor => a ^^^ b
  | .or => a ||| b
  | .and => a &&& b
  | .sll => a <<< (b.toNat % 64)
  | .srl => a >>> (b.toNat % 64)
  | .sra => a.sshiftRight (b.toNat % 64)

/-- The operations on words. -/
inductive AluW where
  | add | sll | srl | sra
deriving DecidableEq

/-- The result of an operation on words. Shifts are by the low five bits of the second operand. -/
def AluW.eval (a b : BitVec 32) : AluW → BitVec 32
  | .add => a + b
  | .sll => a <<< (b.toNat % 32)
  | .srl => a >>> (b.toNat % 32)
  | .sra => a.sshiftRight (b.toNat % 32)

/-- The conditions of branches. -/
inductive Cond where
  | eq | ne | lt | ge | ltu | geu
deriving DecidableEq

/-- A branch is taken. -/
def Cond.holds (a b : BitVec 64) : Cond → Bool
  | .eq => a = b
  | .ne => a ≠ b
  | .lt => a.toInt < b.toInt
  | .ge => b.toInt ≤ a.toInt
  | .ltu => a.toNat < b.toNat
  | .geu => b.toNat ≤ a.toNat

/-- The widths of loads and stores. -/
inductive Width where
  | byte | half | word | double
deriving DecidableEq

/-- The number of bytes. -/
def Width.bytes : Width → Nat
  | .byte => 1
  | .half => 2
  | .word => 4
  | .double => 8

/-- The low bytes of a value, extended to a register. -/
def Width.extend (w : Width) (signed : Bool) (v : BitVec 64) : BitVec 64 :=
  if signed then (v.setWidth (8 * w.bytes)).signExtend 64
  else (v.setWidth (8 * w.bytes)).setWidth 64

/-! ## Instructions -/

/-- Decoded instructions. Immediates are already extended to the width they are used at. -/
inductive Instr where
  | jal (rd : BitVec 5) (imm : BitVec 64)
  | jalr (rd rs1 : BitVec 5) (imm : BitVec 64)
  | branch (cond : Cond) (rs1 rs2 : BitVec 5) (imm : BitVec 64)
  | opImm (f : Alu) (rd rs1 : BitVec 5) (imm : BitVec 64)
  | op (f : Alu) (rd rs1 rs2 : BitVec 5)
  | opImmW (f : AluW) (rd rs1 : BitVec 5) (imm : BitVec 32)
  | load (w : Width) (signed : Bool) (rd rs1 : BitVec 5) (imm : BitVec 64)
  | store (w : Width) (rs1 rs2 : BitVec 5) (imm : BitVec 64)
  | miscMem
deriving DecidableEq

variable (i : BitVec 32)

/-- The immediate of I-type instructions. -/
def immI : BitVec 64 := (i.extractLsb' 20 12).signExtend 64

/-- The immediate of S-type instructions. -/
def immS : BitVec 64 := (i.extractLsb' 25 7 ++ i.extractLsb' 7 5).signExtend 64

/-- The immediate of B-type instructions. -/
def immB : BitVec 64 :=
  (i.extractLsb' 31 1 ++ i.extractLsb' 7 1 ++ i.extractLsb' 25 6 ++ i.extractLsb' 8 4 ++
    0#1).signExtend 64

/-- The immediate of J-type instructions. -/
def immJ : BitVec 64 :=
  (i.extractLsb' 31 1 ++ i.extractLsb' 12 8 ++ i.extractLsb' 20 1 ++ i.extractLsb' 21 10 ++
    0#1).signExtend 64

def rd : BitVec 5 := i.extractLsb' 7 5

def funct3 : BitVec 3 := i.extractLsb' 12 3

def rs1 : BitVec 5 := i.extractLsb' 15 5

def rs2 : BitVec 5 := i.extractLsb' 20 5

def funct7 : BitVec 7 := i.extractLsb' 25 7

/-- The top six bits, which tell the shifts by a constant apart. -/
def funct6 : BitVec 6 := i.extractLsb' 26 6

/-- The shift amounts of shifts by a constant. -/
def shamt : BitVec 6 := i.extractLsb' 20 6

/-- OP-IMM instructions. -/
def decodeOpImm : Option Instr :=
  let arith (f : Alu) : Option Instr := some (.opImm f (rd i) (rs1 i) (immI i))
  let shift (f : Alu) : Option Instr :=
    some (.opImm f (rd i) (rs1 i) ((shamt i).setWidth 64))
  match (funct3 i).toNat with
  | 0b000 => arith .add
  | 0b010 => arith .slt
  | 0b011 => arith .sltu
  | 0b100 => arith .xor
  | 0b110 => arith .or
  | 0b111 => arith .and
  | 0b001 => if funct6 i = 0b000000 then shift .sll else none
  | 0b101 =>
      if funct6 i = 0b000000 then shift .srl
      else if funct6 i = 0b010000 then shift .sra
      else none
  | _ => none

/-- OP instructions. -/
def decodeOp : Option Instr :=
  let reg (f : Alu) : Option Instr := some (.op f (rd i) (rs1 i) (rs2 i))
  if funct7 i = 0b0000000 then
    match (funct3 i).toNat with
    | 0b000 => reg .add
    | 0b001 => reg .sll
    | 0b010 => reg .slt
    | 0b011 => reg .sltu
    | 0b100 => reg .xor
    | 0b101 => reg .srl
    | 0b110 => reg .or
    | 0b111 => reg .and
    | _ => none
  else if funct7 i = 0b0100000 then
    match (funct3 i).toNat with
    | 0b000 => reg .sub
    | 0b101 => reg .sra
    | _ => none
  else none

/-- OP-IMM-32 instructions. -/
def decodeOpImm32 : Option Instr :=
  let shift (f : AluW) : Option Instr :=
    some (.opImmW f (rd i) (rs1 i) ((rs2 i).setWidth 32))
  match (funct3 i).toNat with
  | 0b000 => some (.opImmW .add (rd i) (rs1 i) ((immI i).setWidth 32))
  | 0b001 => if funct7 i = 0b0000000 then shift .sll else none
  | 0b101 =>
      if funct7 i = 0b0000000 then shift .srl
      else if funct7 i = 0b0100000 then shift .sra
      else none
  | _ => none

/-- BRANCH instructions. -/
def decodeBranch : Option Instr :=
  let branch (cond : Cond) : Option Instr := some (.branch cond (rs1 i) (rs2 i) (immB i))
  match (funct3 i).toNat with
  | 0b000 => branch .eq
  | 0b001 => branch .ne
  | 0b100 => branch .lt
  | 0b101 => branch .ge
  | 0b110 => branch .ltu
  | 0b111 => branch .geu
  | _ => none

/-- LOAD instructions. -/
def decodeLoad : Option Instr :=
  let load (w : Width) (signed : Bool) : Option Instr :=
    some (.load w signed (rd i) (rs1 i) (immI i))
  match (funct3 i).toNat with
  | 0b000 => load .byte true
  | 0b001 => load .half true
  | 0b010 => load .word true
  | 0b011 => load .double true
  | 0b100 => load .byte false
  | 0b101 => load .half false
  | 0b110 => load .word false
  | _ => none

/-- STORE instructions. -/
def decodeStore : Option Instr :=
  let store (w : Width) : Option Instr := some (.store w (rs1 i) (rs2 i) (immS i))
  match (funct3 i).toNat with
  | 0b000 => store .byte
  | 0b001 => store .half
  | 0b010 => store .word
  | 0b011 => store .double
  | _ => none

/-- The decoder. Reserved encodings, and the opcodes that are left out, are `none`; JALR is taken
with every `funct3`. -/
def decode : Option Instr :=
  match (i.extractLsb' 0 7).toNat with
  | 0b0000011 => decodeLoad i
  | 0b0001111 => some .miscMem
  | 0b0010011 => decodeOpImm i
  | 0b0011011 => decodeOpImm32 i
  | 0b0100011 => decodeStore i
  | 0b0110011 => decodeOp i
  | 0b1100011 => decodeBranch i
  | 0b1100111 => some (.jalr (rd i) (rs1 i) (immI i))
  | 0b1101111 => some (.jal (rd i) (immJ i))
  | _ => none

/-- What an instruction that does not access memory does to the registers and the program
counter. -/
def Instr.exec (a : Arch) : Instr → Option Arch
  | .jal rd imm => some ((a.write rd (a.pc + 4)).goto (a.pc + imm))
  | .jalr rd rs1 imm => some ((a.write rd (a.pc + 4)).goto ((a.x rs1 + imm) &&& ~~~1))
  | .branch cond rs1 rs2 imm =>
      some (a.goto (a.pc + if cond.holds (a.x rs1) (a.x rs2) then imm else 4))
  | .opImm f rd rs1 imm => some (a.write rd (f.eval (a.x rs1) imm)).next
  | .op f rd rs1 rs2 => some (a.write rd (f.eval (a.x rs1) (a.x rs2))).next
  | .opImmW f rd rs1 imm =>
      some (a.write rd ((f.eval ((a.x rs1).setWidth 32) imm).signExtend 64)).next
  | .miscMem => some a.next
  | .load .. | .store .. => none

/-! ## Opcodes -/

/-- The opcode of an instruction. -/
def Instr.opcode : Instr → Nat
  | .load .. => 0b0000011
  | .miscMem => 0b0001111
  | .opImm .. => 0b0010011
  | .opImmW .. => 0b0011011
  | .store .. => 0b0100011
  | .op .. => 0b0110011
  | .branch .. => 0b1100011
  | .jalr .. => 0b1100111
  | .jal .. => 0b1101111

section

variable {i : BitVec 32} {instr : Instr}

theorem decodeLoad_opcode (h : decodeLoad i = some instr) : instr.opcode = 0b0000011 := by
  unfold decodeLoad at h
  dsimp only at h
  split at h <;> cases h <;> rfl

theorem decodeStore_opcode (h : decodeStore i = some instr) : instr.opcode = 0b0100011 := by
  unfold decodeStore at h
  dsimp only at h
  split at h <;> cases h <;> rfl

theorem decodeOpImm_opcode (h : decodeOpImm i = some instr) : instr.opcode = 0b0010011 := by
  unfold decodeOpImm at h
  dsimp only at h
  split at h <;> repeat (first | (cases h; rfl) | cases h | split at h)

theorem decodeOp_opcode (h : decodeOp i = some instr) : instr.opcode = 0b0110011 := by
  unfold decodeOp at h
  dsimp only at h
  split at h <;> repeat (first | (cases h; rfl) | cases h | split at h)

theorem decodeOpImm32_opcode (h : decodeOpImm32 i = some instr) : instr.opcode = 0b0011011 := by
  unfold decodeOpImm32 at h
  dsimp only at h
  split at h <;> repeat (first | (cases h; rfl) | cases h | split at h)

theorem decodeBranch_opcode (h : decodeBranch i = some instr) : instr.opcode = 0b1100011 := by
  unfold decodeBranch at h
  dsimp only at h
  split at h <;> cases h <;> rfl

/-- A word decodes to an instruction of its opcode. -/
theorem decode_opcode (h : decode i = some instr) :
    (i.extractLsb' 0 7).toNat = instr.opcode := by
  unfold decode at h
  split at h
  case h_1 hop => rw [hop, decodeLoad_opcode h]
  case h_2 hop =>
    cases h
    exact hop
  case h_3 hop => rw [hop, decodeOpImm_opcode h]
  case h_4 hop => rw [hop, decodeOpImm32_opcode h]
  case h_5 hop => rw [hop, decodeStore_opcode h]
  case h_6 hop => rw [hop, decodeOp_opcode h]
  case h_7 hop => rw [hop, decodeBranch_opcode h]
  case h_8 hop =>
    cases h
    exact hop
  case h_9 hop =>
    cases h
    exact hop
  case h_10 => cases h

end

end Gran.Rv64i
