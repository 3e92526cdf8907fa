import Gran.Common

/-!
# A simple RISC-V core

`simple_riscv64.c`: a core with one outstanding data request (`dls`), one outstanding fetch (`ils`)
and one control acknowledgement (`cls`). An instruction runs once its word was fetched and the
request of the instruction before it was answered; the next fetch is sent in the same clock. What
instructions see is `Core`, and an instruction either changes the core or makes a request
(`Outcome`), which `issue` sends. A failed `assert` or an `abort` is `none`.

`trace` is not in the source. It logs each instruction the core runs with what it saw.
-/

namespace Gran

/-- The type `enum ldst_state`. -/
inductive LdstState where
  | IDLE | BLOCKED | SENT | DONE
deriving DecidableEq

/-- `struct ldst`. The register is a five-bit field of an instruction, so that the assertions of
`get_reg` and `set_reg` hold by its type. -/
structure Ldst where
  pkt : Packet
  state : LdstState
  reg : BitVec 5
  u : Bool

/-- A state after `calloc`. -/
def Ldst.idle : Ldst := ⟨.zero, .IDLE, 0, false⟩

/-- The part of `struct simple_riscv64` that instructions work on. -/
structure Core where
  rcv : Word
  regs : BitVec 5 → Word
  pc : Word

/-- An instruction word that was run, with the registers and the program counter it saw. -/
structure Ran where
  insn : BitVec 32
  regs : BitVec 5 → Word
  pc : Word

/-- `struct simple_riscv64`. The component that wrote the last control word is `none` until there
was one. -/
structure Cpu (C : Type) extends Core where
  dls : Ldst
  ils : Ldst
  cls : Ldst
  ctrl : Option C
  sleep : Bool
  trace : List Ran

/-- Calls to `SEND` on the two memories and on a control component, with what they answer. -/
structure CpuPorts (C W : Type) where
  imem : Packet → W → Option (Stat × W)
  dmem : Packet → W → Option (Stat × W)
  ctrl : C → Packet → W → Option (Stat × W)

/-! ## Instruction words -/

namespace Insn

/-- `rtype.op`, the same bits in every format. -/
def op (i : BitVec 32) : BitVec 7 := i.extractLsb' 0 7

def rd (i : BitVec 32) : BitVec 5 := i.extractLsb' 7 5

def funct3 (i : BitVec 32) : BitVec 3 := i.extractLsb' 12 3

def rs1 (i : BitVec 32) : BitVec 5 := i.extractLsb' 15 5

def rs2 (i : BitVec 32) : BitVec 5 := i.extractLsb' 20 5

def funct7 (i : BitVec 32) : BitVec 7 := i.extractLsb' 25 7

/-- `EXTEND_IMM12`, assigned to a 64-bit variable. -/
def extendImm12 (x : BitVec 32) : Word := ((x <<< 20).sshiftRight 20).signExtend 64

/-- `EXTEND_IMM20`, assigned to a 64-bit variable. -/
def extendImm20 (x : BitVec 32) : Word := ((x <<< 12).sshiftRight 12).signExtend 64

/-- A bit field of an instruction, as a 32-bit operand. -/
def field (i : BitVec 32) (lo len : Nat) : BitVec 32 := (i.extractLsb' lo len).zeroExtend 32

/-- `EXTEND_IMM12(insn.itype.imm)`. -/
def itypeImm (i : BitVec 32) : Word := extendImm12 (field i 20 12)

/-- `STYPE_IMM`. -/
def stypeImm (i : BitVec 32) : Word := extendImm12 (field i 25 7 <<< 5 ||| field i 7 5)

/-- `BTYPE_IMM`. Its top bit is shifted out by `EXTEND_IMM12`. -/
def btypeImm (i : BitVec 32) : Word :=
  extendImm12 (field i 31 1 <<< 12 ||| field i 25 6 <<< 5 ||| field i 8 4 <<< 1 |||
    field i 7 1 <<< 11)

/-- `insn.utype.imm << 12`, a signed 32-bit product. -/
def utypeImm (i : BitVec 32) : Word := (field i 12 20 <<< 12).signExtend 64

/-- `JTYPE_IMM`. Its top bit is shifted out by `EXTEND_IMM20`. -/
def jtypeImm (i : BitVec 32) : Word :=
  extendImm20 (field i 31 1 <<< 20 ||| field i 21 10 <<< 1 ||| field i 20 1 <<< 11 |||
    field i 12 8 <<< 12)

end Insn

open Insn

namespace Core

/-- `get_reg`. -/
def getReg (c : Core) (i : BitVec 5) : Word := if i = 0 then 0 else c.regs i

/-- `set_reg`. -/
def setReg (c : Core) (i : BitVec 5) (v : Word) : Core :=
  if i = 0 then c else { c with regs := Function.update c.regs i v }

/-- What an instruction does to a core: it returns a status with the new core, or it makes a data
request. -/
inductive Outcome where
  | ret (ret : Stat) (core : Core)
  | request (ld : Ldst)

/-- A comparison result as a register value. -/
def ofBool (b : Bool) : Word := if b then 1 else 0

/-- `SHAMT`. -/
def shamt (x : Word) : Nat := (x &&& 0b111111).toNat

/-- The common end of the register instructions. -/
def writeback (c : Core) (rd : BitVec 5) (dst : Word) : Outcome :=
  let c := c.setReg rd dst
  .ret .OK { c with pc := c.pc + 4 }

/-- `op_imm`. -/
def opImm (c : Core) (insn : BitVec 32) : Outcome :=
  let src := c.getReg (rs1 insn)
  let imm := itypeImm insn
  match (funct3 insn).toNat with
  | 0b000 => c.writeback (rd insn) (src + imm)
  | 0b010 => c.writeback (rd insn) (ofBool (src.slt imm))
  | 0b011 => c.writeback (rd insn) (ofBool (src.ult imm))
  | 0b111 => c.writeback (rd insn) (src &&& imm)
  | 0b110 => c.writeback (rd insn) (src ||| imm)
  | 0b100 => c.writeback (rd insn) (src ^^^ imm)
  | 0b001 => c.writeback (rd insn) (src <<< shamt imm)
  | 0b101 =>
      if imm &&& ~~~0b11111 ≠ 0 then c.writeback (rd insn) (src >>> shamt imm)
      else c.writeback (rd insn) (src.sshiftRight (shamt imm))
  | _ => .ret .ENOSUCH c

/-- `op_imm_32`, which repeats `op_imm`. -/
def opImm32 (c : Core) (insn : BitVec 32) : Outcome := c.opImm insn

/-- `lui`. -/
def lui (c : Core) (insn : BitVec 32) : Outcome := c.writeback (rd insn) (utypeImm insn)

/-- `auipc`. -/
def auipc (c : Core) (insn : BitVec 32) : Outcome := c.writeback (rd insn) (c.pc + utypeImm insn)

/-- `op`. A shift by a register uses its low six bits, as the host does. -/
def op (c : Core) (insn : BitVec 32) : Outcome :=
  let src1 := c.getReg (rs1 insn)
  let src2 := c.getReg (rs2 insn)
  match (funct3 insn).toNat with
  | 0b000 =>
      if funct7 insn ≠ 0 then c.writeback (rd insn) (src1 - src2)
      else c.writeback (rd insn) (src1 + src2)
  | 0b010 => c.writeback (rd insn) (ofBool (src1.slt src2))
  | 0b011 => c.writeback (rd insn) (ofBool (src1.ult src2))
  | 0b111 => c.writeback (rd insn) (src1 &&& src2)
  | 0b110 => c.writeback (rd insn) (src1 ||| src2)
  | 0b100 => c.writeback (rd insn) (src1 ^^^ src2)
  | 0b001 => c.writeback (rd insn) (src1 <<< shamt src2)
  | 0b101 =>
      if funct7 insn ≠ 0 then c.writeback (rd insn) (src1 >>> shamt src2)
      else c.writeback (rd insn) (src1.sshiftRight (shamt src2))
  | _ => .ret .ENOSUCH c

/-- `jal`. -/
def jal (c : Core) (insn : BitVec 32) : Outcome :=
  let imm := jtypeImm insn
  let c := c.setReg (rd insn) (c.pc + 4)
  .ret .OK { c with pc := c.pc + imm }

/-- `jalr`. The target is relative to the program counter. -/
def jalr (c : Core) (insn : BitVec 32) : Outcome :=
  let src := c.getReg (rs1 insn)
  let c := c.setReg (rd insn) (c.pc + 4)
  .ret .OK { c with pc := c.pc + (src + itypeImm insn) }

/-- `branch`. -/
def branch (c : Core) (insn : BitVec 32) : Outcome :=
  let src1 := c.getReg (rs1 insn)
  let src2 := c.getReg (rs2 insn)
  let jump (taken : Bool) : Outcome :=
    .ret .OK { c with pc := c.pc + if taken then btypeImm insn else 4 }
  match (funct3 insn).toNat with
  | 0b000 => jump (src1 == src2)
  | 0b001 => jump (src1 != src2)
  | 0b100 => jump (src1.slt src2)
  | 0b110 => jump (src1.ult src2)
  | 0b101 => jump (src2.sle src1)
  | 0b111 => jump (src2.ule src1)
  | _ => .ret .ENOSUCH c

/-- `load`, up to the `SEND`. -/
def load (c : Core) (insn : BitVec 32) : Option Outcome :=
  let addr := c.getReg (rs1 insn) + itypeImm insn
  let read (size : Word) (u : Bool) : Option Outcome := do
    let pkt ← createPacket c.rcv addr size (fun _ => 0) PACKET_READ
    pure (.request ⟨pkt, .SENT, rd insn, u⟩)
  match (funct3 insn).toNat with
  | 0b100 => read 1 true
  | 0b000 => read 1 false
  | 0b101 => read 2 true
  | 0b001 => read 2 false
  | 0b110 => read 4 true
  | 0b010 => read 4 false
  | 0b011 => read 8 false
  | _ => some (.ret .ENOSUCH c)

/-- `store`, up to the `SEND`. -/
def store (c : Core) (insn : BitVec 32) : Option Outcome :=
  let addr := c.getReg (rs1 insn) + stypeImm insn
  let src := c.getReg (rs2 insn)
  let write (size : Word) : Option Outcome := do
    let pkt ← createPacket c.rcv addr size (fun i => (src >>> (8 * i)).truncate 8) PACKET_WRITE
    pure (.request ⟨pkt, .SENT, 0, false⟩)
  match (funct3 insn).toNat with
  | 0b000 => write 1
  | 0b001 => write 2
  | 0b010 => write 4
  | 0b011 => write 8
  | _ => some (.ret .ENOSUCH c)

/-- The `switch` of `simple_riscv64_clock` over the opcode. -/
def execute (c : Core) (insn : BitVec 32) : Option Outcome :=
  match (Insn.op insn).toNat with
  | 0b0010011 => some (c.opImm insn)
  | 0b0011011 => some (c.opImm32 insn)
  | 0b0110111 => some (c.lui insn)
  | 0b0010111 => some (c.auipc insn)
  | 0b0110011 => some (c.op insn)
  | 0b1101111 => some (c.jal insn)
  | 0b1100111 => some (c.jalr insn)
  | 0b1100011 => some (c.branch insn)
  | 0b0000011 => c.load insn
  | 0b0100011 => c.store insn
  | 0b0001111 => some (.ret .OK c)
  | 0b1110011 => some (.ret .DONE c)
  | _ => some (.ret .ENOSUCH c)

/-- `finalize_ld`. -/
def finalizeLd (c : Core) (ld : Ldst) : Option Core := do
  let val ← match ← packetConvsize ld.pkt with
    | 1 => if ld.u then (packetConvu8 ld.pkt).map (·.zeroExtend 64) else packetConvi8 ld.pkt
    | 2 =>
        if ld.u then (packetConvu16 ld.pkt).map (·.zeroExtend 64)
        else (packetConvi16 ld.pkt).map (·.signExtend 64)
    | 4 =>
        if ld.u then (packetConvi32 ld.pkt).map (·.signExtend 64)
        else (packetConvu32 ld.pkt).map (·.zeroExtend 64)
    | 8 => packetConvu64 ld.pkt
    | _ => some 0
  pure (c.setReg ld.reg val)

/-- `finalize_dls`. Nothing is left to do for a store. -/
def finalizeDls (c : Core) (ld : Ldst) : Option Core :=
  if isSet ld.pkt PACKET_READ then c.finalizeLd ld else some c

/-- The fetch of the instruction at the program counter. -/
def fetch (c : Core) : Option Packet :=
  createPacket (c.rcv + 64) c.pc 4 (fun _ => 0) PACKET_READ

end Core

namespace Cpu

variable {C W : Type} (ports : CpuPorts C W)

/-- `create_simple_riscv64`, with the registers that `simple_riscv64_set_reg` sets. -/
def create (rcv startPc : Word) (regs : BitVec 5 → Word) : Option (Cpu C) := do
  let core : Core := ⟨rcv, regs, startPc⟩
  let pkt ← core.fetch
  pure { core with
    dls := .idle, ils := ⟨pkt, .BLOCKED, 0, false⟩, cls := .idle
    ctrl := none, sleep := false, trace := [] }

/-- `simple_riscv64_receive`. -/
def simpleRiscv64Receive (sender : C) (pkt : Packet) (c : Cpu C) (w : W) :
    Option (Stat × Cpu C × W) :=
  if pkt.dst = c.rcv then
    some (.OK, { c with dls := { c.dls with pkt, state := .DONE } }, w)
  else if pkt.dst = c.rcv + 64 then
    some (.OK, { c with ils := { c.ils with pkt, state := .DONE } }, w)
  else if pkt.dst = c.rcv + 128 then do
    guard (packetConvsize pkt = some 8)
    if c.cls.state = .BLOCKED then pure (.EBUSY, c, w) else
    let v ← packetConvu64 pkt
    if v ≠ 0 ∧ v ≠ 1 then pure (.EBUS, c, w) else
    let pkt := response pkt
    let c := { c with
      sleep := decide (v = 0), ctrl := some sender, cls := ⟨pkt, .IDLE, 0, false⟩ }
    let (ret, w) ← ports.ctrl sender pkt w
    if ret = .EBUSY then pure (.OK, { c with cls := { c.cls with state := .BLOCKED } }, w)
    else pure (.OK, c, w)
  else some (.EBUS, c, w)

/-- The start of `simple_riscv64_clock`: a control acknowledgement that was refused is sent again.
The flag says that the clock goes on. -/
def clockCtrl (c : Cpu C) (w : W) : Option (Bool × Cpu C × W) :=
  if c.cls.state ≠ .IDLE then do
    guard (c.cls.state = .BLOCKED)
    let ctrl ← c.ctrl
    let (r, w) ← ports.ctrl ctrl c.cls.pkt w
    if r = .EBUSY then pure (false, c, w)
    else pure (true, { c with cls := { c.cls with state := .IDLE } }, w)
  else some (true, c, w)

/-- The part of `simple_riscv64_clock` that handles an active data transfer. The flag says that the
clock goes on. -/
def clockData (c : Cpu C) (w : W) : Option (Bool × Cpu C × W) :=
  match c.dls.state with
  | .IDLE => some (true, c, w)
  | .BLOCKED => do
      guard (!isSet c.dls.pkt PACKET_ERROR)
      let (r, w) ← ports.dmem c.dls.pkt w
      if r = .EBUSY then pure (false, c, w)
      else pure (false, { c with dls := { c.dls with state := .SENT } }, w)
  | .SENT => do
      guard (!isSet c.dls.pkt PACKET_ERROR)
      pure (false, c, w)
  | .DONE => do
      guard (!isSet c.dls.pkt PACKET_ERROR)
      let core ← c.toCore.finalizeDls c.dls
      pure (true, { c with toCore := core, dls := { c.dls with state := .IDLE } }, w)

/-- The end of `load` and `store`: the request is sent, and kept when it was refused. -/
def issue (ld : Ldst) (c : Cpu C) (w : W) : Option (Stat × Cpu C × W) := do
  let c := { c with dls := ld }
  let (ret, w) ← ports.dmem ld.pkt w
  if ret = .EBUSY then
    pure (.OK, { c with dls := { ld with state := .BLOCKED }, pc := c.pc + 4 }, w)
  else pure (ret, { c with pc := c.pc + 4 }, w)

/-- Run one instruction. -/
def run (insn : BitVec 32) (c : Cpu C) (w : W) : Option (Stat × Cpu C × W) := do
  let c := { c with trace := ⟨insn, c.regs, c.pc⟩ :: c.trace }
  match ← c.toCore.execute insn with
  | .ret ret core => pure (ret, { c with toCore := core }, w)
  | .request ld => issue ports ld c w

/-- The end of `simple_riscv64_clock` from the label `send`. -/
def clockSend (c : Cpu C) (w : W) : Option (Stat × Cpu C × W) :=
  if c.ils.state = .BLOCKED then do
    let (ret, w) ← ports.imem c.ils.pkt w
    if ret = .EBUSY then pure (.OK, c, w) else
    if ret ≠ .OK then pure (ret, c, w) else
    pure (.OK, { c with ils := { c.ils with state := .SENT } }, w)
  else some (.OK, c, w)

/-- The middle of `simple_riscv64_clock`: an instruction is run, the NOP that is `OP_IMM` unless one
was fetched, and the next one is fetched. -/
def clockRun (c : Cpu C) (w : W) : Option (Stat × Cpu C × W) := do
  let insn ← if c.ils.state = .DONE then do
      guard (!isSet c.dls.pkt PACKET_ERROR)
      packetConvu32 c.ils.pkt
    else some 0b0010011
  let c := { c with ils := { c.ils with state := .IDLE } }
  let (ret, c, w) ← run ports insn c w
  if ret ≠ .OK then pure (ret, c, w) else
  let pkt ← c.toCore.fetch
  clockSend ports { c with ils := { c.ils with pkt, state := .BLOCKED } } w

/-- `simple_riscv64_clock`. -/
def simpleRiscv64Clock (c : Cpu C) (w : W) : Option (Stat × Cpu C × W) := do
  let (go, c, w) ← clockCtrl ports c w
  if !go then pure (.OK, c, w) else
  if c.sleep then pure (.OK, c, w) else
  let (go, c, w) ← clockData ports c w
  if !go then pure (.OK, c, w) else
  match c.ils.state with
  | .BLOCKED => clockSend ports c w
  | .SENT => pure (.OK, c, w)
  | _ => clockRun ports c w

end Cpu

end Gran
