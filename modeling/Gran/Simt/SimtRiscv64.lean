import Gran.Cpu.SimpleRiscv64
import Gran.Simt.Table

/-!
# A SIMT core

`simt_riscv64.c`: lanes that are simple cores, in front of one request table for data and one for
instructions. A lane sends to the interfaces, which forward to the two memories; a clock sends the
queued requests of both tables and then clocks the lanes in order.
-/

namespace Gran

open Simt

/-- `struct simt_riscv64_conf`. -/
structure SimtRiscv64Conf where
  dataRcv : Word
  instRcv : Word
  startPc : Word
  numLanes : Nat

/-- The components of a `struct simt_riscv64`: the memories and the lanes, which are created apart
from them. -/
structure SimtRiscv64 (C : Type) where
  conf : SimtRiscv64Conf
  imem : C
  dmem : C
  lane : Nat → C
  lane_ne_imem : ∀ i, imem ≠ lane i
  lane_ne_dmem : ∀ i, dmem ≠ lane i

/-- The request tables, with what is behind the two memories. -/
structure Tables (V U : Type) where
  dataRqs : SimtIntf.Reqs
  instRqs : SimtIntf.Reqs
  dmem : V
  imem : U

namespace SimtRiscv64

variable {C V U : Type} (c : SimtRiscv64 C)

/-- The interface for data. -/
def dmemIntf : SimtIntf C := ⟨c.dmem, c.conf.dataRcv, c.conf.numLanes⟩

/-- The interface for instructions. -/
def imemIntf : SimtIntf C := ⟨c.imem, c.conf.instRcv, c.conf.numLanes⟩

/-- The address that lane `i` gets data at. -/
def laneRcv (i : Nat) : Word := BitVec.ofNat 64 i <<< 32

/-- `create_simt_riscv64`: lane `i` with the registers that `simt_riscv64_set_reg` sets. -/
def createLane (regs : Nat → BitVec 5 → Word) (i : Nat) : Option (Cpu C) :=
  Cpu.create (laneRcv i) c.conf.startPc (regs i)

/-- `create_simt_riscv64`: the tables. -/
def createTables (dmem : V) (imem : U) : Tables V U :=
  ⟨fun _ => .empty, fun _ => .empty, dmem, imem⟩

variable [DecidableEq C] (dports : Ports V) (iports : Ports U)

/-- `simt_riscv64_data_receive` and `simt_riscv64_inst_receive` as lane `i` calls them. No component
writes control words to a lane. -/
def cpuPorts (i : Nat) : CpuPorts C (Tables V U) where
  dmem p t := do
    let (r, dataRqs, dmem) ← c.dmemIntf.simtRiscv64Receive dports (c.lane i) p t.dataRqs t.dmem
    pure (r, { t with dataRqs, dmem })
  imem p t := do
    let (r, instRqs, imem) ← c.imemIntf.simtRiscv64Receive iports (c.lane i) p t.instRqs t.imem
    pure (r, { t with instRqs, imem })
  ctrl _ _ _ := none

/-- The loop of `simt_riscv64_clock` over the lanes. A status other than `OK` ends it. -/
def clockLanes (cpus : Nat → Cpu C) (t : Tables V U) :
    List Nat → Option (Stat × (Nat → Cpu C) × Tables V U)
  | [] => some (.OK, cpus, t)
  | i :: rest => do
      let (r, cpu, t) ← Cpu.simpleRiscv64Clock (c.cpuPorts dports iports i) (cpus i) t
      let cpus := Function.update cpus i cpu
      if r ≠ .OK then pure (r, cpus, t) else clockLanes cpus t rest

/-- `simt_riscv64_clock`. -/
def simtRiscv64Clock (cpus : Nat → Cpu C) (t : Tables V U) :
    Option (Stat × (Nat → Cpu C) × Tables V U) := do
  let lanes := List.range c.conf.numLanes
  let (r, dataRqs, dmem) ← c.dmemIntf.sendQueued dports t.dataRqs t.dmem lanes
  let t := { t with dataRqs, dmem }
  if r ≠ .OK then pure (r, cpus, t) else
  let (r, instRqs, imem) ← c.imemIntf.sendQueued iports t.instRqs t.imem lanes
  let t := { t with instRqs, imem }
  if r ≠ .OK then pure (r, cpus, t) else
  c.clockLanes dports iports cpus t lanes

/-- A component that `SEND` is not called on. -/
def noPorts : CpuPorts C Unit := ⟨fun _ _ => none, fun _ _ => none, fun _ _ _ => none⟩

/-- `SEND` from an interface to a lane. -/
def replyPorts (intf : C) : Ports (Nat → Cpu C) where
  mem _ _ := none
  lane i pkt cpus := do
    let (r, cpu, _) ← Cpu.simpleRiscv64Receive noPorts intf pkt (cpus i) ()
    pure (r, Function.update cpus i cpu)

end SimtRiscv64

end Gran
