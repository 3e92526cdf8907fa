import Gran.Simt.Request

/-!
# The request tables of a SIMT core

`simt_riscv64.c` keeps one table of lane requests for each of its two memory interfaces. A read that
finds another busy read of its address in the table waits for that one, every other request is sent
to memory at once, and is retried by the clock when the memory refused it. A failed `assert` and an
access outside of a vector are `none`.
-/

namespace Gran

open Simt

/-- One interface of `struct simt_riscv64`: the memory behind it, the receive address that its
requests carry, and the number of lanes, which is the length of its table. -/
structure SimtIntf (C : Type) where
  mem : C
  rcv : Word
  numLanes : Nat

namespace SimtIntf

variable {C W : Type} (c : SimtIntf C)

/-- The request table of an interface. -/
abbrev Reqs := Nat → Req

/-- `reqs_at`. -/
def reqsAt (reqs : Reqs) (i : Nat) : Option Req := if i < c.numLanes then some (reqs i) else none

/-- `simt_riscv64_ext_send`. -/
def simtRiscv64ExtSend (ports : Ports W) (pkt : Packet) (w : W) : Option (Stat × W) :=
  ports.mem (extPacket (c.rcv ||| BitVec.ofNat 64 (laneOf pkt.src)) pkt) w

/-- One iteration of the broadcast in `simt_riscv64_handle_response`. It leaves `queued` alone. -/
def broadcastSlot (ports : Ports W) (pkt : Packet) (s : Reqs × W) (i : Nat) :
    Option (Reqs × W) := do
  let r ← c.reqsAt s.1 i
  if !r.reg.busy then pure s else
  if r.reg.pkt.dst ≠ pkt.src then pure s else
  if !isSet r.reg.pkt PACKET_READ then pure s else
  let (ok, w) ← ports.lane i (laneReply r pkt) s.2
  guard (ok = .OK)
  pure (Function.update s.1 i { r with reg := { r.reg with busy := false } }, w)

/-- `simt_riscv64_handle_response`. -/
def simtRiscv64HandleResponse (ports : Ports W) (pkt : Packet) (reqs : Reqs) (w : W) :
    Option (Stat × Reqs × W) := do
  let idx := (pkt.dst.truncate 32).toNat
  let s ← c.reqsAt reqs idx
  guard (s.reg.pkt.dst = pkt.src)
  guard s.reg.busy
  guard (isSet pkt PACKET_DONE)
  guard (!isSet pkt PACKET_ERROR)
  guard (isSet pkt PACKET_READ → pkt.mask = -1)
  let (ok, w) ← ports.lane idx (laneReply s pkt) w
  guard (ok = .OK)
  let reqs := Function.update reqs idx { s with reg := { s.reg with busy := false } }
  if isSet pkt PACKET_READ then
    let (reqs, w) ← (List.range c.numLanes).foldlM (c.broadcastSlot ports pkt) (reqs, w)
    pure (.OK, reqs, w)
  else pure (.OK, reqs, w)

/-- Some other busy read in the table asks for the same address. -/
def piggybacks (reqs : Reqs) (idx : Nat) (pkt : Packet) : Bool :=
  isSet pkt PACKET_READ && (List.range c.numLanes).any fun k =>
    k != idx && (reqs k).reg.busy && isSet (reqs k).reg.pkt PACKET_READ &&
      pkt.dst == (reqs k).reg.pkt.dst

/-- `simt_riscv64_receive`. The index of a lane is an `int32_t`, so it lies outside of every vector
from `2 ^ 31` on. -/
def simtRiscv64Receive [DecidableEq C] (ports : Ports W) (sender : C) (pkt : Packet) (reqs : Reqs)
    (w : W) : Option (Stat × Reqs × W) :=
  if c.mem = sender then c.simtRiscv64HandleResponse ports pkt reqs w else do
    let idx := laneOf pkt.src
    guard (idx < 2 ^ 31)
    let req ← c.reqsAt reqs idx
    if req.reg.busy then pure (.EBUSY, reqs, w) else
    let reqs := Function.update reqs idx ⟨⟨pkt, true⟩, false⟩
    if c.piggybacks reqs idx pkt then pure (.OK, reqs, w) else
    let (r, w) ← c.simtRiscv64ExtSend ports pkt w
    if r = .EBUSY then pure (r, Function.update reqs idx ⟨⟨pkt, true⟩, true⟩, w)
    else pure (r, reqs, w)

/-- One iteration of the loop of `simt_riscv64_clock` over the table of an interface. -/
def sendSlot (ports : Ports W) (reqs : Reqs) (w : W) (i : Nat) : Option (Stat × Reqs × W) := do
  let r ← c.reqsAt reqs i
  if !r.queued then pure (.OK, reqs, w) else
  let (ok, w) ← c.simtRiscv64ExtSend ports r.reg.pkt w
  if ok = .OK then pure (ok, Function.update reqs i { r with queued := false }, w)
  else pure (ok, reqs, w)

/-- The loop of `simt_riscv64_clock` over the table of an interface. A status other than `OK` and
`EBUSY` ends it. -/
def sendQueued (ports : Ports W) (reqs : Reqs) (w : W) : List Nat → Option (Stat × Reqs × W)
  | [] => some (.OK, reqs, w)
  | i :: rest => do
      let (ok, reqs, w) ← c.sendSlot ports reqs w i
      if ok = .OK ∨ ok = .EBUSY then sendQueued ports reqs w rest else pure (ok, reqs, w)

end SimtIntf

end Gran
