import Gran.Simt.Request

/-!
# The shared cache of a SIMT core

`simt_cache.c`: lanes present requests, which wait in a table until the clock sends them on. A
request may be sent by the owner of its block or by the slot that `rr` points to, and a read of the
line that slot `rr` reads waits for the reply to that slot instead, which is broadcast. A failed
`assert` and an access outside of a vector are `none`.
-/

namespace Gran

open Simt

/-- The part of `struct simt_cache` that a run leaves alone. `len` is the length of both vectors,
and a lane that is not connected is `none`. -/
structure SimtCache (C : Type) where
  mem : C
  lanes : Nat → Option C
  len : Nat
  rcv : Word

namespace SimtCache

/-- The request table and the round-robin pointer. -/
structure State where
  reqs : Nat → Req
  rr : BitVec 32

variable {C W : Type} (c : SimtCache C)

/-- `create_simt_cache`. -/
def State.init : State := ⟨fun _ => .empty, 0⟩

/-- Write one entry of the table. -/
def State.setReq (s : State) (i : Nat) (r : Req) : State :=
  { s with reqs := Function.update s.reqs i r }

/-- `reqs_at`. -/
def reqsAt (s : State) (i : Nat) : Option Req := if i < c.len then some (s.reqs i) else none

/-- `lanes_at`. -/
def lanesAt (i : Nat) : Option (Option C) := if i < c.len then some (c.lanes i) else none

/-- The next value of `rr`: `rr + 1` is computed in 32 bits. -/
def nextRr (rr : BitVec 32) : BitVec 32 := BitVec.ofNat 32 ((rr + 1).toNat % c.len)

/-- `simt_cache_ext_send`. -/
def extSend (ports : Ports W) (i : Nat) (r : Req) (w : W) : Option (Stat × W) := do
  guard r.reg.busy
  ports.mem (extPacket (c.rcv ||| BitVec.ofNat 64 i) r.reg.pkt) w

/-- The read of slot `i` is served by the reply to slot `rr`. -/
def shares (rr : BitVec 32) (i : Nat) (r shared : Req) : Bool :=
  shared.reg.busy && isSet shared.reg.pkt PACKET_READ && isSet r.reg.pkt PACKET_READ &&
    r.reg.pkt.dst == shared.reg.pkt.dst && i != rr.toNat

/-- One iteration of the first loop of `simt_cache_clock`. -/
def sendSlot (ports : Ports W) (s : State) (w : W) (i : Nat) : Option (Stat × State × W) := do
  let shared ← c.reqsAt s s.rr.toNat
  let r ← c.reqsAt s i
  if !r.queued then pure (.OK, s, w) else
  if !r.reg.busy then pure (.OK, s, w) else
  if shares s.rr i r shared then pure (.OK, s.setReq i { r with queued := false }, w) else
  let blockIdx := r.reg.pkt.dst.toNat / 64 % c.len
  if blockIdx = i ∨ s.rr.toNat = i then
    let (ok, w) ← c.extSend ports i r w
    if ok = .OK then pure (.OK, s.setReq i { r with queued := false }, w)
    else pure (ok, s, w)
  else pure (.OK, s, w)

/-- The first loop of `simt_cache_clock`. A status other than `OK` and `EBUSY` ends it. -/
def sendQueued (ports : Ports W) (s : State) (w : W) : List Nat → Option (Stat × State × W)
  | [] => some (.OK, s, w)
  | i :: rest => do
      let (ok, s, w) ← c.sendSlot ports s w i
      if ok = .OK ∨ ok = .EBUSY then sendQueued ports s w rest else pure (ok, s, w)

/-- The second loop of `simt_cache_clock`, with its number of iterations: `rr` moves on to the next
busy slot. -/
def advance (s : State) : Nat → Option State
  | 0 => some s
  | k + 1 => do
      let s := { s with rr := c.nextRr s.rr }
      let r ← c.reqsAt s s.rr.toNat
      if r.reg.busy then pure s else advance s k

/-- `simt_cache_clock`. -/
def simtCacheClock (ports : Ports W) (s : State) (w : W) : Option (Stat × State × W) := do
  let (ok, s, w) ← c.sendQueued ports s w (List.range c.len)
  if ok ≠ .OK then pure (ok, s, w) else
  let shared ← c.reqsAt s s.rr.toNat
  if !shared.reg.busy then
    let s ← c.advance s c.len
    pure (.OK, s, w)
  else pure (.OK, s, w)

/-- One iteration of `simt_cache_broadcast`: a busy read of the line is answered and its slot
freed. -/
def broadcastSlot (ports : Ports W) (pkt : Packet) (s : State × W) (i : Nat) :
    Option (State × W) := do
  let r ← c.reqsAt s.1 i
  if !r.reg.busy then pure s else
  if r.reg.pkt.dst ≠ pkt.src then pure s else
  if !isSet r.reg.pkt PACKET_READ then pure s else
  let lane ← c.lanesAt i
  guard lane.isSome
  let (ok, w) ← ports.lane i { pkt with mask := r.reg.pkt.mask, dst := r.reg.pkt.src } s.2
  guard (ok = .OK)
  pure (s.1.setReq i ⟨{ r.reg with busy := false }, false⟩, w)

/-- `simt_cache_broadcast`. -/
def simtCacheBroadcast (ports : Ports W) (pkt : Packet) (s : State) (w : W) :
    Option (Stat × State × W) := do
  guard (isSet pkt PACKET_READ)
  let (s, w) ← (List.range c.len).foldlM (c.broadcastSlot ports pkt) (s, w)
  pure (.OK, s, w)

/-- The second half of `simt_cache_handle_response`: the reply goes to the lane of its own slot. -/
def respond (ports : Ports W) (pkt : Packet) (idx : Nat) (s : State) (w : W) :
    Option (Stat × State × W) := do
  let r ← c.reqsAt s idx
  guard (!r.queued)
  guard r.reg.busy
  guard (r.reg.pkt.dst = pkt.src)
  let s := s.setReq idx { r with reg := { r.reg with busy := false } }
  let lane ← c.lanesAt idx
  guard lane.isSome
  let (ok, w) ← ports.lane idx { pkt with mask := r.reg.pkt.mask, dst := r.reg.pkt.src } w
  guard (ok = .OK)
  pure (ok, s, w)

/-- `simt_cache_handle_response`. -/
def simtCacheHandleResponse (ports : Ports W) (pkt : Packet) (s : State) (w : W) :
    Option (Stat × State × W) := do
  guard (!isSet pkt PACKET_ERROR)
  guard (isSet pkt PACKET_DONE)
  guard (isSet pkt PACKET_READ → pkt.mask = -1)
  let idx := pkt.dst.truncate 32
  if s.rr = idx then
    let s := { s with rr := c.nextRr s.rr }
    if isSet pkt PACKET_READ then c.simtCacheBroadcast ports pkt s w
    else c.respond ports pkt idx.toNat s w
  else c.respond ports pkt idx.toNat s w

/-- `simt_cache_receive`. -/
def simtCacheReceive [DecidableEq C] (ports : Ports W) (sender : C) (pkt : Packet) (s : State)
    (w : W) : Option (Stat × State × W) :=
  if c.mem = sender then c.simtCacheHandleResponse ports pkt s w else do
    let idx := laneOf pkt.src
    let lane ← c.lanesAt idx
    if lane ≠ some sender then pure (.ENOSUCH, s, w) else
    let r ← c.reqsAt s idx
    if r.reg.busy then pure (.EBUSY, s, w) else
    guard (r.queued = false)
    pure (.OK, s.setReq idx ⟨⟨pkt, true⟩, true⟩, w)

end SimtCache

end Gran
