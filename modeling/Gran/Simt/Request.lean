import Gran.Common

/-!
# Requests of lanes

What `simt_cache.c` and `simt_riscv64.c` share: the table of lane requests, a `conts/vec` vector of
`struct req` that is a plain array here, and the rewriting of a request before it goes to memory.
A table talks to the memory and to the lanes through `Ports`, whose state is left open.
-/

namespace Gran.Simt

/-- `struct req`. -/
structure Req where
  reg : Reg
  queued : Bool

/-- The entry a table starts with. -/
def Req.empty : Req := ⟨.free, false⟩

/-- An entry whose request was answered. -/
def Req.freed (r : Req) : Req := ⟨{ r.reg with busy := false }, false⟩

/-- The reply a lane gets: the memory's, at the lane's own address and mask. -/
def laneReply (r : Req) (pkt : Packet) : Packet :=
  { pkt with mask := r.reg.pkt.mask, dst := r.reg.pkt.src }

/-- The request as memory sees it: reads ask for the full line, and the receive address is `src`. -/
def extPacket (src : Word) (pkt : Packet) : Packet :=
  { (if isSet pkt PACKET_READ then { pkt with mask := -1 } else pkt) with src }

/-- A broadcast of `pkt` answers this entry. -/
def hit (pkt : Packet) (r : Req) : Bool :=
  r.reg.busy && r.reg.pkt.dst == pkt.src && isSet r.reg.pkt PACKET_READ

/-- Calls to `SEND`, with what the receiver answers. `W` is the state behind the calls. -/
structure Ports (W : Type) where
  mem : Packet → W → Option (Stat × W)
  lane : Nat → Packet → W → Option (Stat × W)

/-- The lane index in a `from` address. -/
def laneOf (addr : Word) : Nat := (addr >>> 32).toNat

/-- A request is either a read or a write, and not an error report. -/
structure IsRequest (pkt : Packet) : Prop where
  kind : isSet pkt PACKET_READ ≠ isSet pkt PACKET_WRITE
  error : isSet pkt PACKET_ERROR = false

/-- `r` is a memory's answer to `p`: the addresses are swapped and `PACKET_DONE` is added. The mask
is the one of the request, so the answer to a full-line read is a full line. -/
def IsReply (p r : Packet) : Prop := ∃ data : Line, r =
    { setFlags (response p) PACKET_DONE with data }

/-- `rep` answers the lane request `req` at the request's own address and mask. -/
structure Answered (req rep : Packet) : Prop where
  src : rep.src = req.dst
  dst : rep.dst = req.src
  mask : rep.mask = req.mask
  read : isSet rep PACKET_READ = isSet req PACKET_READ
  done : isSet rep PACKET_DONE = true
  error : isSet rep PACKET_ERROR = false

/-- Two reads of one address, which one reply can answer. -/
structure SameRead (r t : Packet) : Prop where
  left : isSet r PACKET_READ = true
  right : isSet t PACKET_READ = true
  dst : r.dst = t.dst

variable {addr : Word} {pkt : Packet}

@[simp] theorem extPacket_src : (extPacket addr pkt).src = addr := rfl

@[simp] theorem extPacket_dst : (extPacket addr pkt).dst = pkt.dst := by
  unfold extPacket; split <;> rfl

@[simp] theorem extPacket_flags : (extPacket addr pkt).flags = pkt.flags := by
  unfold extPacket; split <;> rfl

@[simp] theorem isSet_extPacket (flags : BitVec 32) :
    isSet (extPacket addr pkt) flags = isSet pkt flags := by
  simp [isSet]

/-- A read asks for the full line. -/
theorem extPacket_mask (h : isSet pkt PACKET_READ = true) : (extPacket addr pkt).mask = -1 := by
  simp [extPacket, h]

/-- A write keeps its mask. -/
theorem extPacket_mask_of_write (h : isSet pkt PACKET_READ = false) :
    (extPacket addr pkt).mask = pkt.mask := by
  simp [extPacket, h]

/-- A lane index has 32 bits. -/
theorem laneOf_lt (addr : Word) : laneOf addr < 2 ^ 32 := by
  simp only [laneOf, BitVec.toNat_ushiftRight, Nat.shiftRight_eq_div_pow]
  have := addr.isLt
  omega

/-- The index survives the trip in the low half of the receive address. -/
theorem truncate_or {rcv : Word} (hrcv : rcv.truncate 32 = 0#32) {i : Nat} (hi : i < 2 ^ 32) :
    ((rcv ||| BitVec.ofNat 64 i).truncate 32).toNat = i := by
  have hlow : (BitVec.ofNat 64 i).truncate 32 = BitVec.ofNat 32 i := by
    apply BitVec.eq_of_toNat_eq
    simp only [BitVec.truncate, BitVec.toNat_setWidth, BitVec.toNat_ofNat]
    omega
  have hor : (rcv ||| BitVec.ofNat 64 i).truncate 32 = BitVec.ofNat 32 i := by
    rw [← hlow, BitVec.truncate, BitVec.setWidth_or]
    rw [show rcv.setWidth 32 = 0#32 from hrcv, BitVec.zero_or]
  rw [hor, BitVec.toNat_ofNat, Nat.mod_eq_of_lt hi]

/-- A broadcast answers the busy reads of its address. -/
theorem hit_iff {r : Req} : hit pkt r = true ↔
    r.reg.busy = true ∧ r.reg.pkt.dst = pkt.src ∧ isSet r.reg.pkt PACKET_READ = true := by
  simp [hit, and_assoc]

/-- A broadcast answers no entry twice. -/
theorem hit_freed (r : Req) : hit pkt r.freed = false := by simp [hit, Req.freed]

/-! ## Replies -/

/-- Adding flags leaves the other flags alone. -/
theorem isSet_setFlags {flags extra : BitVec 32} (hdisj : extra &&& flags = 0#32) :
    isSet (setFlags pkt extra) flags = isSet pkt flags := by
  have hand : (pkt.flags ||| extra) &&& flags = pkt.flags &&& flags := by
    rw [BitVec.and_or_distrib_right, hdisj, BitVec.or_zero]
  simp [isSet, hand]

section Reply

variable {p r : Packet} (h : IsReply p r)
include h

/-- A reply comes from the address of its request. -/
theorem IsReply.src : r.src = p.dst := by obtain ⟨data, rfl⟩ := h; rfl

/-- A reply goes where its request came from. -/
theorem IsReply.dst : r.dst = p.src := by obtain ⟨data, rfl⟩ := h; rfl

/-- A reply has the mask of its request. -/
theorem IsReply.mask : r.mask = p.mask := by obtain ⟨data, rfl⟩ := h; rfl

/-- A reply to a read is one of a read. -/
theorem IsReply.read : isSet r PACKET_READ = isSet p PACKET_READ := by
  obtain ⟨data, rfl⟩ := h
  exact isSet_setFlags (by decide)

/-- A reply is no error. -/
theorem IsReply.error : isSet r PACKET_ERROR = isSet p PACKET_ERROR := by
  obtain ⟨data, rfl⟩ := h
  exact isSet_setFlags (by decide)

/-- A reply is done. -/
theorem IsReply.done : isSet r PACKET_DONE = true := by
  obtain ⟨data, rfl⟩ := h
  have hand : (p.flags ||| PACKET_DONE) &&& PACKET_DONE = PACKET_DONE := by
    ext k hk
    simp
    tauto
  simp [isSet, hand]
  decide

end Reply

/-- What the assertions on replies ask of one to a request that was sent for a slot: no error, whole
lines for reads, the address and the kind of the request. -/
theorem IsReply.checks {r : Packet} (h : IsReply (extPacket addr pkt) r)
    (herror : isSet pkt PACKET_ERROR = false) :
    isSet r PACKET_ERROR = false ∧ (isSet r PACKET_READ = true → r.mask = -1) ∧
      r.src = pkt.dst ∧ isSet r PACKET_READ = isSet pkt PACKET_READ := by
  have hread : isSet r PACKET_READ = isSet pkt PACKET_READ := by
    rw [h.read, isSet_extPacket]
  refine ⟨?_, fun hkind => ?_, ?_, hread⟩
  · rw [h.error, isSet_extPacket, herror]
  · rw [h.mask, extPacket_mask (hread ▸ hkind)]
  · rw [h.src, extPacket_dst]

/-- The index of the slot is in the address of the reply. -/
theorem IsReply.index {rcv : Word} {i : Nat} {r : Packet}
    (h : IsReply (extPacket (rcv ||| BitVec.ofNat 64 i) pkt) r) (hrcv : rcv.truncate 32 = 0#32)
    (hi : i < 2 ^ 32) : (r.dst.truncate 32).toNat = i := by
  rw [h.dst, extPacket_src, truncate_or hrcv hi]

end Gran.Simt
