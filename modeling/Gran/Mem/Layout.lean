import Gran.Mem.SimpleMem

/-!
# Requests between mapped elements

A layout is the elements of a system as they were created and which of them an address belongs to.
A request has an address of its requester to send the reply to, and what is at its own address, if
anything, is a memory that can carry it out; a reply is addressed to a requester. Requests and
replies have the same owner, whose address is on both.
-/

namespace Gran

/-- The elements of a system and where they are mapped. -/
structure Layout (E C : Type) where
  region : Word → Option E
  created : E → Element C

namespace Layout

variable {E C : Type} (l : Layout E C)

/-- A request `e` may make: its replies go to `e`, and what is mapped at its address, if anything,
is a memory that can carry it out. -/
structure IsRequest (e : E) (pkt : Packet) : Prop where
  requester : (l.created e).role = none
  reply : l.region pkt.src = some e
  mapped : ∀ b, l.region pkt.dst = some b →
    ∃ size, (l.created b).role = some size ∧ SimpleMem.Accepts size pkt

/-- The requester mapped at an address, if one is. -/
def requesterAt (addr : Word) : Option E :=
  (l.region addr).filter fun e => !(l.created e).isMem

/-- A reply is for a requester, and a request has a requester to send the reply to. -/
def owner (pkt : Packet) : Option E := (l.requesterAt pkt.dst).or (l.requesterAt pkt.src)

variable {l} {e : E} {pkt reply : Packet}

theorem requesterAt_eq_some {addr : Word} :
    l.requesterAt addr = some e ↔ l.region addr = some e ∧ (l.created e).isMem = false := by
  simp [requesterAt, Option.filter_eq_some_iff]

theorem owner_reply (h : l.requesterAt pkt.dst = some e) : l.owner pkt = some e := by
  rw [owner, h]
  rfl

namespace IsRequest

theorem isMem (h : l.IsRequest e pkt) : (l.created e).isMem = false := by
  rw [Element.isMem_eq_role, h.requester]
  rfl

theorem src (h : l.IsRequest e pkt) : l.requesterAt pkt.src = some e :=
  requesterAt_eq_some.2 ⟨h.reply, h.isMem⟩

theorem mapped_mem (h : l.IsRequest e pkt) {b : E} (hb : l.region pkt.dst = some b) :
    (l.created b).isMem = true := by
  obtain ⟨size, hsize, -⟩ := h.mapped b hb
  rw [Element.isMem_eq_role, hsize]
  rfl

theorem dst (h : l.IsRequest e pkt) : l.requesterAt pkt.dst = none := by
  rw [requesterAt, Option.filter_eq_none_iff]
  intro b hb
  simp [h.mapped_mem hb]

theorem owner (h : l.IsRequest e pkt) : l.owner pkt = some e := by
  rw [Layout.owner, h.dst, h.src]
  rfl

/-- The reply to a request has the owner of the request. -/
theorem owner_reply (h : l.IsRequest e pkt) (hdst : reply.dst = pkt.src) :
    l.owner reply = l.owner pkt := by
  rw [h.owner, Layout.owner_reply (hdst ▸ h.src)]

end IsRequest

end Layout

end Gran
