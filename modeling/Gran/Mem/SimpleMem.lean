import Gran.Common

/-!
# The simple memory and its requesters

`simple_mem.c`: a memory holds one packet, which is the reply to the request it accepted last, and
refuses requests until the reply is taken. The other elements of a bus or a mesh are requesters:
masters with at most one unanswered request, which accept every reply and present a refused request
again at every clock. Both talk to the bus or the node they are connected to through `SEND`, here a
function on the state `W` behind it; `C` is the type of the components that may be connected.
-/

namespace Gran

/-- `struct simple_mem`. -/
structure SimpleMem (C : Type) where
  send : Option C
  pkt : Packet
  busy : Bool
  size : Word
  buf : Nat → BitVec 8

/-- `create_simple_mem`, with the contents `init_simple_mem` left behind. The size of the
allocation, which is the header and `size` bytes, is taken not to wrap. -/
def createSimpleMem {C : Type} (size : Word) (buf : Nat → BitVec 8) : SimpleMem C :=
  ⟨none, .zero, false, size, buf⟩

namespace SimpleMem

variable {C W : Type}

/-- The masked bytes of a packet lie inside of the buffer when its line starts at `offset`. -/
def Fits (size offset : Word) (pkt : Packet) : Prop :=
  ∀ i : Fin 64, pkt.mask.getLsbD i = true → offset.toNat + i < size.toNat

instance (size offset : Word) (pkt : Packet) : Decidable (Fits size offset pkt) :=
  inferInstanceAs (Decidable (∀ _, _))

/-- `simple_mem_receive`. A division by zero, an access outside of `buf` and the `abort` are
`none`. -/
def receive (mem : SimpleMem C) (sender : C) (pkt : Packet) : Option (Stat × SimpleMem C) :=
  if mem.busy then some (.EBUSY, mem)
  else if mem.size = 0 then none
  else
    let mem := { mem with busy := true, send := some sender }
    let offset := pkt.dst % mem.size
    if offset ≥ mem.size then
      some (.OK, { mem with pkt := setFlags (response pkt) PACKET_ERROR })
    else if ¬ Fits mem.size offset pkt then none
    else if isSet pkt PACKET_READ then
      let pkt := checkedCopyto pkt fun i => mem.buf (offset.toNat + i)
      some (.OK, { mem with pkt := setFlags (response pkt) PACKET_DONE })
    else if isSet pkt PACKET_WRITE then
      let line := checkedCopyfrom pkt fun i => mem.buf (offset.toNat + i)
      let buf := fun j => if offset.toNat ≤ j then line (j - offset.toNat) else mem.buf j
      some (.OK, { mem with buf, pkt := setFlags (response pkt) PACKET_DONE })
    else none

/-- `simple_mem_clock`; a `NULL` receiver fails the assertion of `send`. -/
def clock (SEND : C → Packet → W → Option (Stat × W)) (mem : SimpleMem C) (w : W) :
    Option (SimpleMem C × W) :=
  if ¬ mem.busy then some (mem, w)
  else match mem.send with
    | none => none
    | some receiver => do
        let (r, w) ← SEND receiver mem.pkt w
        if r = .EBUSY then pure (mem, w)
        else pure ({ mem with busy := false }, w)

/-- What a memory of the given size can carry out: a read or a write inside of the memory. -/
structure Accepts (size : Word) (pkt : Packet) : Prop where
  size_ne : size ≠ 0
  kind : isSet pkt PACKET_READ = true ∨ isSet pkt PACKET_WRITE = true
  fits : Fits size (pkt.dst % size) pkt

/-! ## What a request does -/

/-- The reply to a request. -/
def replyTo (mem : SimpleMem C) (pkt : Packet) : Packet :=
  let offset := pkt.dst % mem.size
  setFlags (response (if isSet pkt PACKET_READ
    then checkedCopyto pkt fun i => mem.buf (offset.toNat + i) else pkt)) PACKET_DONE

/-- The contents after a request. -/
def stored (mem : SimpleMem C) (pkt : Packet) : Nat → BitVec 8 :=
  let offset := pkt.dst % mem.size
  if isSet pkt PACKET_READ then mem.buf
  else
    let line := checkedCopyfrom pkt fun i => mem.buf (offset.toNat + i)
    fun j => if offset.toNat ≤ j then line (j - offset.toNat) else mem.buf j

/-- The memory after a request. -/
def taken (mem : SimpleMem C) (sender : C) (pkt : Packet) : SimpleMem C :=
  { mem with busy := true, send := some sender, pkt := mem.replyTo pkt, buf := mem.stored pkt }

variable {mem mem' : SimpleMem C} {sender : C} {pkt : Packet} {r : Stat}

/-- An offset is less than the size. -/
theorem offset_lt {size : Word} (hsize : size ≠ 0) (addr : Word) : ¬ addr % size ≥ size := by
  rw [ge_iff_le, BitVec.not_le]
  exact BitVec.umod_lt _ ((BitVec.pos_iff_ne_zero _).2 hsize)

/-- A memory refuses while it holds a reply, and changes nothing, or takes the request. -/
theorem receive_cases (h : mem.receive sender pkt = some (r, mem')) :
    (r = .EBUSY ∧ mem.busy = true ∧ mem' = mem) ∨
      (r = .OK ∧ mem.busy = false ∧ mem' = mem.taken sender pkt) := by
  unfold receive at h
  split at h
  case isTrue hbusy =>
    cases h
    exact .inl ⟨rfl, hbusy, rfl⟩
  case isFalse hbusy =>
    split at h
    case isTrue => cases h
    case isFalse hsize =>
      refine .inr ?_
      dsimp only at h
      rw [if_neg (offset_lt hsize pkt.dst)] at h
      split at h
      case isTrue => cases h
      case isFalse =>
        split at h
        case isTrue hread =>
          cases h
          exact ⟨rfl, Bool.eq_false_iff.2 hbusy, by simp [taken, replyTo, stored, hread]⟩
        case isFalse hread =>
          split at h
          case isTrue =>
            cases h
            exact ⟨rfl, Bool.eq_false_iff.2 hbusy, by simp [taken, replyTo, stored, hread]⟩
          case isFalse => cases h

/-- A free memory takes a request that it can carry out. -/
theorem receive_accepts (hbusy : mem.busy = false) (hpkt : Accepts mem.size pkt) :
    mem.receive sender pkt = some (.OK, mem.taken sender pkt) := by
  have hsome : ∃ r mem', mem.receive sender pkt = some (r, mem') := by
    simp only [receive, hbusy, hpkt.size_ne, offset_lt hpkt.size_ne, hpkt.fits, not_true,
      Bool.false_eq_true, if_false]
    by_cases hread : isSet pkt PACKET_READ = true
    · exact ⟨_, _, if_pos hread⟩
    · have hwrite := hpkt.kind.resolve_left hread
      exact ⟨_, _, (if_neg hread).trans (if_pos hwrite)⟩
  obtain ⟨r, mem', h⟩ := hsome
  obtain ⟨-, htrue, -⟩ | ⟨rfl, -, rfl⟩ := receive_cases h
  · rw [hbusy] at htrue
    cases htrue
  · exact h

end SimpleMem

/-- A master: free to make a request, with a request that was refused, or waiting for the reply. -/
inductive Requester where
  | idle
  | refused (pkt : Packet)
  | waiting

namespace Requester

variable {W : Type}

/-- Present a request. -/
def present (SEND : Packet → W → Option (Stat × W)) (pkt : Packet) (w : W) :
    Option (Requester × W) := do
  let (r, w) ← SEND pkt w
  if r = .EBUSY then pure (.refused pkt, w) else pure (.waiting, w)

/-- The clock of a requester; `new` is the request it makes if it is free to. -/
def clock (new : Option Packet) (SEND : Packet → W → Option (Stat × W)) :
    Requester → W → Option (Requester × W)
  | .idle, w =>
      match new with
      | none => some (.idle, w)
      | some pkt => present SEND pkt w
  | .refused pkt, w => present SEND pkt w
  | .waiting, w => some (.waiting, w)

end Requester

/-- What is connected to a bus or to an element port of a mesh node. -/
inductive Element (C : Type) where
  | requester (r : Requester)
  | mem (m : SimpleMem C)

namespace Element

variable {C W : Type}

/-- The `receive` callback of an element; requesters accept every reply. -/
def receive (sender : C) (pkt : Packet) : Element C → Option (Stat × Element C)
  | .requester _ => some (.OK, .requester .idle)
  | .mem m => do
      let (r, m) ← m.receive sender pkt
      pure (r, .mem m)

/-- The `clock` callback of an element; `port` is the component a requester is connected to. -/
def clock (new : Option Packet) (port : C) (SEND : C → Packet → W → Option (Stat × W)) :
    Element C → W → Option (Element C × W)
  | .requester r, w => do
      let (r, w) ← r.clock new (SEND port) w
      pure (.requester r, w)
  | .mem m, w => do
      let (m, w) ← m.clock SEND w
      pure (.mem m, w)

/-- The packet an element has to send. -/
def held : Element C → Option Packet
  | .requester (.refused pkt) => some pkt
  | .requester _ => none
  | .mem m => if m.busy then some m.pkt else none

/-- The element after its packet was taken. -/
def sent : Element C → Element C
  | .requester _ => .requester .waiting
  | .mem m => .mem { m with busy := false }

/-- The element has an unanswered request. -/
def Unanswered : Element C → Prop
  | .requester .idle => False
  | .requester _ => True
  | .mem _ => False

instance (el : Element C) : Decidable el.Unanswered :=
  match el with
  | .requester .idle => isFalse id
  | .requester (.refused _) => isTrue trivial
  | .requester .waiting => isTrue trivial
  | .mem _ => isFalse id

/-- The element is a memory. -/
def isMem : Element C → Bool
  | .requester _ => false
  | .mem _ => true

/-- The element was just created: it has nothing to send and waits for nothing. -/
def Fresh : Element C → Prop
  | .requester r => r = .idle
  | .mem m => m.busy = false

/-- What never changes: whether the element is a memory, and of which size. -/
def role : Element C → Option Word
  | .requester _ => none
  | .mem m => some m.size

/-- A memory sends to the component it got its request over. -/
def SendsTo (port : C) : Element C → Prop
  | .requester _ => True
  | .mem m => m.busy = true → m.send = some port

variable {el : Element C} {new : Option Packet} {port : C}
  {SEND : C → Packet → W → Option (Stat × W)} {w w' : W} {pkt : Packet}

@[simp] theorem held_sent : el.sent.held = none := by
  cases el <;> rfl

@[simp] theorem role_sent : el.sent.role = el.role := by
  cases el <;> rfl

/-- After sending, a memory has nothing to send elsewhere. -/
theorem sendsTo_sent : el.sent.SendsTo port := by
  cases el with
  | requester r => trivial
  | mem m => intro h; cases h

/-- Sending its packet does not answer the request of an element. -/
theorem unanswered_sent (hheld : el.held ≠ none) : el.sent.Unanswered ↔ el.Unanswered := by
  cases el with
  | requester r => cases r <;> simp_all [held, sent, Unanswered]
  | mem m => exact Iff.rfl

/-- A memory has no unanswered request. -/
theorem not_unanswered_mem (hmem : el.isMem = true) : ¬ el.Unanswered := by
  cases el with
  | requester r => cases hmem
  | mem m => exact id

/-- Memories are the elements with a size. -/
theorem isMem_eq_role : el.isMem = el.role.isSome := by
  cases el <;> rfl

/-- A new element holds nothing. -/
theorem Fresh.held (h : el.Fresh) : el.held = none := by
  cases el with
  | requester r => subst h; rfl
  | mem m => exact if_neg (by rw [show m.busy = false from h]; exact Bool.false_ne_true)

/-- A new element has no unanswered request. -/
theorem Fresh.not_unanswered (h : el.Fresh) : ¬ el.Unanswered := by
  cases el with
  | requester r => subst h; exact id
  | mem m => exact id

/-- A new element has nothing to send elsewhere. -/
theorem Fresh.sendsTo (h : el.Fresh) : el.SendsTo port := by
  cases el with
  | requester r => trivial
  | mem m =>
      intro hbusy
      rw [show m.busy = false from h] at hbusy
      cases hbusy

/-! ## Clocking an element -/

/-- An element with a packet to send sends it and keeps it if the receiver is busy. -/
theorem clock_held (hheld : el.held = some pkt) (hport : el.SendsTo port) :
    el.clock new port SEND w =
      (SEND port pkt w).map fun (r, w) => (if r = .EBUSY then el else el.sent, w) := by
  match el, hheld, hport with
  | .requester (.refused pkt), rfl, _ =>
      simp only [clock, Requester.clock, Requester.present, sent]
      cases SEND port pkt w with
      | none => rfl
      | some a => by_cases h : a.1 = .EBUSY <;> simp [h]
  | .mem m, hheld, hport =>
      simp only [held, Option.ite_none_right_eq_some] at hheld
      obtain ⟨hbusy, hpkt⟩ := hheld
      obtain rfl := Option.some.inj hpkt
      simp only [clock, SimpleMem.clock, hbusy, hport hbusy, sent]
      cases SEND port m.pkt w with
      | none => rfl
      | some a => by_cases h : a.1 = .EBUSY <;> simp [h]

/-- An element with nothing to send that makes no request does nothing. -/
theorem clock_none (hheld : el.held = none) (hnew : el = .requester .idle → new = none) :
    el.clock new port SEND w = some (el, w) := by
  match el, hheld, hnew with
  | .requester .idle, _, hnew => rw [hnew rfl]; rfl
  | .requester .waiting, _, _ => rfl
  | .mem m, hheld, _ =>
      cases hbusy : m.busy with
      | true => simp [held, hbusy] at hheld
      | false => simp [clock, SimpleMem.clock, hbusy]

/-! ## Receiving -/

/-- A memory with a reply refuses. -/
theorem receive_busy (hmem : el.isMem = true) (hheld : el.held ≠ none) :
    el.receive port pkt = some (.EBUSY, el) := by
  match el, hmem with
  | .mem m, _ =>
      cases hbusy : m.busy with
      | true => simp [receive, SimpleMem.receive, hbusy]
      | false => simp [held, hbusy] at hheld

/-- A free memory takes a request it can carry out, and has a reply from then on. -/
theorem receive_mem {size : Word} (hrole : el.role = some size) (hheld : el.held = none)
    (hpkt : SimpleMem.Accepts size pkt) :
    ∃ el' reply, el.receive port pkt = some (.OK, el') ∧ el'.held = some reply ∧
      reply.src = pkt.dst ∧ reply.dst = pkt.src ∧ el'.role = some size ∧ el'.SendsTo port := by
  match el, hrole with
  | .mem m, hrole =>
      obtain rfl : m.size = size := Option.some.inj hrole
      have hbusy : m.busy = false := by
        cases hbusy : m.busy with
        | true => simp [held, hbusy] at hheld
        | false => rfl
      rw [receive, SimpleMem.receive_accepts hbusy hpkt]
      refine ⟨_, _, rfl, rfl, ?_, ?_, rfl, fun _ => rfl⟩
      · simp only [SimpleMem.taken, SimpleMem.replyTo]
        split <;> rfl
      · simp only [SimpleMem.taken, SimpleMem.replyTo]
        split <;> rfl

/-- A requester takes every packet and is free again. -/
theorem receive_requester (hmem : el.isMem = false) :
    el.receive port pkt = some (.OK, .requester .idle) := by
  cases el with
  | requester r => rfl
  | mem m => cases hmem

end Element

end Gran
