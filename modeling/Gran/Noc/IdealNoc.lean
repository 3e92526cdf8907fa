import Gran.Common
import Mathlib.Algebra.BigOperators.Group.Finset.Basic
import Mathlib.Data.Fintype.BigOperators
import Mathlib.Data.List.FinRange

/-!
# The ideal network

`ideal_noc.c`: one input and one output register for each element, both for the packets addressed to
it. A clock moves every input to its output and then sends the outputs to the components. A run has
packets presented and clocks in any order, with components that refuse at will. A failed assertion
is `none`.
-/

namespace Gran

/-- `addr_ideal_noc`: the element and the offset. -/
def addrIdealNoc (addr : Word) : BitVec 32 × BitVec 32 :=
  ((addr >>> 32 &&& 0xffffffff).truncate 32, (addr &&& 0xffffffff).truncate 32)

/-- The part of `struct noc` that clocks leave alone. An unconnected element is `none`. -/
structure Noc (C : Type) where
  elems : Nat
  latency : Word
  lower : Fin elems → Option C

variable {C : Type}

/-- `create_ideal_noc`. -/
def createIdealNoc (elems : Nat) (latency : Word) : Noc C := ⟨elems, latency, fun _ => none⟩

namespace Noc

/-- A packet handed to a component with `OK`. -/
structure Delivery (C : Type) where
  comp : C
  pkt : Packet

/-- The registers, and the packets delivered so far, oldest first. -/
structure State (n : Noc C) where
  counter : Word
  inn : Fin n.elems → Reg
  out : Fin n.elems → Reg
  delivered : List (Delivery C)

variable (n : Noc C)

/-- The registers after `calloc`. -/
def State.init : State n := ⟨0, fun _ => .free, fun _ => .free, []⟩

/-- The element a packet is for. The assertion is that there is such an element. -/
def dest (pkt : Packet) : Option (Fin n.elems) :=
  if h : (addrIdealNoc pkt.dst).1.toNat < n.elems then some ⟨_, h⟩ else none

variable {n}

/-- `ideal_noc_receive`. -/
def receive (s : State n) (pkt : Packet) : Option (Stat × State n) := do
  let elem ← n.dest pkt
  if (s.inn elem).busy then pure (.EBUSY, s)
  else pure (.OK, { s with
    inn := Function.update s.inn elem ⟨{ pkt with timestamp := s.counter }, true⟩ })

/-- The first loop of `ideal_noc_clock`: an input register moves onto the output register of its
element, unless that holds an older packet. -/
def forward (s : State n) (i : Fin n.elems) : Option (State n) :=
  if (s.inn i).busy then do
    let elem ← n.dest (s.inn i).pkt
    if (s.out elem).busy && decide ((s.out elem).pkt.timestamp < (s.inn i).pkt.timestamp) then
      pure s
    else pure { s with
      out := Function.update s.out elem ⟨(s.inn i).pkt, true⟩
      inn := Function.update s.inn i { s.inn i with busy := false } }
  else pure s

/-- The second loop of `ideal_noc_clock`: an output register is sent to its component, which answers
`answer i`. -/
def deliver (answer : Fin n.elems → Stat) (s : State n) (i : Fin n.elems) : Option (State n) :=
  if (s.out i).busy then do
    let elem ← n.dest (s.out i).pkt
    let lower ← n.lower elem
    if answer i = .EBUSY then pure s
    else do
      guard (answer i = .OK)
      pure { s with
        out := Function.update s.out i { s.out i with busy := false }
        delivered := s.delivered ++ [⟨lower, (s.out i).pkt⟩] }
  else pure s

/-- `ideal_noc_clock`. The count that decides whether packets move is not stored. -/
def clock (answer : Fin n.elems → Stat) (s : State n) : Option (State n) := do
  let counter := if n.latency = 0 then 0 else (s.counter + 1) % n.latency
  if counter ≠ 0 then pure s
  else do
    let s ← (List.finRange n.elems).foldlM forward s
    (List.finRange n.elems).foldlM (deliver answer) s

/-! ## Runs -/

/-- A state with the packets accepted so far, each as it was stored, and the states that clocks
began in, both oldest first. -/
structure Run (n : Noc C) where
  state : State n
  accepted : List Packet
  clocked : List (State n)

/-- A run that has just begun. -/
def Run.init (n : Noc C) : Run n := ⟨.init n, [], []⟩

/-- One step of a run: a packet is presented, or the network is clocked. -/
inductive Run.Step (r : Run n) : Run n → Prop where
  | receive (pkt : Packet) (ret : Stat) (s' : State n)
      (h : Noc.receive r.state pkt = some (ret, s')) :
      Step r { r with
        state := s'
        accepted := if ret = .OK then r.accepted ++ [{ pkt with timestamp := r.state.counter }]
          else r.accepted }
  | clock (answer : Fin n.elems → Stat) (hanswer : ∀ i, answer i = .OK ∨ answer i = .EBUSY)
      (s' : State n) (h : Noc.clock answer r.state = some s') :
      Step r { r with state := s', clocked := r.clocked ++ [r.state] }

/-- The runs of a network. -/
abbrev Run.Reachable (r : Run n) : Prop := Relation.ReflTransGen Run.Step (Run.init n) r

/-- The packets in the registers. -/
def registers (s : State n) : Multiset Packet :=
  ∑ i, ((s.inn i).held.toList + (s.out i).held.toList : Multiset Packet)

/-- The packets of a list that are for an element. -/
def forElem (n : Noc C) (i : Fin n.elems) (l : List Packet) : List Packet :=
  l.filter fun pkt => n.dest pkt = some i

/-- Nothing is lost or duplicated. The packets accepted are those in the registers and those
delivered, each packet delivered went to the component at its element, and those delivered to an
element are in the order in which they were accepted, with none left out. -/
structure LosesNothing (r : Run n) : Prop where
  conserved : (r.accepted : Multiset Packet) =
    registers r.state + ((r.state.delivered.map Delivery.pkt : List Packet) : Multiset Packet)
  addressed : ∀ d ∈ r.state.delivered, ∃ i, n.dest d.pkt = some i ∧ n.lower i = some d.comp
  ordered : ∀ i, n.forElem i (r.state.delivered.map Delivery.pkt) <+: n.forElem i r.accepted

/-- No clock began with a packet behind one that its component had refused. -/
def NeverBehind (r : Run n) : Prop :=
  ∀ s ∈ r.clocked, ∀ i, ¬ ((s.inn i).busy = true ∧ (s.out i).busy = true)

end Noc

end Gran
