import Gran.Mem.Layout
import Gran.Mesh.Node1d

/-!
# A chain of one-dimensional mesh nodes

Nodes with increasing cluster numbers, connected north and south as `tests/simple_mesh1d/sim.c`
connects them, with a requester or a memory at every element port, clocked once per tick in a fixed
order. A port without an element is one whose requester never makes a request.
-/

namespace Gran

open Mesh

/-- The nodes of a chain, the elements created for it, and the order of the clocks. -/
structure Chain1d where
  length : Nat
  cluster : Fin length → BitVec 16
  elems : Fin length → BitVec 16
  created : (Σ c, Fin (elems c).toNat) → Element (Fin length)
  order : List (Fin length ⊕ Σ c, Fin (elems c).toNat)
  cluster_lt : ∀ c c', c < c' → cluster c < cluster c'
  fresh : ∀ e, (created e).Fresh
  nodup : order.Nodup
  complete : ∀ a, a ∈ order

namespace Chain1d

variable (ch : Chain1d)

/-- The nodes of a chain. -/
abbrev Node := Fin ch.length

/-- The element ports of the nodes. -/
abbrev Elem := Σ c, Fin (ch.elems c).toNat

theorem south_lt (c : ch.Node) : c.val - 1 < ch.length := by
  omega

/-- The neighbour at a side of a node. -/
def link (c : ch.Node) : Dir1 → Option ch.Node
  | .north => if h : c + 1 < ch.length then some ⟨c + 1, h⟩ else none
  | .south => if 0 < c.val then some ⟨c - 1, ch.south_lt c⟩ else none

/-- The nodes as `create_mesh_node1d` and the `connect` calls make them. -/
def mesh : Mesh ch.Node Dir1 where
  toNodeKind := Node1d.kind ch.cluster
  elems c := (ch.elems c).toNat
  ports c
    | .elem i => some (.elem c i)
    | .dir d => (ch.link c d).map .node

/-- The side of a neighbour that faces a direction. -/
def opp : Dir1 → Dir1
  | .north => .south
  | .south => .north

/-- The nodes and the elements. -/
structure State where
  mesh : MeshState ch.mesh
  elements : ch.Elem → Element ch.Node

variable {ch}

/-- The chain before the first tick. -/
def init (ch : Chain1d) : State ch := ⟨.init ch.mesh, ch.created⟩

/-- `SEND` through a port of a node. -/
def send (s : State ch) (c : ch.Node) (p : Port Dir1 (ch.mesh.elems c)) (pkt : Packet) :
    Option (Stat × State ch) :=
  match ch.mesh.ports c p with
  | none => none
  | some (.node c') => do
      let (ret, mesh) ← receive s.mesh c' (.node c) pkt
      pure (ret, { s with mesh })
  | some (.elem c' i) =>
      if h : i < (ch.elems c').toNat then do
        let e : ch.Elem := ⟨c', i, h⟩
        let (ret, el) ← (s.elements e).receive c pkt
        pure (ret, { s with elements := Function.update s.elements e el })
      else none

/-- The body of the loop of `clock_outputs`. -/
def clockOutput (c : ch.Node) (s : State ch) (p : Port Dir1 (ch.mesh.elems c)) :
    Option (State ch) :=
  if ((s.mesh.nodes c).out p).busy then do
    let (ret, s) ← send s c p ((s.mesh.nodes c).out p).pkt
    pure (if ret = .EBUSY then s
      else { s with
        mesh := setOut s.mesh c p { (s.mesh.nodes c).out p with busy := false } })
  else some s

/-- `node1d_clock`. -/
def nodeClock (s : State ch) (c : ch.Node) : Option (State ch) := do
  let s : State ch := { s with mesh := Mesh.tick s.mesh c }
  let s ← (ch.mesh.portList c).foldlM (clockOutput c) s
  let r := oldestElem (s.mesh.nodes c)
  let mesh ← (ch.mesh.propagateOrder c).foldlM (propagateTo c r) s.mesh
  pure { s with mesh }

/-- The clock of an element; `new` is the request a free requester makes. -/
def elemClock (new : Option Packet) (s : State ch) (e : ch.Elem) : Option (State ch) := do
  let (el, mesh) ← (s.elements e).clock new e.1
    (fun c pkt mesh => receive mesh c (.elem e.1 e.2) pkt) s.mesh
  pure ⟨mesh, Function.update s.elements e el⟩

/-- The clock of a component, with the requests that free requesters make. -/
def clock (new : ch.Elem → Option Packet) (s : State ch) : ch.Node ⊕ ch.Elem → Option (State ch)
  | .inl c => nodeClock s c
  | .inr e => elemClock (new e) s e

/-- One tick: every component is clocked once. -/
def tick (s : State ch) (new : ch.Elem → Option Packet) : Option (State ch) :=
  ch.order.foldlM (clock new) s

/-- The ticks of a run, each with the requests made in it. -/
def run (ch : Chain1d) (news : List (ch.Elem → Option Packet)) : Option (State ch) :=
  news.foldlM tick ch.init

/-- The element an address names. -/
def region (ch : Chain1d) (addr : Word) : Option ch.Elem := do
  let a := addrMesh1d addr
  let c ← (List.finRange ch.length).find? fun c => ch.cluster c == a.cluster
  if h : a.elem.toNat < (ch.elems c).toNat then some ⟨c, a.elem.toNat, h⟩ else none

/-- The elements with their addresses. -/
def layout (ch : Chain1d) : Layout ch.Elem ch.Node := ⟨ch.region, ch.created⟩

/-- Every request made in a tick is one for a memory of the chain that can carry it out, with the
address of its requester for the reply. -/
def Valid (new : ch.Elem → Option Packet) : Prop :=
  ∀ e pkt, new e = some pkt → ch.layout.IsRequest e pkt ∧ ch.layout.region pkt.dst ≠ none

/-- What may hold a packet: the registers of the nodes, requesters and memories. -/
abbrev Slot (ch : Chain1d) := Place ch.mesh ⊕ ch.Elem

/-- The packet in each slot. -/
def held (s : State ch) : Slot ch → Option Packet
  | .inl p => Mesh.held s.mesh p
  | .inr e => (s.elements e).held

/-- Some request is unanswered, and with no new requests a tick leaves every packet where it is. -/
def Standstill (s : State ch) : Prop :=
  (∃ e, (s.elements e).Unanswered) ∧ ∃ s', tick s (fun _ => none) = some s' ∧ held s' = held s

/-- The packet in one slot cannot move before the packet in another one does: an output waits for
the facing input of the neighbour or for its memory, an input for the output its packet is for, an
element input also for older packets in element inputs, and an element for its input. -/
inductive Blocks (s : State ch) : Slot ch → Slot ch → Prop where
  | link {c d c'} (hlink : ch.link c d = some c') :
      Blocks s (.inl (outAt c (.dir d))) (.inl (inpAt c' (.dir (opp d))))
  | mem {c : ch.Node} {i : Fin (ch.elems c).toNat}
      (hmem : (ch.layout.created ⟨c, i⟩).isMem = true) :
      Blocks s (.inl (outAt c (.elem i))) (.inr ⟨c, i⟩)
  | wanted {c : ch.Node} {p q x} (hp : Mesh.held s.mesh (inpAt c p) = some x)
      (hwants : ch.mesh.wants c q x = true) : Blocks s (.inl (inpAt c p)) (.inl (outAt c q))
  | older {c : ch.Node} {i j : Fin (ch.elems c).toNat} {x y}
      (hi : Mesh.held s.mesh (inpAt c (.elem i)) = some x)
      (hj : Mesh.held s.mesh (inpAt c (.elem j)) = some y)
      (hold : y.timestamp < x.timestamp ∨ y.timestamp = x.timestamp ∧ j < i) :
      Blocks s (.inl (inpAt c (.elem i))) (.inl (inpAt c (.elem j)))
  | elem (e : ch.Elem) : Blocks s (.inr e) (.inl (inpAt e.1 (.elem e.2)))

/-- One packet waits for another. -/
def Waits (s : State ch) (p q : Slot ch) : Prop :=
  Blocks s p q ∧ held s p ≠ none ∧ held s q ≠ none

/-- Some packets wait for each other in a circle. -/
def CyclicWait (s : State ch) : Prop := ∃ p, Relation.TransGen (Waits s) p p

end Chain1d

end Gran
