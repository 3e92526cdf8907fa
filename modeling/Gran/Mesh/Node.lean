import Gran.Common
import Gran.Foundations.Fold
import Mathlib.Data.Fintype.Sigma
import Mathlib.Data.Fintype.Sum
import Mathlib.Data.List.FinRange
import Mathlib.Tactic.DeriveFintype

/-!
# Mesh nodes

The router of `node1d.c`, `node2d.c` and `node3d.c`. The three files differ in their directions,
their selectors and candidate lists, and in how `receive` finds the port and stamps the packet;
`NodeKind` holds these, and the functions below are the common text. A mesh is a family of nodes
that are connected to each other and to element components, and a state of it holds the registers
of every node.

Registers are indexed by ports. The C arrays put the `elems` element ports first and the
directions behind them, so `north_in(n)`, which is `n->in[n->elems + 0]`, is `inp (.dir .north)`.
-/

namespace Gran

/-- Masking a field of an address that is cut off to its width anyway changes nothing. -/
theorem truncate_and {w : Nat} {mask : Word} (hmask : mask.truncate w = BitVec.allOnes w)
    (addr : Word) : (addr &&& mask).truncate w = addr.truncate w := by
  rw [BitVec.truncate, BitVec.setWidth_and, show mask.setWidth w = BitVec.allOnes w from hmask,
    BitVec.and_allOnes]

/-- An index into `in`, `out` and `ports`. -/
inductive Port (D : Type) (n : Nat) where
  | elem (i : Fin n)
  | dir (d : D)
deriving DecidableEq, Fintype

/-- Whether the index is below `elems`. -/
def Port.isElem {D : Type} {n : Nat} : Port D n → Bool
  | .elem _ => true
  | .dir _ => false

/-- The components of a mesh: its nodes and the elements connected to them. -/
inductive Comp (N : Type) where
  | node (c : N)
  | elem (c : N) (i : Nat)
deriving DecidableEq

/-- What the node files differ in. -/
structure NodeKind (N D : Type) where
  /-- The directions, in the order of their ports and of their `propagate` calls. -/
  dirs : List D
  /-- The directional candidates of an output, in the order of its list. -/
  inputs : D → List D
  /-- The selector of a directional output. -/
  dirSel : N → D → Packet → Bool
  /-- The selector of an element output. -/
  elemSel : N → Nat → Packet → Bool
  /-- The loop of `receive` over the ports: the port found and the packet to place there. -/
  arrive : ∀ {n : Nat}, (Port D n → Option (Comp N)) → Comp N → Word → Packet →
    List (Port D n) → Option (Port D n × Packet)

/-- Nodes of one kind with their element counts and connections. -/
structure Mesh (N D : Type) extends NodeKind N D where
  elems : N → Nat
  ports : (c : N) → Port D (elems c) → Option (Comp N)

/-- The registers and the clock count of a node. -/
structure MeshNode (D : Type) (n : Nat) where
  timestamp : Word
  inp : Port D n → Reg
  out : Port D n → Reg

/-- A packet handed to a component with `OK`, and the output it was handed over from. -/
structure Delivery {N D : Type} (m : Mesh N D) where
  node : N
  port : Port D (m.elems node)
  comp : Comp N
  pkt : Packet

/-- What happens to a mesh: a node is clocked while its elements answer what is sent to them, or an
element presents a packet to its node. -/
inductive Drive (N : Type) where
  | clock (c : N) (answer : Comp N → Stat)
  | inject (c : N) (i : Nat) (pkt : Packet)

variable {N D : Type}

/-- The state of a mesh, with the packets its elements have accepted. -/
structure MeshState (m : Mesh N D) where
  nodes : (c : N) → MeshNode D (m.elems c)
  delivered : List (Delivery m)

/-- A mesh whose nodes were just created. -/
def MeshState.init (m : Mesh N D) : MeshState m :=
  ⟨fun _ => ⟨0, fun _ => .free, fun _ => .free⟩, []⟩

namespace Mesh

variable (m : Mesh N D)

/-- The ports of a node in index order. -/
def portList (c : N) : List (Port D (m.elems c)) :=
  (List.finRange (m.elems c)).map .elem ++ m.dirs.map .dir

/-- The outputs of a node in the order of their `propagate` calls. -/
def propagateOrder (c : N) : List (Port D (m.elems c)) :=
  m.dirs.map .dir ++ (List.finRange (m.elems c)).map .elem

/-- The selector of an output. -/
def wants (c : N) (p : Port D (m.elems c)) (pkt : Packet) : Bool :=
  match p with
  | .elem i => m.elemSel c i pkt
  | .dir d => m.dirSel c d pkt

/-- The candidate list of an output; `r` is the element input chosen in this clock. -/
def candidates (c : N) (r : Option (Port D (m.elems c))) (p : Port D (m.elems c)) :
    List (Option (Port D (m.elems c))) :=
  match p with
  | .elem _ => r :: m.dirs.map fun d => some (.dir d)
  | .dir d => r :: (m.inputs d).map fun d => some (.dir d)

variable {m} [DecidableEq N] [DecidableEq D]

/-- Replace the state of one node. -/
def setNode (s : MeshState m) (c : N) (node : MeshNode D (m.elems c)) : MeshState m :=
  { s with nodes := Function.update s.nodes c node }

/-- Write an input register. -/
def setInp (s : MeshState m) (c : N) (p : Port D (m.elems c)) (r : Reg) : MeshState m :=
  setNode s c { s.nodes c with inp := Function.update (s.nodes c).inp p r }

/-- Write an output register. -/
def setOut (s : MeshState m) (c : N) (p : Port D (m.elems c)) (r : Reg) : MeshState m :=
  setNode s c { s.nodes c with out := Function.update (s.nodes c).out p r }

/-- Count a clock. -/
def tick (s : MeshState m) (c : N) : MeshState m :=
  setNode s c { s.nodes c with timestamp := (s.nodes c).timestamp + 1 }

/-- The `receive` callback of a node. -/
def receive (s : MeshState m) (c : N) (sender : Comp N) (pkt : Packet) :
    Option (Stat × MeshState m) := do
  let (p, pkt) ← m.arrive (m.ports c) sender (s.nodes c).timestamp pkt (m.portList c)
  let (ret, r) := placeReg ((s.nodes c).inp p) pkt
  pure (ret, setInp s c p r)

/-- `SEND` through a port of a node. A `NULL` port fails the assertion of `send`; the answer of an
element is up to the environment. -/
def send (answer : Comp N → Stat) (s : MeshState m) (c : N) (p : Port D (m.elems c))
    (pkt : Packet) : Option (Stat × MeshState m) :=
  match m.ports c p with
  | none => none
  | some (.node c') => receive s c' (.node c) pkt
  | some (.elem c' i) =>
      let ret := answer (.elem c' i)
      some (ret, if ret = .OK then
        { s with delivered := ⟨c, p, .elem c' i, pkt⟩ :: s.delivered } else s)

/-- The body of the loop of `clock_outputs`. -/
def clockOutput (answer : Comp N → Stat) (c : N) (s : MeshState m) (p : Port D (m.elems c)) :
    Option (MeshState m) :=
  if ((s.nodes c).out p).busy then do
    let (ret, s) ← send answer s c p ((s.nodes c).out p).pkt
    pure (if ret = .EBUSY then s
      else setOut s c p { (s.nodes c).out p with busy := false })
  else some s

/-- `clock_outputs`. -/
def clockOutputs (answer : Comp N → Stat) (c : N) (s : MeshState m) : Option (MeshState m) :=
  (m.portList c).foldlM (clockOutput answer c) s

/-- The oldest busy element input, the first one on ties. -/
def oldestElem {n : Nat} (node : MeshNode D n) : Option (Port D n) :=
  oldest node.inp (fun _ => true) none ((List.finRange n).map fun i => some (.elem i))

/-- One `propagate` call. -/
def propagateTo (c : N) (r : Option (Port D (m.elems c))) (s : MeshState m)
    (p : Port D (m.elems c)) : Option (MeshState m) := do
  let (out, inp) ← propagate ((s.nodes c).out p) (s.nodes c).inp (m.candidates c r p)
    fun reg => m.wants c p reg.pkt
  pure (setNode s c { s.nodes c with inp, out := Function.update (s.nodes c).out p out })

/-- The `clock` callback of a node. -/
def clock (answer : Comp N → Stat) (c : N) (s : MeshState m) : Option (MeshState m) := do
  let s ← clockOutputs answer c (tick s c)
  (m.propagateOrder c).foldlM (propagateTo c (oldestElem (s.nodes c))) s

/-! ## What the registers hold -/

/-- The packets in all registers have a property, those left over from earlier included. -/
def Holds (P : Packet → Prop) (s : MeshState m) : Prop :=
  ∀ c p, P ((s.nodes c).inp p).pkt ∧ P ((s.nodes c).out p).pkt

variable {P : Packet → Prop} {c : N} {s s' : MeshState m}

/-- Writing a register whose packet has the property. -/
theorem holds_update {n : Nat} {regs : Port D n → Reg} (h : ∀ q, P (regs q).pkt) (p : Port D n)
    {r : Reg}
    (hr : P r.pkt) (q : Port D n) : P (Function.update regs p r q).pkt := by
  by_cases hq : q = p
  · rw [hq, Function.update_self]
    exact hr
  · rw [Function.update_of_ne hq]
    exact h q

omit [DecidableEq D] in
/-- Writing a node whose packets have the property. -/
theorem setNode_holds (hs : Holds P s) {node : MeshNode D (m.elems c)}
    (hinp : ∀ p, P (node.inp p).pkt) (hout : ∀ p, P (node.out p).pkt) :
    Holds P (setNode s c node) := by
  intro c' p
  by_cases h : c' = c
  · subst h
    simpa [setNode] using ⟨hinp p, hout p⟩
  · simpa [setNode, h] using hs c' p

/-- Writing an input register whose packet has the property. -/
theorem setInp_holds (hs : Holds P s) (p : Port D (m.elems c)) {r : Reg} (hr : P r.pkt) :
    Holds P (setInp s c p r) :=
  setNode_holds hs (holds_update (fun q => (hs c q).1) p hr) fun q => (hs c q).2

/-- Writing an output register whose packet has the property. -/
theorem setOut_holds (hs : Holds P s) (p : Port D (m.elems c)) {r : Reg} (hr : P r.pkt) :
    Holds P (setOut s c p r) :=
  setNode_holds hs (fun q => (hs c q).1) (holds_update (fun q => (hs c q).2) p hr)

section Arrive

variable (harrive : ∀ {c : N} (sender : Comp N) (now : Word) {pkt : Packet}
  {x : Port D (m.elems c) × Packet}, P pkt →
    m.arrive (m.ports c) sender now pkt (m.portList c) = some x → P x.2)
include harrive

/-- Receiving a packet that has the property. -/
theorem receive_holds (hs : Holds P s) {sender : Comp N} {pkt : Packet} (hpkt : P pkt) {ret : Stat}
    (h : receive s c sender pkt = some (ret, s')) : Holds P s' := by
  obtain ⟨⟨p, pkt'⟩, hfound, h⟩ := Option.bind_eq_some_iff.1 h
  have hreg : P (placeReg ((s.nodes c).inp p) pkt').2.pkt := by
    unfold placeReg
    split
    · exact (hs c p).1
    · exact harrive sender _ hpkt hfound
  cases h
  exact setInp_holds hs p hreg

/-- Sending a packet that has the property. -/
theorem send_holds {answer : Comp N → Stat} (hs : Holds P s) {p : Port D (m.elems c)} {pkt : Packet}
    (hpkt : P pkt) {ret : Stat} (h : send answer s c p pkt = some (ret, s')) : Holds P s' := by
  unfold send at h
  split at h
  · cases h
  · exact receive_holds harrive hs hpkt h
  · cases h
    split
    · exact hs
    · exact hs

/-- Serving an output keeps the property of the packets. -/
theorem clockOutput_holds {answer : Comp N → Stat} (hs : Holds P s) {p : Port D (m.elems c)}
    (h : clockOutput answer c s p = some s') : Holds P s' := by
  unfold clockOutput at h
  split at h
  · obtain ⟨⟨ret, t⟩, hsend, h⟩ := Option.bind_eq_some_iff.1 h
    have ht : Holds P t := send_holds harrive hs (hs c p).2 hsend
    cases h
    split
    · exact ht
    · exact setOut_holds ht p (ht c p).2
  · cases h
    exact hs

omit harrive in
/-- Filling an output keeps the property of the packets. -/
theorem propagateTo_holds (hs : Holds P s) {r : Option (Port D (m.elems c))}
    {p : Port D (m.elems c)}
    (h : propagateTo c r s p = some s') : Holds P s' := by
  obtain ⟨⟨out, inp⟩, hprop, h⟩ := Option.bind_eq_some_iff.1 h
  obtain ⟨out', inp', hprop', hspec⟩ := propagate_spec ((s.nodes c).out p) (s.nodes c).inp
    (m.candidates c r p) fun reg => m.wants c p reg.pkt
  cases hprop'.symm.trans hprop
  cases h
  cases hspec with
  | idle hnone =>
      exact setNode_holds hs (fun q => (hs c q).1) (holds_update (fun q => (hs c q).2) p (hs c p).2)
  | blocked hbusy =>
      exact setNode_holds hs (fun q => (hs c q).1) (holds_update (fun q => (hs c q).2) p (hs c p).2)
  | moved q hfree hmem hbusy hsel =>
      exact setNode_holds hs (holds_update (fun q => (hs c q).1) q (hs c q).1)
        (holds_update (fun q => (hs c q).2) p (hs c q).1)

/-- Serving all outputs keeps the property of the packets. -/
theorem clockOutputs_holds {answer : Comp N → Stat} (hs : Holds P s)
    (h : clockOutputs answer c s = some s') : Holds P s' :=
  Fold.foldlM_keep (Holds P) (fun _ _ _ _ hs h => clockOutput_holds harrive hs h) hs h

/-- A clock keeps the property of the packets. -/
theorem clock_holds {answer : Comp N → Stat} (hs : Holds P s) (h : clock answer c s = some s') :
    Holds P s' := by
  obtain ⟨t, hout, hprop⟩ := Option.bind_eq_some_iff.1 h
  have htick : Holds P (tick s c) := setNode_holds hs (fun p => (hs c p).1) fun p => (hs c p).2
  have ht : Holds P t := clockOutputs_holds harrive htick hout
  exact Fold.foldlM_keep (Holds P) (fun _ _ _ _ hs h => propagateTo_holds hs h) ht hprop

end Arrive

end Mesh

end Gran
