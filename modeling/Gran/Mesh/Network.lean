import Gran.Foundations.Fold
import Gran.Foundations.PacketNet
import Gran.Mesh.Node

/-!
# A mesh as a packet network

Every register of a mesh is a place of a packet network. A `Wiring` names the neighbours behind
the directional ports, `next` sends a packet from an input to the output whose selector accepts it
and from a directional output to the facing input of the neighbour, and `RoutingSpec` says that
the selectors follow a placement invariant. Under it a clock never fails an assertion and is a
sequence of network moves (`clock_moves`), and an injection fills one free element input
(`receive_elem`).
-/

namespace Gran.Mesh

open PacketNet

variable {N D : Type} {m : Mesh N D}

/-- The registers of a mesh: the inputs of its nodes and their outputs. -/
abbrev Place (m : Mesh N D) := (Σ c : N, Port D (m.elems c)) ⊕ (Σ c : N, Port D (m.elems c))

/-- The place of an input register. -/
abbrev inpAt (c : N) (p : Port D (m.elems c)) : Place m := .inl ⟨c, p⟩

/-- The place of an output register. -/
abbrev outAt (c : N) (p : Port D (m.elems c)) : Place m := .inr ⟨c, p⟩

/-- The packet in each register. -/
def held (s : MeshState m) : Place m → Option Packet
  | .inl ⟨c, p⟩ => ((s.nodes c).inp p).held
  | .inr ⟨c, p⟩ => ((s.nodes c).out p).held

/-- The departures the delivery log stands for. -/
def departures (l : List (Delivery m)) : Multiset (Place m × Packet) :=
  (l : Multiset (Delivery m)).map fun d => (outAt d.node d.port, d.pkt)

/-- The packet network a mesh state stands for; `injected` is the history of its injections. -/
def network (s : MeshState m) (injected : Multiset Packet) : Net (Place m) Packet :=
  ⟨held s, injected, departures s.delivered⟩

/-- The neighbours of the nodes, and how the `ports` arrays record them. -/
structure Wiring (m : Mesh N D) where
  link : N → D → Option N
  opp : D → D
  port_dir : ∀ c d, m.ports c (.dir d) = (link c d).map .node
  port_elem : ∀ c i comp, m.ports c (.elem i) = some comp → comp = .elem c i
  link_opp : ∀ {c d c'}, link c d = some c' → link c' (opp d) = some c
  link_inj : ∀ {c d d' c'}, link c d = some c' → link c d' = some c' → d = d'
  mem_dirs : ∀ d, d ∈ m.dirs

/-- `receive` finds the first port connected to the sender, and stamps the packet there exactly
when that is an element port. -/
def StampsAtElements (k : NodeKind N D) [DecidableEq N] : Prop :=
  ∀ {n : Nat} (ports : Port D n → Option (Comp N)) (sender : Comp N) (now : Word) (pkt : Packet)
    (l : List (Port D n)) (p : Port D n), l.find? (fun q => ports q = some sender) = some p →
    k.arrive ports sender now pkt l =
      some (p, if p.isElem then { pkt with timestamp := now } else pkt)

/-- Where a packet goes from a register. -/
def next (w : Wiring m) : Place m → Packet → Option (Place m)
  | .inl ⟨c, _⟩, x => ((m.propagateOrder c).find? fun q => m.wants c q x).map fun q => outAt c q
  | .inr ⟨c, .dir d⟩, _ => (w.link c d).map fun c' => inpAt c' (.dir (w.opp d))
  | .inr ⟨_, .elem _⟩, _ => none

/-- The selectors route every well-placed packet to a well-placed output, never back where it came
from, and no packet is routed off the mesh or to an element port left unconnected. -/
structure RoutingSpec (w : Wiring m) (ok : Place m → Packet → Prop) : Prop where
  unique : ∀ {c p q x}, m.wants c p x = true → m.wants c q x = true → p = q
  route : ∀ {c p x}, ok (inpAt c p) x →
    ∃ q, m.wants c q x = true ∧ ok (outAt c q) x ∧ (p.isElem = false → q ≠ p)
  depart : ∀ {c d x}, ok (outAt c (.dir d)) x →
    ∃ c', w.link c d = some c' ∧ ok (inpAt c' (.dir (w.opp d))) x
  attached : ∀ {c i x}, ok (outAt c (.elem i)) x → m.ports c (.elem i) ≠ none

variable {w : Wiring m} {ok : Place m → Packet → Prop}

/-! ## Ports -/

/-- Every port is searched for a sender. -/
theorem mem_portList (w : Wiring m) (c : N) (p : Port D (m.elems c)) : p ∈ m.portList c := by
  cases p with
  | elem i => simp [portList]
  | dir d => simp [portList, w.mem_dirs d]

/-- Every output is filled in turn. -/
theorem mem_propagateOrder (w : Wiring m) (c : N) (p : Port D (m.elems c)) :
    p ∈ m.propagateOrder c := by
  cases p with
  | elem i => simp [propagateOrder]
  | dir d => simp [propagateOrder, w.mem_dirs d]

/-- The output whose selector accepts a packet is where it goes. -/
theorem next_inp (hspec : RoutingSpec w ok) {c : N} {p q : Port D (m.elems c)} {x : Packet}
    (hq : m.wants c q x = true) : next w (inpAt c p) x = some (outAt c q) := by
  obtain ⟨q', hq'⟩ : ∃ q', (m.propagateOrder c).find? (fun q => m.wants c q x) = some q' := by
    refine Option.isSome_iff_exists.1 (List.find?_isSome.2 ?_)
    exact ⟨q, mem_propagateOrder w c q, hq⟩
  have hwants := List.find?_some hq'
  obtain rfl := hspec.unique hq hwants
  simp [next, hq']

/-- `next` keeps a packet well placed. -/
theorem ok_next (hspec : RoutingSpec w ok) (p q : Place m) (x : Packet) (hp : ok p x)
    (hnext : next w p x = some q) : ok q x := by
  match p, hp with
  | .inl ⟨c, p⟩, hp =>
      obtain ⟨q', hwants, hok, _⟩ := hspec.route hp
      rw [next_inp hspec hwants] at hnext
      cases hnext
      exact hok
  | .inr ⟨c, .dir d⟩, hp =>
      obtain ⟨c', hlink, hok⟩ := hspec.depart hp
      simp only [next, hlink, Option.map_some, Option.some.injEq] at hnext
      exact hnext ▸ hok
  | .inr ⟨c, .elem i⟩, hp => simp [next] at hnext

/-- A packet leaves the mesh only from an element output. -/
theorem elem_of_next_none (hspec : RoutingSpec w ok) {p : Place m} {x : Packet} (hp : ok p x)
    (hnext : next w p x = none) : ∃ c i, p = outAt c (.elem i) := by
  match p, hp with
  | .inl ⟨c, p⟩, hp =>
      obtain ⟨q', hwants, _⟩ := hspec.route hp
      simp [next_inp hspec hwants] at hnext
  | .inr ⟨c, .dir d⟩, hp =>
      obtain ⟨c', hlink, _⟩ := hspec.depart hp
      simp [next, hlink] at hnext
  | .inr ⟨c, .elem i⟩, hp => exact ⟨c, i, rfl⟩

/-! ## Registers as places -/

variable [DecidableEq N] [DecidableEq D] {s : MeshState m}

omit [DecidableEq D] in
@[simp] theorem setNode_delivered (c : N) (node : MeshNode D (m.elems c)) :
    (setNode s c node).delivered = s.delivered := rfl

omit [DecidableEq D] in
@[simp] theorem held_tick (c : N) : held (tick s c) = held s := by
  funext p
  rcases p with ⟨c', p⟩ | ⟨c', p⟩ <;> by_cases h : c' = c
  all_goals first | subst h | skip
  all_goals simp [held, tick, setNode, *]

/-- The register of a place. -/
def reg (s : MeshState m) : Place m → Reg
  | .inl ⟨c, p⟩ => (s.nodes c).inp p
  | .inr ⟨c, p⟩ => (s.nodes c).out p

/-- Write the register of a place. -/
def setReg (s : MeshState m) : Place m → Reg → MeshState m
  | .inl ⟨c, p⟩, r => setInp s c p r
  | .inr ⟨c, p⟩, r => setOut s c p r

omit [DecidableEq N] [DecidableEq D] in
/-- A place holds what its register holds. -/
theorem held_reg (s : MeshState m) (p : Place m) : held s p = (reg s p).held := by
  rcases p with ⟨c, p⟩ | ⟨c, p⟩ <;> rfl

/-- Writing a register. -/
theorem reg_setReg (p : Place m) (r : Reg) : reg (setReg s p r) = Function.update (reg s) p r := by
  funext q
  by_cases hqp : q = p
  · subst hqp
    rcases q with ⟨c, q⟩ | ⟨c, q⟩ <;> simp [reg, setReg, setInp, setOut, setNode]
  · rw [Function.update_of_ne hqp]
    rcases p with ⟨c, p⟩ | ⟨c, p⟩ <;> rcases q with ⟨c', q⟩ | ⟨c', q⟩ <;> by_cases hc : c' = c
    all_goals first | subst hc | skip
    all_goals simp_all [reg, setReg, setInp, setOut, setNode]

@[simp] theorem setReg_delivered (p : Place m) (r : Reg) :
    (setReg s p r).delivered = s.delivered := by
  rcases p with ⟨c, p⟩ | ⟨c, p⟩ <;> rfl

/-- Writing a register changes what one place holds. -/
theorem held_setReg (p : Place m) (r : Reg) :
    held (setReg s p r) = Function.update (held s) p r.held := by
  funext q
  rw [held_reg, reg_setReg]
  by_cases hqp : q = p
  · subst hqp
    rw [Function.update_self, Function.update_self]
  · rw [Function.update_of_ne hqp, Function.update_of_ne hqp, held_reg]

/-- Writing an input register changes what one place holds. -/
theorem held_setInp (c : N) (p : Port D (m.elems c)) (r : Reg) :
    held (setInp s c p r) = Function.update (held s) (inpAt c p) r.held :=
  held_setReg (inpAt c p) r

/-- Writing an output register changes what one place holds. -/
theorem held_setOut (c : N) (p : Port D (m.elems c)) (r : Reg) :
    held (setOut s c p r) = Function.update (held s) (outAt c p) r.held :=
  held_setReg (outAt c p) r

@[simp] theorem setInp_self (c : N) (p : Port D (m.elems c)) :
    setInp s c p ((s.nodes c).inp p) = s := by
  simp [setInp, setNode]

@[simp] theorem setInp_delivered (c : N) (p : Port D (m.elems c)) (r : Reg) :
    (setInp s c p r).delivered = s.delivered := rfl

@[simp] theorem setOut_delivered (c : N) (p : Port D (m.elems c)) (r : Reg) :
    (setOut s c p r).delivered = s.delivered := rfl

omit [DecidableEq N] [DecidableEq D] in
/-- What an input holds. -/
theorem held_inpAt (c : N) (p : Port D (m.elems c)) :
    held s (inpAt c p) = ((s.nodes c).inp p).held := rfl

omit [DecidableEq N] [DecidableEq D] in
/-- What an output holds. -/
theorem held_outAt (c : N) (p : Port D (m.elems c)) :
    held s (outAt c p) = ((s.nodes c).out p).held := rfl

/-- The packet in one place goes to another one, as `x`. -/
def hop (s : MeshState m) (p q : Place m) (x : Packet) : MeshState m :=
  setReg (setReg s q ⟨x, true⟩) p { reg s p with busy := false }

/-! ## Receiving -/

omit [DecidableEq N] [DecidableEq D] in
/-- A port that leads to a neighbour faces the one that leads back. -/
theorem facing (w : Wiring m) {c c' : N} {p : Port D (m.elems c)} {q : Port D (m.elems c')}
    (hport : m.ports c p = some (.node c')) (hback : m.ports c' q = some (.node c)) :
    ∃ d, p = .dir d ∧ q = .dir (w.opp d) ∧ w.link c d = some c' := by
  cases p with
  | elem i => cases w.port_elem c i _ hport
  | dir d =>
      cases q with
      | elem i => cases w.port_elem c' i _ hback
      | dir d' =>
          have hlink : w.link c d = some c' := by simpa [w.port_dir] using hport
          have hlink' : w.link c' d' = some c := by simpa [w.port_dir] using hback
          rw [w.link_inj hlink' (w.link_opp hlink)]
          exact ⟨d, rfl, rfl, hlink⟩

omit [DecidableEq D] in
/-- The port a neighbour's packets come in through is the facing one. -/
theorem find_node (w : Wiring m) {c c' : N} {d : D} (hlink : w.link c d = some c') :
    (m.portList c').find? (fun q => m.ports c' q = some (.node c)) = some (.dir (w.opp d)) := by
  have hport : m.ports c (.dir d) = some (.node c') := by rw [w.port_dir, hlink]; rfl
  have hback : m.ports c' (.dir (w.opp d)) = some (.node c) := by
    rw [w.port_dir, w.link_opp hlink]; rfl
  obtain ⟨q, hq⟩ :
      ∃ q, (m.portList c').find? (fun q => m.ports c' q = some (.node c)) = some q := by
    refine Option.isSome_iff_exists.1 (List.find?_isSome.2 ?_)
    exact ⟨_, mem_portList w c' (.dir (w.opp d)), by simpa using hback⟩
  have hfound : m.ports c' q = some (.node c) := by simpa using List.find?_some hq
  obtain ⟨d', hd', rfl, -⟩ := facing w hport hfound
  cases hd'
  exact hq

omit [DecidableEq D] in
/-- The port an element's packets come in through is its own. -/
theorem find_elem (w : Wiring m) {c : N} {i : Fin (m.elems c)}
    (hport : m.ports c (.elem i) = some (.elem c i)) :
    (m.portList c).find? (fun q => m.ports c q = some (.elem c i)) = some (.elem i) := by
  obtain ⟨p, hp⟩ :
      ∃ p, (m.portList c).find? (fun q => m.ports c q = some (.elem c i)) = some p := by
    refine Option.isSome_iff_exists.1 (List.find?_isSome.2 ?_)
    exact ⟨_, mem_portList w c (.elem i), by simpa using hport⟩
  have hp' : m.ports c p = some (.elem c i) := by simpa using List.find?_some hp
  rw [hp]
  cases p with
  | elem j =>
      have he := w.port_elem _ _ _ hp'
      simp only [Comp.elem.injEq, true_and] at he
      rw [Fin.ext he]
  | dir d => simp [w.port_dir, Option.map_eq_some_iff] at hp'

/-- A neighbour's packet goes to the facing input, unless that is busy. -/
theorem receive_node (hstamp : StampsAtElements m.toNodeKind) (w : Wiring m) {c c' : N} {d : D}
    (hlink : w.link c d = some c') (pkt : Packet) :
    receive s c' (.node c) pkt =
      some (if ((s.nodes c').inp (.dir (w.opp d))).busy then (.EBUSY, s)
        else (.OK, setInp s c' (.dir (w.opp d)) ⟨pkt, true⟩)) := by
  simp only [receive, hstamp _ _ _ _ _ _ (find_node w hlink), Port.isElem, placeReg,
    Option.bind_eq_bind, Option.bind_some]
  split <;> simp

/-- An element's packet goes to that element's input with the node's timestamp, unless the input
is busy. -/
theorem receive_elem (hstamp : StampsAtElements m.toNodeKind) (w : Wiring m) {c : N}
    {i : Fin (m.elems c)} (hport : m.ports c (.elem i) = some (.elem c i)) (pkt : Packet) :
    receive s c (.elem c i) pkt =
      some (if ((s.nodes c).inp (.elem i)).busy then (.EBUSY, s)
        else (.OK, setInp s c (.elem i)
          ⟨{ pkt with timestamp := (s.nodes c).timestamp }, true⟩)) := by
  simp only [receive, hstamp _ _ _ _ _ _ (find_elem w hport), Port.isElem, placeReg,
    Option.bind_eq_bind, Option.bind_some, if_true]
  split <;> simp

/-! ## Clocking a node -/

section Clock

variable {answer : Comp N → Stat} {injected : Multiset Packet}

/-- Serving one output either leaves the mesh as it was, and then the output is free, its packet
waits for a busy register or the element refused it, or is one network move. -/
theorem clockOutput_spec (hstamp : StampsAtElements m.toNodeKind) (hspec : RoutingSpec w ok)
    (hanswer : ∀ comp, answer comp = .OK ∨ answer comp = .EBUSY)
    (hn : Routed (next w) ok (network s injected)) (c : N) (p : Port D (m.elems c)) :
    ∃ s', clockOutput answer c s p = some s' ∧
      ((s' = s ∧ ∀ x, held s (outAt c p) = some x →
          (∃ q, next w (outAt c p) x = some q ∧ held s q ≠ none) ∨
          ∃ i, p = .elem i ∧ answer (.elem c i) = .EBUSY) ∨
        Move (next w) (network s injected) (network s' injected)) := by
  cases hbusy : ((s.nodes c).out p).busy with
  | false =>
      refine ⟨s, by simp [clockOutput, hbusy], Or.inl ⟨rfl, fun x hx => ?_⟩⟩
      simp [held_outAt, Reg.held, hbusy] at hx
  | true =>
      have hheld : held s (outAt c p) = some ((s.nodes c).out p).pkt := by
        simp [held_outAt, Reg.held, hbusy]
      have hplaced := hn.held (outAt c p) _ hheld
      cases p with
      | dir d =>
          obtain ⟨c', hlink, -⟩ := hspec.depart hplaced
          have hport : m.ports c (.dir d) = some (.node c') := by rw [w.port_dir, hlink]; rfl
          have hnext : next w (outAt c (.dir d)) ((s.nodes c).out (.dir d)).pkt =
              some (inpAt c' (.dir (w.opp d))) := by simp [next, hlink]
          cases hin : ((s.nodes c').inp (.dir (w.opp d))).busy with
          | true =>
              refine ⟨s, ?_, Or.inl ⟨rfl, fun x hx => Or.inl ⟨inpAt c' (.dir (w.opp d)), ?_, ?_⟩⟩⟩
              · simp [clockOutput, hbusy, send, hport, receive_node hstamp w hlink, hin]
              · rw [hheld, Option.some.injEq] at hx
                exact hx ▸ hnext
              · simp [held_inpAt, Reg.held, hin]
          | false =>
              let sent := setInp s c' (.dir (w.opp d)) ⟨((s.nodes c).out (.dir d)).pkt, true⟩
              refine ⟨setOut sent c (.dir d) { (sent.nodes c).out (.dir d) with busy := false },
                ?_, Or.inr ?_⟩
              · simp [clockOutput, hbusy, send, hport, receive_node hstamp w hlink, hin, sent]
              have hfree : held s (inpAt c' (.dir (w.opp d))) = none := by
                simp [held_inpAt, Reg.held, hin]
              have hmove : Move (next w) (network s injected) _ :=
                .hop (outAt c (.dir d)) (inpAt c' (.dir (w.opp d))) _ hheld hnext hfree
              convert hmove using 1
              simp only [sent, network, Net.hop, setOut_delivered, setInp_delivered, held_setOut,
                held_setInp, Reg.held_mk_true]
              rw [Function.update_comm (by simp)]
              rfl
      | elem i =>
          obtain ⟨comp, hport⟩ := Option.ne_none_iff_exists'.1 (hspec.attached hplaced)
          obtain rfl := w.port_elem _ _ _ hport
          rcases hanswer (.elem c i) with hans | hans
          · let sent : MeshState m := { s with
              delivered := ⟨c, .elem i, .elem c i, ((s.nodes c).out (.elem i)).pkt⟩ :: s.delivered }
            refine ⟨setOut sent c (.elem i) { (s.nodes c).out (.elem i) with busy := false },
              by simp [clockOutput, hbusy, send, hport, hans, sent], Or.inr ?_⟩
            have hmove : Move (next w) (network s injected) _ :=
              .leave (outAt c (.elem i)) _ hheld rfl
            convert hmove using 1
            simp only [sent, network, Net.leave, held_setOut, Reg.held_mk_false]
            rfl
          · refine ⟨s, by simp [clockOutput, hbusy, send, hport, hans], Or.inl ⟨rfl, ?_⟩⟩
            exact fun x _ => Or.inr ⟨i, rfl, hans⟩

/-- One `propagate` call either leaves the mesh as it was, and then the output is busy or no
candidate's packet is for it, or moves the packet of a candidate to the free output. -/
theorem propagateTo_held (c : N) (r : Option (Port D (m.elems c))) (p : Port D (m.elems c)) :
    ∃ s', propagateTo c r s p = some s' ∧
      ((s' = s ∧ (held s (outAt c p) ≠ none ∨ ∀ q, some q ∈ m.candidates c r p →
          ∀ x, held s (inpAt c q) = some x → m.wants c p x = false)) ∨
        s'.delivered = s.delivered ∧ ∃ q x, some q ∈ m.candidates c r p ∧
          held s (inpAt c q) = some x ∧ m.wants c p x = true ∧ held s (outAt c p) = none ∧
          held s' = Function.update (Function.update (held s) (inpAt c q) none) (outAt c p)
            (some x)) := by
  obtain ⟨out, inp, hprop, hspecd⟩ := propagate_spec ((s.nodes c).out p) (s.nodes c).inp
    (m.candidates c r p) (fun reg => m.wants c p reg.pkt)
  refine ⟨_, by simp only [propagateTo, hprop, Option.bind_eq_bind, Option.bind_some]; rfl, ?_⟩
  cases hspecd with
  | idle hnone =>
      refine Or.inl ⟨by simp [setNode], Or.inr fun q hq x hx => ?_⟩
      obtain ⟨hbusy, rfl⟩ := Reg.held_eq_some.1 hx
      exact hnone q hq hbusy
  | blocked hbusy =>
      refine Or.inl ⟨by simp [setNode], Or.inl ?_⟩
      simp [held_outAt, Reg.held, hbusy]
  | moved q hfree hmem hbusy hsel =>
      have hheld : held s (inpAt c q) = some ((s.nodes c).inp q).pkt := by
        simp [held_inpAt, Reg.held, hbusy]
      have hout : held s (outAt c p) = none := by simp [held_outAt, Reg.held, hfree]
      have htwo : setNode s c { s.nodes c with
            inp := Function.update (s.nodes c).inp q { (s.nodes c).inp q with busy := false }
            out := Function.update (s.nodes c).out p ⟨((s.nodes c).inp q).pkt, true⟩ } =
          setOut (setInp s c q { (s.nodes c).inp q with busy := false }) c p
            ⟨((s.nodes c).inp q).pkt, true⟩ := by
        simp [setOut, setInp, setNode]
      refine Or.inr ⟨rfl, q, _, hmem, hheld, hsel, hout, ?_⟩
      rw [htwo]
      simp only [held_setOut, held_setInp, Reg.held_mk_true, Reg.held_mk_false]

/-- One `propagate` call either leaves the mesh as it was, and then the output is busy or no
candidate's packet is for it, or is one network move. -/
theorem propagateTo_spec (hspec : RoutingSpec w ok) (injected : Multiset Packet) (c : N)
    (r : Option (Port D (m.elems c))) (p : Port D (m.elems c)) :
    ∃ s', propagateTo c r s p = some s' ∧
      ((s' = s ∧ (held s (outAt c p) ≠ none ∨ ∀ q, some q ∈ m.candidates c r p →
          ∀ x, held s (inpAt c q) = some x → m.wants c p x = false)) ∨
        Move (next w) (network s injected) (network s' injected)) := by
  obtain ⟨s', hprop, hstay | ⟨hdel, q, x, -, hheld, hsel, hout, hheld'⟩⟩ :=
    propagateTo_held (s := s) c r p
  · exact ⟨s', hprop, Or.inl hstay⟩
  · have hmove : Move (next w) (network s injected) _ :=
      .hop (inpAt c q) (outAt c p) x hheld (next_inp hspec hsel) hout
    have hnet : network s' injected = (network s injected).hop (inpAt c q) (outAt c p) x := by
      simp only [network, Net.hop, hheld', hdel]
    exact ⟨s', hprop, Or.inr (hnet ▸ hmove)⟩

/-- From a well-placed mesh, the second state is reached by network moves. -/
def Goes (w : Wiring m) (ok : Place m → Packet → Prop) (injected : Multiset Packet)
    (s s' : MeshState m) : Prop :=
  Routed (next w) ok (network s injected) →
    Moves (next w) (network s injected) (network s' injected)

/-- Doing nothing is a run of the network. -/
theorem goes_refl (s : MeshState m) : Goes w ok injected s s := fun _ => .refl

/-- Runs of the network follow one another. -/
theorem goes_trans (hspec : RoutingSpec w ok) {a b c : MeshState m}
    (hab : Goes w ok injected a b) (hbc : Goes w ok injected b c) : Goes w ok injected a c :=
  fun hn => (hab hn).trans (hbc (Moves.routed (ok_next hspec) (hab hn) hn))

/-- A state with the same packets is reached by a run of the network. -/
theorem goes_of_held {s' : MeshState m} (hheld : held s' = held s)
    (hdel : s'.delivered = s.delivered) : Goes w ok injected s s' := by
  intro _
  have heq : network s' injected = network s injected := by simp [network, hheld, hdel]
  rw [heq]

variable (hstamp : StampsAtElements m.toNodeKind) (hspec : RoutingSpec w ok)
  (hanswer : ∀ comp, answer comp = .OK ∨ answer comp = .EBUSY)
include hspec

/-- Filling an output is a run of the network. -/
theorem propagateTo_goes {c : N} {r : Option (Port D (m.elems c))} {p : Port D (m.elems c)}
    {s' : MeshState m} (h : propagateTo c r s p = some s') : Goes w ok injected s s' := by
  intro _
  obtain ⟨t, ht, hstep⟩ := propagateTo_spec (s := s) hspec injected c r p
  obtain rfl : t = s' := Option.some.inj (ht.symm.trans h)
  rcases hstep with ⟨rfl, -⟩ | hmove
  · exact .refl
  · exact .single hmove

include hstamp hanswer

/-- Serving an output is a run of the network. -/
theorem clockOutput_goes {c : N} {p : Port D (m.elems c)} {s' : MeshState m}
    (h : clockOutput answer c s p = some s') : Goes w ok injected s s' := by
  intro hn
  obtain ⟨t, ht, hstep⟩ := clockOutput_spec hstamp hspec hanswer hn c p
  obtain rfl : t = s' := Option.some.inj (ht.symm.trans h)
  rcases hstep with ⟨rfl, -⟩ | hmove
  · exact .refl
  · exact .single hmove

/-- A clock is a sequence of network moves. -/
theorem clock_goes {c : N} {s' : MeshState m} (h : clock answer c s = some s') :
    Goes w ok injected s s' := by
  simp only [clock, Option.bind_eq_bind, Option.bind_eq_some_iff] at h
  obtain ⟨t, hout, hprop⟩ := h
  refine goes_trans hspec (goes_of_held (held_tick c) rfl) (goes_trans hspec
    (Fold.foldlM_rel (Goes w ok injected) goes_refl (fun _ _ _ => goes_trans hspec)
      (fun _ _ _ _ => clockOutput_goes hstamp hspec hanswer) hout)
    (Fold.foldlM_rel (Goes w ok injected) goes_refl (fun _ _ _ => goes_trans hspec)
      (fun _ _ _ _ => propagateTo_goes hspec) hprop))

/-- A clock of a well-placed mesh fails no assertion: in particular nothing is sent through an
unconnected port. -/
theorem clock_some (hn : Routed (next w) ok (network s injected)) (c : N) :
    ∃ s', clock answer c s = some s' ∧ Routed (next w) ok (network s' injected) := by
  have hn' : Routed (next w) ok (network (tick s c) injected) := by
    have heq : network (tick s c) injected = network s injected := by
      simp only [network, held_tick]; rfl
    exact heq ▸ hn
  obtain ⟨t, hout, ht⟩ := Fold.foldlM_some
    (fun s => Routed (next w) ok (network s injected)) (l := m.portList c)
    (f := clockOutput answer c) (fun s p _ hs => by
      obtain ⟨s', h, -⟩ := clockOutput_spec hstamp hspec hanswer hs c p
      exact ⟨s', h, Moves.routed (ok_next hspec)
        (clockOutput_goes hstamp hspec hanswer h hs) hs⟩) hn'
  obtain ⟨s', hprop, hs'⟩ := Fold.foldlM_some
    (fun s => Routed (next w) ok (network s injected)) (l := m.propagateOrder c)
    (f := propagateTo c (oldestElem (t.nodes c))) (fun s p _ hs => by
      obtain ⟨s', h, -⟩ := propagateTo_spec (s := s) hspec injected c
        (oldestElem (t.nodes c)) p
      exact ⟨s', h, Moves.routed (ok_next hspec) (propagateTo_goes hspec h hs) hs⟩) ht
  exact ⟨s', by simp [clock, clockOutputs, hout, hprop], hs'⟩

end Clock

end Gran.Mesh
