import Gran.Mesh.Progress

/-!
# Runs of a mesh

A run clocks nodes and injects packets at element ports, in any order, with elements that answer
`OK` or `EBUSY` to what is sent to them. `reachable_steps` reads a run as a run of the packet
network, and with it `reachable_conserved` and `reachable_routed` hold of every reachable state.
-/

namespace Gran.Mesh

open PacketNet Relation

variable {N D : Type} [DecidableEq N] [DecidableEq D]

/-- A packet accepted from an element, with the node's clock count at that moment. -/
structure Injection (N : Type) where
  node : N
  elem : Nat
  pkt : Packet
  stamp : Word

/-- The packet as it travels: the one presented, with the stamp of its injection. -/
def Injection.stamped (i : Injection N) : Packet := { i.pkt with timestamp := i.stamp }

/-- A mesh state with the history of its injections. -/
structure Run (m : Mesh N D) where
  state : MeshState m
  injected : List (Injection N)

/-- The run of a mesh that was just created. -/
def Run.init (m : Mesh N D) : Run m := ⟨.init m, []⟩

variable {m : Mesh N D}

/-- The injected packets as they travel. -/
def Run.stamped (r : Run m) : Multiset Packet :=
  (r.injected : Multiset (Injection N)).map Injection.stamped

/-- One step of a run: a node is clocked, or an element presents a packet to its node. -/
inductive Run.Step (addressed : Packet → Prop) (r : Run m) : Run m → Prop where
  | clock (c : N) (answer : Comp N → Stat)
      (hanswer : ∀ comp, answer comp = .OK ∨ answer comp = .EBUSY) (s' : MeshState m)
      (h : Mesh.clock answer c r.state = some s') : Step addressed r { r with state := s' }
  | inject (c : N) (i : Fin (m.elems c)) (hport : m.ports c (.elem i) = some (.elem c i))
      (pkt : Packet) (haddr : addressed pkt) (ret : Stat) (s' : MeshState m)
      (h : receive r.state c (.elem c i) pkt = some (ret, s')) :
      Step addressed r ⟨s', if ret = .OK then
        ⟨c, i, pkt, (r.state.nodes c).timestamp⟩ :: r.injected else r.injected⟩

/-- The runs that start from a mesh that was just created. -/
abbrev Run.Reachable (addressed : Packet → Prop) (r : Run m) : Prop :=
  ReflTransGen (Run.Step addressed) (Run.init m) r

/-- What a drive does to a run. -/
def Run.drive (r : Run m) : Drive N → Option (Run m)
  | .clock c answer => do
      let s' ← Mesh.clock answer c r.state
      pure { r with state := s' }
  | .inject c i pkt => do
      let (ret, s') ← receive r.state c (.elem c i) pkt
      pure ⟨s', if ret = .OK then
        ⟨c, i, pkt, (r.state.nodes c).timestamp⟩ :: r.injected else r.injected⟩

/-- The run that a list of drives makes. -/
def Run.ofDrives (m : Mesh N D) (drives : List (Drive N)) : Option (Run m) :=
  drives.foldlM Run.drive (Run.init m)

/-- A drive of a run whose packets are addressed. -/
def Proper (m : Mesh N D) (addressed : Packet → Prop) : Drive N → Prop
  | .clock _ answer => ∀ comp, answer comp = .OK ∨ answer comp = .EBUSY
  | .inject c i pkt =>
      (∃ h : i < m.elems c, m.ports c (.elem ⟨i, h⟩) = some (.elem c i)) ∧ addressed pkt

omit [DecidableEq N] [DecidableEq D] in
/-- A clock at which every element answers the same. -/
theorem proper_clock {addressed : Packet → Prop} (c : N) {ret : Stat}
    (h : ret = .OK ∨ ret = .EBUSY) : Proper m addressed (.clock c fun _ => ret) := fun _ => h

/-- What drives make is reachable. -/
theorem ofDrives_reachable {r : Run m} {addressed : Packet → Prop} {drives : List (Drive N)}
    (hproper : ∀ d ∈ drives, Proper m addressed d)
    (h : Run.ofDrives m drives = some r) : r.Reachable addressed := by
  refine Fold.foldlM_keep (fun r : Run m => r.Reachable addressed) (fun r d r' hd hr h => ?_)
    .refl h
  have hfits := hproper d hd
  cases d with
  | clock c answer =>
      obtain ⟨s', hclock, h⟩ := Option.bind_eq_some_iff.1 h
      cases h
      exact hr.tail (.clock c answer hfits s' hclock)
  | inject c i pkt =>
      obtain ⟨⟨hi, hport⟩, haddr⟩ := hfits
      obtain ⟨⟨ret, s'⟩, hreceive, h⟩ := Option.bind_eq_some_iff.1 h
      cases h
      exact hr.tail (.inject c ⟨i, hi⟩ hport pkt haddr ret s' hreceive)

/-- Where and with what packets a run fills the network. -/
def entry (addressed : Packet → Prop) (p : Place m) (x : Packet) : Prop :=
  (∃ c i, p = inpAt c (.elem i)) ∧ addressed x

variable {w : Wiring m} {ok : Place m → Packet → Prop} {addressed : Packet → Prop}

/-- What the results on runs need of a mesh: the selectors follow `ok`, and element inputs may
hold every addressed packet whatever its stamp. -/
structure Admits (w : Wiring m) (ok : Place m → Packet → Prop) (addressed : Packet → Prop) :
    Prop where
  stamps : StampsAtElements m.toNodeKind
  spec : RoutingSpec w ok
  entry : ∀ {c i x}, addressed x → ok (inpAt c (.elem i)) x
  stamp : ∀ {x}, addressed x → ∀ now, addressed { x with timestamp := now }

omit [DecidableEq D] in
/-- Packets enter at places where they may be. -/
theorem Admits.entry_ok (ha : Admits w ok addressed) (p : Place m) (x : Packet)
    (h : Mesh.entry addressed p x) : ok p x := by
  obtain ⟨⟨c, i, rfl⟩, hx⟩ := h
  exact ha.entry hx

omit [DecidableEq N] [DecidableEq D] in
/-- A new mesh is an empty network. -/
theorem network_init : network (.init m) (Run.init m).stamped = Net.empty := by
  simp only [network, Run.stamped, Run.init, Net.empty, Net.mk.injEq]
  refine ⟨?_, rfl, rfl⟩
  funext p
  rcases p with ⟨c, p⟩ | ⟨c, p⟩ <;> rfl

/-- A step of a run is a run of the network. -/
theorem Run.Step.steps (ha : Admits w ok addressed) {r r' : Run m} (h : r.Step addressed r')
    (hn : Routed (next w) ok (network r.state r.stamped)) :
    Steps (next w) (Mesh.entry addressed) (network r.state r.stamped)
      (network r'.state r'.stamped) := by
  cases h with
  | clock c answer hanswer s' h =>
      exact (clock_goes ha.stamps ha.spec hanswer h hn).steps
  | inject c i hport pkt haddr ret s' h =>
      rw [receive_elem ha.stamps w hport] at h
      split at h
      · cases h
        exact .refl
      · rename_i hbusy
        cases h
        have hfree : held r.state (inpAt c (.elem i)) = none := by
          simpa [held_inpAt, Reg.held_eq_none] using hbusy
        have hinj : PacketNet.Step (next w) (Mesh.entry addressed)
            (network r.state r.stamped) _ :=
          .inject (inpAt c (.elem i)) { pkt with timestamp := (r.state.nodes c).timestamp } hfree
            ⟨⟨c, i, rfl⟩, ha.stamp haddr _⟩
        refine .single ?_
        convert hinj using 1
        simp only [network, Net.inject, held_setInp, setInp_delivered, Reg.held_mk_true,
          Run.stamped, if_true, Net.mk.injEq, true_and, and_true]
        rfl

/-- Every reachable run is a run of the packet network, and keeps its packets well placed. -/
theorem reachable_steps (ha : Admits w ok addressed) {r : Run m} (h : r.Reachable addressed) :
    Steps (next w) (Mesh.entry addressed) Net.empty (network r.state r.stamped) ∧
      Routed (next w) ok (network r.state r.stamped) := by
  induction h with
  | refl =>
      have hinit : network (Run.init m).state (Run.init m).stamped = Net.empty := network_init
      rw [hinit]
      exact ⟨.refl, routed_empty ok⟩
  | tail _ hstep ih =>
      have hsteps := hstep.steps ha ih.2
      exact ⟨ih.1.trans hsteps, Steps.routed (ok_next ha.spec) ha.entry_ok hsteps ih.2⟩

/-- Every reachable run keeps its packets well placed. -/
theorem reachable_routed (ha : Admits w ok addressed) {r : Run m} (h : r.Reachable addressed) :
    Routed (next w) ok (network r.state r.stamped) := (reachable_steps ha h).2

/-- The packets in the registers of a mesh. -/
def registers [Fintype N] [Fintype D] (s : MeshState m) : Multiset Packet :=
  ∑ p : Place m, held1 (held s p)

/-- The packets injected are those in the registers and those delivered. -/
theorem reachable_conserved [Fintype N] [Fintype D] (ha : Admits w ok addressed) {r : Run m}
    (h : r.Reachable addressed) :
    r.stamped = registers r.state + ((r.state.delivered.map Delivery.pkt : List Packet) :
      Multiset Packet) := by
  have hempty : Conserved Finset.univ (Net.empty : Net (Place m) Packet) := by
    unfold Conserved
    rw [content_empty]
    rfl
  have hc := Steps.conserved (ok_next ha.spec) ha.entry_ok everywhere (reachable_steps ha h).1
    (routed_empty ok) hempty
  unfold Conserved at hc
  simp only [network, departures, Multiset.map_map] at hc
  exact hc

/-! ## Who receives -/

/-- Every packet delivered was handed to the component connected to the port it left from. -/
def Handed (s : MeshState m) : Prop := ∀ d ∈ s.delivered, m.ports d.node d.port = some d.comp

variable {s s' : MeshState m}

omit [DecidableEq N] [DecidableEq D] in
/-- Nothing is handed over as long as the deliveries stay. -/
theorem handed_of_delivered (h : s'.delivered = s.delivered) (hs : Handed s) : Handed s' := by
  intro d hd
  exact hs d (h ▸ hd)

/-- Receiving a packet delivers none. -/
theorem receive_delivered {c : N} {sender : Comp N} {pkt : Packet} {ret : Stat}
    (h : receive s c sender pkt = some (ret, s')) : s'.delivered = s.delivered := by
  simp only [receive, Option.bind_eq_bind, Option.bind_eq_some_iff] at h
  obtain ⟨⟨p, pkt'⟩, -, h⟩ := h
  cases h
  rfl

/-- A packet that leaves an output is handed to what is connected there. -/
theorem clockOutput_handed {answer : Comp N → Stat} {c : N} {p : Port D (m.elems c)}
    (h : clockOutput answer c s p = some s') (hs : Handed s) : Handed s' := by
  unfold clockOutput at h
  split at h
  · simp only [Option.bind_eq_bind, Option.bind_eq_some_iff] at h
    obtain ⟨⟨ret, t⟩, hsend, h⟩ := h
    have ht : Handed t := by
      unfold send at hsend
      split at hsend
      · cases hsend
      · exact handed_of_delivered (receive_delivered hsend) hs
      · rename_i c' i hport
        cases hsend
        split
        · intro d hd
          rcases List.mem_cons.1 hd with rfl | hd
          · exact hport
          · exact hs d hd
        · exact hs
    cases h
    split
    · exact ht
    · exact handed_of_delivered rfl ht
  · cases h; exact hs

/-- Filling an output delivers no packet. -/
theorem propagateTo_delivered {c : N} {r : Option (Port D (m.elems c))} {p : Port D (m.elems c)}
    (h : propagateTo c r s p = some s') : s'.delivered = s.delivered := by
  simp only [propagateTo, Option.bind_eq_bind, Option.bind_eq_some_iff] at h
  obtain ⟨⟨out, inp⟩, -, h⟩ := h
  cases h
  rfl

/-- A clock hands packets to what is connected to their outputs. -/
theorem clock_handed {answer : Comp N → Stat} {c : N} (h : clock answer c s = some s')
    (hs : Handed s) : Handed s' := by
  simp only [clock, Option.bind_eq_bind, Option.bind_eq_some_iff] at h
  obtain ⟨t, hout, hprop⟩ := h
  have ht : Handed t :=
    Fold.foldlM_rel (fun a b => Handed a → Handed b) (fun _ h => h)
      (fun _ _ _ hab hbc h => hbc (hab h)) (fun _ _ _ _ => clockOutput_handed) hout
      (handed_of_delivered rfl hs)
  exact Fold.foldlM_rel (fun a b => Handed a → Handed b) (fun _ h => h)
    (fun _ _ _ hab hbc h => hbc (hab h))
    (fun _ _ _ _ hp => handed_of_delivered (propagateTo_delivered hp)) hprop ht

/-- In every reachable run packets were handed to what is connected to their outputs. -/
theorem reachable_handed {r : Run m} (h : r.Reachable addressed) : Handed r.state := by
  induction h with
  | refl => intro d hd; cases hd
  | tail _ hstep ih =>
      cases hstep with
      | clock c answer hanswer s' h => exact clock_handed h ih
      | inject c i hport pkt haddr ret s' h =>
          exact handed_of_delivered (receive_delivered h) ih

end Gran.Mesh
