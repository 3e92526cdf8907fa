import Gran.Mesh.Mesh2d
import Gran.Mesh.Order

/-!
# Delivery in a two-dimensional mesh

`mesh2d_delivery` is exactly-once delivery, to the element that is addressed and in the order of
injection, on every run of a grid of `node2d` nodes.
-/

namespace Gran.Mesh2d

open PacketNet Mesh Flow

variable {g : Mesh2d}

/-- The reachable runs of a grid whose packets name existing nodes and connected elements. -/
abbrev Reachable (r : Run g.mesh) : Prop := r.Reachable g.Addressed

/-- The element ports of the nodes. -/
abbrev Elem (g : Mesh2d) := Σ c : g.Node, Fin (g.elems c).toNat

/-- What an address that names an element says. -/
def Elem.target (b : g.Elem) : Target := ⟨b.1.x, b.1.y, b.2⟩

/-- A packet delivered was handed to the connected element its address names. -/
theorem delivered_addressed {r : Run g.mesh} (h : Reachable r) {d : Delivery g.mesh}
    (hd : d ∈ r.state.delivered) :
    ∃ b : g.Elem, d.comp = .elem b.1 b.2 ∧ g.connected b.1 b.2 = true ∧
      target d.pkt = b.target := by
  have hrouted := (reachable_routed admits h).delivered (outAt d.node d.port, d.pkt)
    (Multiset.mem_map_of_mem _ (Multiset.mem_coe.2 hd))
  obtain ⟨hok, hnext⟩ := hrouted
  have hport := reachable_handed h d hd
  obtain ⟨node, port, comp, pkt⟩ := d
  obtain ⟨c, i, hat⟩ := elem_of_next_none spec hok hnext
  simp only [outAt, Sum.inr.injEq] at hat
  cases hat
  have hout : target pkt = ⟨node.x, node.y, i⟩ := hok.2
  simp only [mesh, Option.ite_none_right_eq_some, Option.some.injEq] at hport
  exact ⟨⟨node, i⟩, hport.2.symm, hport.1, hout⟩

/-- The packets for `b` injected at `a`, oldest first. -/
def injectedFrom (r : Run g.mesh) (a b : g.Elem) : List Packet :=
  ((r.injected.filter fun i => i.node = a.1 ∧ i.elem = a.2.val ∧ target i.pkt = b.target).map
    Injection.stamped).reverse

/-- The packets delivered to `b` that came from `a`, oldest first, where `sources` says at which
element port each of the packets delivered entered the grid. -/
def deliveredFrom (r : Run g.mesh) (sources : List g.Elem) (a b : g.Elem) : List Packet :=
  (((r.state.delivered.zip sources).filter fun d =>
    d.2 = a ∧ d.1.comp = .elem b.1 b.2).map fun d => d.1.pkt).reverse

/-- A selector reads the target of a packet. -/
theorem wants_congr {c : g.Node} {p : Port Dir2 (g.mesh.elems c)} {x y : Packet}
    (h : target x = target y) : g.mesh.wants c p x = g.mesh.wants c p y := by
  rw [Bool.eq_iff_iff, wants_iff, wants_iff, h]

/-- Routes depend on targets. -/
def destinations (g : Mesh2d) : Destinations g.wiring (Placed (g := g)) Target where
  dest := target
  next_eq {p x y} h := by
    rcases p with ⟨c, p⟩ | ⟨c, i | d⟩
    · simp only [next, wants_congr h]
    · rfl
    · rfl
  ok_of_eq {p x y} h hok := by
    have haddr : g.Addressed x → g.Addressed y := fun ⟨c, i, hconn, ht⟩ => ⟨c, i, hconn, h ▸ ht⟩
    rcases p with ⟨c, p⟩ | ⟨c, p⟩
    · exact ⟨haddr hok.1, h ▸ hok.2⟩
    · exact ⟨haddr hok.1, h ▸ hok.2⟩

/-- A packet delivered names the element it was handed to. -/
theorem delivered_iff {r : Run g.mesh} (h : Reachable r) {d : Delivery g.mesh}
    (hd : d ∈ r.state.delivered) (b : g.Elem) :
    d.comp = .elem b.1 b.2 ↔ target d.pkt = b.target := by
  obtain ⟨⟨c, i⟩, hcomp, -, ht⟩ := delivered_addressed h hd
  rw [hcomp, ht, Comp.elem.injEq, Elem.target, Elem.target, Target.mk.injEq]
  constructor
  · rintro ⟨rfl, hi⟩
    exact ⟨rfl, rfl, hi⟩
  · rintro ⟨hx, hy, hi⟩
    obtain ⟨⟨x, y⟩, j⟩ := b
    obtain ⟨x', y'⟩ := c
    obtain rfl := Fin.ext hx
    obtain rfl := Fin.ext hy
    exact ⟨rfl, hi⟩

/-- Delivery on a grid of `node2d` nodes. On every run, with any order of node clocks, injections
and refusals: the packets injected with `OK` are the packets in the registers and the packets
delivered, each packet delivered was handed to the element its address names, no clock fails an
assertion, and each packet delivered entered at some element port, such that for every two elements,
those from the one delivered to the other are the first ones injected there for it, in the order of
their injection, and all of them when the grid is empty. -/
theorem mesh2d_delivery {r : Run g.mesh} (h : Reachable r) :
    r.stamped = registers r.state + ((r.state.delivered.map Delivery.pkt : List Packet) :
      Multiset Packet) ∧
    (∀ d ∈ r.state.delivered, ∃ b : g.Elem, d.comp = .elem b.1 b.2 ∧
      g.connected b.1 b.2 = true ∧ target d.pkt = b.target) ∧
    (∀ (c : g.Node) (answer : Comp g.Node → Stat),
      (∀ comp, answer comp = .OK ∨ answer comp = .EBUSY) →
      ∃ s', clock answer c r.state = some s') ∧
    ∃ sources : List g.Elem, sources.length = r.state.delivered.length ∧
      ∀ a b : g.Elem, deliveredFrom r sources a b <+: injectedFrom r a b ∧
        ((∀ p, held r.state p = none) → deliveredFrom r sources a b = injectedFrom r a b) := by
  refine ⟨reachable_conserved admits h, fun d hd => delivered_addressed h hd,
    fun c answer hanswer => ?_, ?_⟩
  · obtain ⟨s', hs', -⟩ := clock_some g.kind_stamps spec hanswer (reachable_routed admits h) c
    exact ⟨s', hs'⟩
  · obtain ⟨sources, hlength, horder⟩ := reachable_in_order g.destinations counts admits h
    exact ⟨sources, hlength, fun a b =>
      horder a b.target (fun d => d.comp = .elem b.1 b.2) fun _ hd => delivered_iff h hd b⟩

theorem one_le_side : 1 ≤ 256 := by
  decide

theorem two_le_side : 2 ≤ 256 := by
  decide

/-- Two nodes in a row, each with one element. -/
def row : Mesh2d where
  X := 2
  Y := 1
  hX := two_le_side
  hY := one_le_side
  elems _ := 1
  connected _ _ := true

def rowWest : row.Node := ⟨⟨0, Nat.two_pos⟩, ⟨0, Nat.one_pos⟩⟩

def rowEast : row.Node := ⟨⟨1, Nat.one_lt_two⟩, ⟨0, Nat.one_pos⟩⟩

def westElem : row.Elem := ⟨rowWest, ⟨0, Nat.one_pos⟩⟩

def eastElem : row.Elem := ⟨rowEast, ⟨0, Nat.one_pos⟩⟩

/-- A packet for the element of the eastern node. -/
def letter : Packet := { Packet.zero with dst := mesh2dAddr 1 0 0 0 }

/-- Two packets from the western to the eastern element, the second one refused at first. -/
def letters : List (Drive row.Node) :=
  [.inject rowWest 0 { letter with flags := 1 }, .inject rowWest 0 letter,
    .clock rowWest fun _ => .OK, .inject rowWest 0 { letter with flags := 2 },
    .clock rowWest fun _ => .OK, .clock rowEast fun _ => .OK,
    .clock rowWest fun _ => .OK, .clock rowEast fun _ => .OK,
    .clock rowEast fun _ => .OK]

theorem letters_proper : ∀ d ∈ letters, Proper row.mesh row.Addressed d := by
  have haddr : row.Addressed letter := ⟨rowEast, ⟨0, by decide⟩, rfl, rfl⟩
  have hinject : ∀ flags, Proper row.mesh row.Addressed
      (.inject rowWest 0 { letter with flags }) := fun _ => ⟨⟨by decide, rfl⟩, haddr⟩
  have hclock : ∀ c, Proper row.mesh row.Addressed (.clock c fun _ => .OK) :=
    fun c => proper_clock c (.inl rfl)
  simp only [letters, List.forall_mem_cons]
  exact ⟨hinject 1, hinject 0, hclock _, hinject 2, hclock _, hclock _, hclock _, hclock _,
    hclock _, fun d hd => nomatch hd⟩

/-- `mesh2d_delivery` on the run that delivers both, after which the row is empty. -/
theorem mesh2d_delivery_letters : ∃ (r : Run row.mesh) (sources : List row.Elem),
    r.stamped = ((r.state.delivered.map Delivery.pkt : List Packet) : Multiset Packet) ∧
    (∀ d ∈ r.state.delivered, ∃ b : row.Elem, d.comp = .elem b.1 b.2 ∧
      row.connected b.1 b.2 = true ∧ target d.pkt = b.target) ∧
    sources.length = r.state.delivered.length ∧
    (∀ a b, deliveredFrom r sources a b = injectedFrom r a b) ∧
    (deliveredFrom r sources westElem eastElem).map Packet.flags = [1, 2] := by
  have hrun : (Run.ofDrives row.mesh letters).map (fun r =>
      (decide (∀ p, held r.state p = none),
        (injectedFrom r westElem eastElem).map Packet.flags)) =
      some (true, [1, 2]) := by decide +kernel
  obtain ⟨r, hr, hfinal⟩ := Option.map_eq_some_iff.1 hrun
  obtain ⟨hempty, hflags⟩ := Prod.mk.inj hfinal
  obtain ⟨hconserved, haddressed, -, sources, hlen, horder⟩ :=
    mesh2d_delivery (ofDrives_reachable letters_proper hr)
  have hheld := of_decide_eq_true hempty
  have hall := fun a b => (horder a b).2 hheld
  have hfree : registers r.state = 0 := Finset.sum_eq_zero fun p _ => by rw [hheld p]; rfl
  rw [hfree, zero_add] at hconserved
  exact ⟨r, sources, hconserved, haddressed, hlen, hall,
    (congrArg (List.map Packet.flags) (hall _ _)).trans hflags⟩

end Gran.Mesh2d
