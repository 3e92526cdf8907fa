import Gran.Mesh.Delivery3d
import Gran.Mesh.Order

/-!
# The order of packets in a three-dimensional mesh

`node3d` nodes choose between packets by timestamp, and packets wait at inputs and outputs for
different times, but `mesh3d_in_order` says that between two elements no packet overtakes another
one: in every run the packets delivered are the first ones injected, in the order of their injection
and with the stamps that they got there.
-/

namespace Gran.Grid3d

open Mesh Flow

variable {g : Grid3d}

deriving instance DecidableEq for Target

/-- The element ports of the nodes. -/
abbrev Elem (g : Grid3d) := Σ c : g.Node, Fin (g.elems c).toNat

/-- What an address that names an element says. -/
def Elem.target (b : g.Elem) : Target := ⟨b.1.x, b.1.y, b.1.z, b.2⟩

/-- The packets for `b` injected at `a`, oldest first. -/
def injectedFrom (r : Run g.mesh) (a b : g.Elem) : List Packet :=
  ((r.injected.filter fun i => i.node = a.1 ∧ i.elem = a.2.val ∧ target i.pkt = b.target).map
    Injection.stamped).reverse

/-- The packets delivered to `b` that came from `a`, oldest first, where `sources` says at which
element port each of the packets delivered entered the grid. -/
def deliveredFrom (r : Run g.mesh) (sources : List g.Elem) (a b : g.Elem) : List Packet :=
  (((r.state.delivered.zip sources).filter fun d =>
    d.2 = a ∧ d.1.comp = .elem b.1 b.2).map fun d => d.1.pkt).reverse

/-- A selector reads the target of a packet. -/
theorem wants_congr {c : g.Node} {p : Port Dir3 (g.mesh.elems c)} {x y : Packet}
    (h : target x = target y) : g.mesh.wants c p x = g.mesh.wants c p y := by
  rw [Bool.eq_iff_iff, wants_iff, wants_iff, h]

/-- Routes depend on targets. -/
def destinations (g : Grid3d) : Destinations g.wiring (Placed (g := g)) Target where
  dest := target
  next_eq {p x y} h := by
    rcases p with ⟨c, p⟩ | ⟨c, i | d⟩
    · simp only [next, wants_congr h]
    · rfl
    · rfl
  ok_of_eq {p x y} h hok := by
    have haddr : g.Addressed x → g.Addressed y := fun ⟨c, i, hconn, ht⟩ => ⟨c, i, hconn, h ▸ ht⟩
    rcases p with ⟨c, p⟩ | ⟨c, p⟩
    · exact ⟨haddr hok.1, h ▸ hok.2⟩
    · exact ⟨haddr hok.1, h ▸ hok.2⟩

/-- A packet delivered names the element it was handed to. -/
theorem delivered_iff {r : Run g.mesh} (h : Reachable r) {d : Delivery g.mesh}
    (hd : d ∈ r.state.delivered) (b : g.Elem) :
    d.comp = .elem b.1 b.2 ↔ target d.pkt = b.target := by
  obtain ⟨c, i, hcomp, -, ht⟩ := delivered_addressed h hd
  rw [hcomp, ht, Comp.elem.injEq, Elem.target, Target.mk.injEq]
  constructor
  · rintro ⟨rfl, rfl⟩
    exact ⟨rfl, rfl, rfl, rfl⟩
  · rintro ⟨hx, hy, hz, hi⟩
    obtain ⟨⟨x, y, z⟩, j⟩ := b
    obtain ⟨x', y', z'⟩ := c
    obtain rfl := Fin.ext hx
    obtain rfl := Fin.ext hy
    obtain rfl := Fin.ext hz
    exact ⟨rfl, hi⟩

/-- A packet delivered was handed to an element port. -/
theorem delivered_elem {r : Run g.mesh} (h : Reachable r) {d : Delivery g.mesh}
    (hd : d ∈ r.state.delivered) : ∃ b : g.Elem, d.comp = .elem b.1 b.2 := by
  obtain ⟨c, i, hcomp, -⟩ := delivered_addressed h hd
  have hport := reachable_handed h d hd
  obtain ⟨node, port, comp, pkt⟩ := d
  cases port with
  | elem j =>
      simp only [mesh, Option.ite_none_right_eq_some, Option.some.injEq] at hport
      exact ⟨⟨node, j⟩, hport.2.symm⟩
  | dir e =>
      -- what is connected to a direction is a node
      obtain ⟨c', -, rfl⟩ := Option.map_eq_some_iff.1 hport
      cases hcomp

/-- In-order delivery on a grid of `node3d` nodes. In every run, with any order of node clocks,
injections and refusals, each packet delivered entered at some element port and was handed to one,
such that for every two elements, the packets from the one delivered to the other are the first ones
injected there for it, in the order of their injection and with its stamps, and all of them when the
grid is empty. -/
theorem mesh3d_in_order {r : Run g.mesh} (h : Reachable r) :
    ∃ sources : List g.Elem, sources.length = r.state.delivered.length ∧
      (∀ d ∈ r.state.delivered, ∃ b : g.Elem, d.comp = .elem b.1 b.2) ∧
      ∀ a b : g.Elem, deliveredFrom r sources a b <+: injectedFrom r a b ∧
        ((∀ p, held r.state p = none) → deliveredFrom r sources a b = injectedFrom r a b) := by
  obtain ⟨sources, hlength, horder⟩ := reachable_in_order g.destinations counts admits h
  exact ⟨sources, hlength, fun _ hd => delivered_elem h hd, fun a b =>
    horder a b.target (fun d => d.comp = .elem b.1 b.2) fun _ hd => delivered_iff h hd b⟩

def southElem : column.Elem := ⟨columnSouth, ⟨0, Nat.one_pos⟩⟩

def northElem : column.Elem := ⟨columnNorth, ⟨0, Nat.one_pos⟩⟩

/-- Two packets from the southern to the northern element of the column, one behind the other. -/
def letters : List (Drive column.Node) :=
  [.inject columnSouth 0 { letter with flags := 1 }, .clock columnSouth fun _ => .OK,
    .inject columnSouth 0 { letter with flags := 2 }, .clock columnSouth fun _ => .OK,
    .clock columnNorth fun _ => .OK, .clock columnSouth fun _ => .OK,
    .clock columnNorth fun _ => .OK, .clock columnNorth fun _ => .OK]

theorem letters_proper : ∀ d ∈ letters, Proper column.mesh column.Addressed d := by
  have haddr : column.Addressed letter := ⟨columnNorth, ⟨0, by decide⟩, rfl, rfl⟩
  have hinject : ∀ flags, Proper column.mesh column.Addressed
      (.inject columnSouth 0 { letter with flags }) := fun _ => ⟨⟨by decide, rfl⟩, haddr⟩
  have hclock : ∀ c, Proper column.mesh column.Addressed (.clock c fun _ => .OK) :=
    fun c => proper_clock c (.inl rfl)
  simp only [letters, List.forall_mem_cons]
  exact ⟨hinject 1, hclock _, hinject 2, hclock _, hclock _, hclock _, hclock _, hclock _,
    fun d hd => nomatch hd⟩

/-- `mesh3d_in_order` on the run that delivers both, after which the column is empty. -/
theorem mesh3d_in_order_letters : ∃ (r : Run column.mesh) (sources : List column.Elem),
    sources.length = r.state.delivered.length ∧
    (∀ a b, deliveredFrom r sources a b = injectedFrom r a b) ∧
    (deliveredFrom r sources southElem northElem).map Packet.flags = [1, 2] := by
  have hrun : (Run.ofDrives column.mesh letters).map (fun r =>
      (decide (∀ p, held r.state p = none),
        (injectedFrom r southElem northElem).map Packet.flags)) =
      some (true, [1, 2]) := by decide +kernel
  obtain ⟨r, hr, hfinal⟩ := Option.map_eq_some_iff.1 hrun
  obtain ⟨hempty, hflags⟩ := Prod.mk.inj hfinal
  obtain ⟨sources, hlen, -, horder⟩ := mesh3d_in_order (ofDrives_reachable letters_proper hr)
  have hall := fun a b => (horder a b).2 (of_decide_eq_true hempty)
  exact ⟨r, sources, hlen, hall, (congrArg (List.map Packet.flags) (hall _ _)).trans hflags⟩

end Gran.Grid3d
