import Gran.Mesh.Grid3d
import Gran.Mesh.Run

/-!
# Delivery and draining of a three-dimensional mesh

The results about grids of `node3d` nodes. `mesh3d_exactly_once` is exactly-once addressed
delivery on every run: whatever the order of clocks, injections and refusals, a packet is in one
register or was handed to the element its address names. `mesh3d_drains` is the absence of routing
deadlock: with elements that accept, every round of clocks pays some of the moves still owed.
-/

namespace Gran.Grid3d

open PacketNet Mesh Relation

variable {g : Grid3d}

/-- Grids satisfy what the results on runs ask of a mesh. -/
theorem admits : Admits g.wiring (Placed (g := g)) g.Addressed where
  stamps := Node3d.kind_stamps g.helper
  spec := spec
  entry h := ⟨h, trivial⟩
  stamp h _ := h

/-- The reachable runs of a grid whose packets name existing nodes and connected elements. -/
abbrev Reachable (r : Run g.mesh) : Prop := r.Reachable g.Addressed

/-- A packet delivered was handed to the connected element its address names. -/
theorem delivered_addressed {r : Run g.mesh} (h : Reachable r) {d : Delivery g.mesh}
    (hd : d ∈ r.state.delivered) :
    ∃ (c : g.Node) (i : Nat), d.comp = .elem c i ∧ g.connected c i = true ∧
      target d.pkt = ⟨c.x, c.y, c.z, i⟩ := by
  have hrouted := (reachable_routed admits h).delivered (outAt d.node d.port, d.pkt)
    (Multiset.mem_map_of_mem _ (Multiset.mem_coe.2 hd))
  obtain ⟨hok, hnext⟩ := hrouted
  have hport := reachable_handed h d hd
  obtain ⟨node, port, comp, pkt⟩ := d
  obtain ⟨c, i, hat⟩ := elem_of_next_none spec hok hnext
  simp only [outAt, Sum.inr.injEq] at hat
  cases hat
  have hout : target pkt = ⟨node.x, node.y, node.z, i⟩ := hok.2
  simp only [mesh, Option.ite_none_right_eq_some, Option.some.injEq] at hport
  exact ⟨node, i, hport.2.symm, hport.1, hout⟩

/-- Exactly-once addressed delivery. On every run of a grid, with any order of node clocks,
injections and refusals: the packets injected with `OK` (each with the stamp of its injection
node) are the packets in the registers and the packets delivered, each packet delivered was handed
to the element its address names, and no clock or injection fails an assertion, so nothing is sent
through an unconnected port. -/
theorem mesh3d_exactly_once {r : Run g.mesh} (h : Reachable r) :
    r.stamped = registers r.state + ((r.state.delivered.map Delivery.pkt : List Packet) :
      Multiset Packet) ∧
    (∀ d ∈ r.state.delivered, ∃ (c : g.Node) (i : Nat), d.comp = .elem c i ∧
      g.connected c i = true ∧ target d.pkt = ⟨c.x, c.y, c.z, i⟩) ∧
    (∀ (c : g.Node) (answer : Comp g.Node → Stat),
      (∀ comp, answer comp = .OK ∨ answer comp = .EBUSY) →
      ∃ s', clock answer c r.state = some s') ∧
    ∀ (c : g.Node) (i : Fin (g.mesh.elems c)) (pkt : Packet), g.connected c i = true →
      ∃ ret s', receive r.state c (.elem c i) pkt = some (ret, s') := by
  refine ⟨reachable_conserved admits h, fun d hd => delivered_addressed h hd, ?_, ?_⟩
  · intro c answer hanswer
    obtain ⟨s', hs', -⟩ := clock_some (Node3d.kind_stamps g.helper) spec hanswer
      (reachable_routed admits h) c
    exact ⟨s', hs'⟩
  · intro c i pkt hconn
    have hport : g.mesh.ports c (.elem i) = some (.elem c i) := by simp [mesh, hconn]
    rw [receive_elem (Node3d.kind_stamps g.helper) g.wiring hport]
    split <;> exact ⟨_, _, rfl⟩

theorem one_le_side : 1 ≤ 256 := by
  decide

theorem two_le_side : 2 ≤ 256 := by
  decide

/-- Two nodes in a column, each with one element. -/
def column : Grid3d where
  X := 1
  Y := 2
  Z := 1
  hX := one_le_side
  hY := two_le_side
  hZ := one_le_side
  elems _ := 1
  connected _ _ := true

/-- The two nodes of the column, the southern one at 0. -/
def columnNode (y : Fin 2) : column.Node := ⟨⟨0, by decide⟩, y, ⟨0, by decide⟩⟩

def columnSouth : column.Node := columnNode ⟨0, Nat.two_pos⟩

def columnNorth : column.Node := columnNode ⟨1, Nat.one_lt_two⟩

/-- A packet for the element of the northern node. -/
def letter : Packet := { Packet.zero with dst := mesh3dAddr 0 1 0 0 0 }

/-- The southern node of the column accepts the packet. -/
theorem letter_reachable : ∃ r : Run column.mesh, Reachable r ∧ r.stamped = {letter} := by
  have haddr : column.Addressed letter := ⟨columnNode 1, ⟨0, by decide⟩, rfl, rfl⟩
  refine ⟨_, .single (.inject (columnNode 0) ⟨0, by decide⟩ rfl letter haddr .OK _ rfl),
    ?_⟩
  simp [Run.stamped, Run.init, Injection.stamped, MeshState.init, letter, Packet.zero]

/-- The packet is injected twice. The second one is on its way when the first one was refused once
and then delivered. -/
def letterDrives : List (Drive column.Node) :=
  [.inject columnSouth 0 letter, .clock columnSouth fun _ => .OK,
    .inject columnSouth 0 letter, .clock columnSouth fun _ => .OK,
    .clock columnNorth fun _ => .EBUSY, .clock columnNorth fun _ => .EBUSY,
    .clock columnNorth fun _ => .OK]

theorem letterDrives_proper : ∀ d ∈ letterDrives, Proper column.mesh column.Addressed d := by
  have hinject : Proper column.mesh column.Addressed (.inject columnSouth 0 letter) :=
    ⟨⟨by decide, rfl⟩, columnNorth, ⟨0, by decide⟩, rfl, rfl⟩
  simp only [letterDrives, List.forall_mem_cons]
  exact ⟨hinject, proper_clock _ (.inl rfl), hinject, proper_clock _ (.inl rfl),
    proper_clock _ (.inr rfl), proper_clock _ (.inr rfl), proper_clock _ (.inl rfl),
    fun d hd => nomatch hd⟩

/-- `mesh3d_exactly_once` on the run that delivers the first packet: the second one is in a
register, and the one delivered was handed to the element that both name. -/
theorem mesh3d_exactly_once_letter : ∃ r : Run column.mesh,
    r.state.delivered.map Delivery.comp = [.elem columnNorth 0] ∧
    r.stamped = registers r.state + ((r.state.delivered.map Delivery.pkt : List Packet) :
      Multiset Packet) ∧
    Multiset.card r.stamped = 2 ∧ Multiset.card (registers r.state) = 1 ∧
    (∀ d ∈ r.state.delivered, ∃ (c : column.Node) (i : Nat), d.comp = .elem c i ∧
      target d.pkt = ⟨c.x, c.y, c.z, i⟩) ∧
    ∃ s', clock (fun _ => .EBUSY) columnNorth r.state = some s' := by
  have hrun : (Run.ofDrives column.mesh letterDrives).map (fun r =>
      (r.state.delivered.map Delivery.comp, r.injected.length)) =
      some ([.elem columnNorth 0], 2) := by decide +kernel
  obtain ⟨r, hr, hfinal⟩ := Option.map_eq_some_iff.1 hrun
  obtain ⟨hdelivered, hinjected⟩ := Prod.mk.inj hfinal
  obtain ⟨hconserved, haddressed, hclock, -⟩ :=
    mesh3d_exactly_once (ofDrives_reachable letterDrives_proper hr)
  have hcard : Multiset.card r.stamped = 2 := by
    rw [Run.stamped, Multiset.card_map, Multiset.coe_card, hinjected]
  have hone : r.state.delivered.length = 1 := by
    simpa using congrArg List.length hdelivered
  refine ⟨r, hdelivered, hconserved, hcard, ?_, fun d hd => ?_,
    hclock columnNorth _ fun _ => .inr rfl⟩
  · have hsum := congrArg Multiset.card hconserved
    rw [hcard, Multiset.card_add, Multiset.coe_card, List.length_map, hone] at hsum
    omega
  · obtain ⟨c, i, hcomp, -, htarget⟩ := haddressed d hd
    exact ⟨c, i, hcomp, htarget⟩

/-! ## Draining -/

/-- The moves owed by the packets a grid holds. -/
def load (s : MeshState g.mesh) : Nat := ∑ p : Place g.mesh, owed1 owed p (held s p)

/-- A round of clocks, with elements that accept everything. -/
abbrev drainRound (order : List g.Node) (s : MeshState g.mesh) : Option (MeshState g.mesh) :=
  round (fun _ => .OK) order s

/-- Rounds, each in its own order. -/
def drain (orders : List (List g.Node)) (s : MeshState g.mesh) : Option (MeshState g.mesh) :=
  orders.foldlM (fun s order => drainRound order s) s

theorem accepts (comp : Comp g.Node) :
    (fun _ => Stat.OK : Comp g.Node → Stat) comp = .OK ∨
      (fun _ => Stat.OK : Comp g.Node → Stat) comp = .EBUSY := Or.inl rfl

/-- A round of a well-placed grid succeeds, moves packets and pays for at least one move if there
is any. -/
theorem drainRound_spec {s : MeshState g.mesh} {injected : Multiset Packet}
    (hn : Routed (next g.wiring) Placed (network s injected)) {order : List g.Node}
    (hall : ∀ c, c ∈ order) :
    ∃ s', drainRound order s = some s' ∧
      Moves (next g.wiring) (network s injected) (network s' injected) ∧
      ((∃ p, held s p ≠ none) → load s' < load s) := by
  obtain ⟨s', hs', -⟩ := round_some spec (Node3d.kind_stamps g.helper) accepts hn order
  refine ⟨s', hs', round_goes spec (Node3d.kind_stamps g.helper) accepts hs' hn, fun hbusy => ?_⟩
  exact round_load_lt spec counts (Node3d.kind_stamps g.helper) (fun _ _ => Node3d.mem_inputs)
    ranking hn hall hs' hbusy

/-- As many rounds as there are moves owed empty the grid. -/
theorem drain_spec {injected : Multiset Packet} (orders : List (List g.Node))
    (hall : ∀ order ∈ orders, ∀ c, c ∈ order) (s : MeshState g.mesh)
    (hn : Routed (next g.wiring) Placed (network s injected)) (hlen : load s ≤ orders.length) :
    ∃ s', drain orders s = some s' ∧
      Moves (next g.wiring) (network s injected) (network s' injected) ∧
      ∀ p, held s' p = none := by
  induction orders generalizing s with
  | nil =>
      have hzero : (network s injected).load Finset.univ owed = 0 := Nat.le_zero.1 hlen
      exact ⟨s, rfl, .refl, held_eq_none_of_load everywhere counts hn hzero⟩
  | cons order orders ih =>
      obtain ⟨t, ht, hmoves, hlt⟩ := drainRound_spec hn (hall order (by simp))
      have hnt := Moves.routed (ok_next spec) hmoves hn
      have hload : load t ≤ orders.length := by
        by_cases hbusy : ∃ p, held s p ≠ none
        · have := hlt hbusy
          simp only [List.length_cons] at hlen
          omega
        · have hle : load t ≤ load s := Moves.load_le (ok_next spec) everywhere counts hn hmoves
          have hzero : load s = 0 := by
            push Not at hbusy
            exact Finset.sum_eq_zero fun p _ => by rw [hbusy p]; rfl
          omega
      obtain ⟨s', hs', hmoves', hempty⟩ :=
        ih (fun o ho => hall o (by simp [ho])) t hnt hload
      exact ⟨s', by simp [drain, ht]; exact hs', hmoves.trans hmoves', hempty⟩

/-- A grid drains. From every reachable state, when every element accepts and nothing is injected:
a round that clocks every node, in any order, strictly decreases the moves owed as long as any
register is busy, and after as many rounds as moves are owed every register is free and every
packet that was held has been delivered. -/
theorem mesh3d_drains {r : Run g.mesh} (h : Reachable r) :
    (∀ order : List g.Node, (∀ c, c ∈ order) → ∃ s', drainRound order r.state = some s' ∧
      ((∃ p, held r.state p ≠ none) → load s' < load r.state)) ∧
    ∀ orders : List (List g.Node), (∀ order ∈ orders, ∀ c, c ∈ order) →
      load r.state ≤ orders.length →
      ∃ s', drain orders r.state = some s' ∧ (∀ p, held s' p = none) ∧
        ((s'.delivered.map Delivery.pkt : List Packet) : Multiset Packet) =
          registers r.state + ((r.state.delivered.map Delivery.pkt : List Packet) :
            Multiset Packet) := by
  have hn := reachable_routed admits h
  refine ⟨fun order hall => ?_, fun orders hall hlen => ?_⟩
  · obtain ⟨s', hs', -, hlt⟩ := drainRound_spec hn hall
    exact ⟨s', hs', hlt⟩
  · obtain ⟨s', hs', hmoves, hempty⟩ := drain_spec orders hall r.state hn hlen
    refine ⟨s', hs', hempty, ?_⟩
    have hbefore : Conserved Finset.univ (network r.state r.stamped) := by
      have hc := reachable_conserved admits h
      unfold Conserved
      simp only [network, departures, Multiset.map_map]
      exact hc
    have hsteps : Steps (next g.wiring) (fun _ _ => False) (network r.state r.stamped)
        (network s' r.stamped) := hmoves.steps
    have hafter := hsteps.conserved (ok_next spec) (fun _ _ h => h.elim) everywhere hn hbefore
    have hnone : registers s' = 0 := Finset.sum_eq_zero fun p _ => by rw [hempty p]; rfl
    have hs : r.stamped = registers s' + ((s'.delivered.map Delivery.pkt : List Packet) :
        Multiset Packet) := by
      unfold Conserved at hafter
      simp only [network, departures, Multiset.map_map] at hafter
      exact hafter
    rw [hnone, zero_add] at hs
    rw [← hs]
    exact reachable_conserved admits h

/-- `mesh3d_drains` on the run that injects `letter`, with both nodes clocked northern one
first. -/
theorem mesh3d_drains_letter : ∃ r : Run column.mesh, r.stamped = {letter} ∧
    ∃ s', drain (List.replicate (load r.state) [columnNode 1, columnNode 0]) r.state = some s' ∧
      ∀ p, held s' p = none := by
  obtain ⟨r, hr, hl⟩ := letter_reachable
  have hall : ∀ order ∈ List.replicate (load r.state) [columnNode 1, columnNode 0],
      ∀ c, c ∈ order := by
    intro order horder c
    rw [List.eq_of_mem_replicate horder]
    exact (by decide : ∀ c : column.Node, c ∈ [columnNode 1, columnNode 0]) c
  obtain ⟨s', hs', hempty, -⟩ := (mesh3d_drains hr).2 _ hall (by simp)
  exact ⟨r, hl, s', hs', hempty⟩

end Gran.Grid3d
