import Gran.Mesh.Node3d
import Gran.Mesh.Progress

/-!
# A grid of three-dimensional mesh nodes

The grid `tests/simple_mesh3d/sim.c` builds, at any size the 8-bit coordinates of a node can
express, with any number of element ports on each node and any of them connected. `grid_wiring`
reads the neighbours off the `connect` calls, `Placed` says which packets a register may hold, and
`grid_spec`, `grid_counts` and `grid_ranking` are what the results on meshes need.
-/

namespace Gran

open PacketNet Mesh

/-- A node of an `X` by `Y` by `Z` grid. -/
structure Coord (X Y Z : Nat) where
  x : Fin X
  y : Fin Y
  z : Fin Z
deriving DecidableEq, Fintype

/-- The size of a grid, the element counts of its nodes and the element ports in use. -/
structure Grid3d where
  X : Nat
  Y : Nat
  Z : Nat
  hX : X ≤ 256
  hY : Y ≤ 256
  hZ : Z ≤ 256
  elems : Coord X Y Z → BitVec 8
  connected : Coord X Y Z → Nat → Bool

namespace Grid3d

variable (g : Grid3d)

/-- The nodes of the grid. -/
abbrev Node := Coord g.X g.Y g.Z

/-- The component `mesh_at` returns for a neighbour, `none` beyond the boundary. -/
def link (c : g.Node) : Dir3 → Option g.Node
  | .north => if h : c.y + 1 < g.Y then some { c with y := ⟨c.y + 1, h⟩ } else none
  | .south => if h : 0 < c.y.val then some { c with y := ⟨c.y - 1, by omega⟩ } else none
  | .east => if h : c.x + 1 < g.X then some { c with x := ⟨c.x + 1, h⟩ } else none
  | .west => if h : 0 < c.x.val then some { c with x := ⟨c.x - 1, by omega⟩ } else none
  | .up => if h : c.z + 1 < g.Z then some { c with z := ⟨c.z + 1, h⟩ } else none
  | .down => if h : 0 < c.z.val then some { c with z := ⟨c.z - 1, by omega⟩ } else none

/-- The coordinates `create_mesh_node3d` stores in a node. -/
def helper (c : g.Node) : Node3d.SelHelper :=
  ⟨BitVec.ofNat 8 c.x, BitVec.ofNat 8 c.y, BitVec.ofNat 8 c.z, 0⟩

/-- The grid as `connect_mesh3d` wires it. -/
def mesh : Mesh g.Node Dir3 where
  toNodeKind := Node3d.kind g.helper
  elems c := (g.elems c).toNat
  ports c
    | .elem i => if g.connected c i then some (.elem c i) else none
    | .dir d => (g.link c d).map .node

/-- The side of a neighbour that faces a direction. -/
def opp : Dir3 → Dir3
  | .north => .south
  | .south => .north
  | .east => .west
  | .west => .east
  | .up => .down
  | .down => .up

/-- A neighbour differs by one in the coordinate of its direction. -/
theorem link_coords {c : g.Node} {d : Dir3} {c' : g.Node} (h : g.link c d = some c') :
    match d with
    | .north => c'.x.val = c.x ∧ c'.y.val = c.y + 1 ∧ c'.z.val = c.z
    | .south => c'.x.val = c.x ∧ c'.y.val + 1 = c.y ∧ c'.z.val = c.z
    | .east => c'.x.val = c.x + 1 ∧ c'.y.val = c.y ∧ c'.z.val = c.z
    | .west => c'.x.val + 1 = c.x ∧ c'.y.val = c.y ∧ c'.z.val = c.z
    | .up => c'.x.val = c.x ∧ c'.y.val = c.y ∧ c'.z.val = c.z + 1
    | .down => c'.x.val = c.x ∧ c'.y.val = c.y ∧ c'.z.val + 1 = c.z := by
  cases d <;> simp only [link, Option.dite_none_right_eq_some, Option.some.injEq] at h <;>
    obtain ⟨hb, rfl⟩ := h <;> simp <;> omega

theorem link_opp {c : g.Node} {d : Dir3} {c' : g.Node} (h : g.link c d = some c') :
    g.link c' (opp d) = some c := by
  cases d <;> simp only [link, opp, Option.dite_none_right_eq_some, Option.some.injEq] at h ⊢ <;>
    obtain ⟨hb, rfl⟩ := h <;> cases c <;>
    simp only [Coord.mk.injEq, Fin.ext_iff, true_and, and_true] at hb ⊢ <;>
    exact ⟨by omega, by omega⟩

theorem link_inj {c : g.Node} {d d' : Dir3} {c' : g.Node} (h : g.link c d = some c')
    (h' : g.link c d' = some c') : d = d' := by
  have hd := g.link_coords h
  have hd' := g.link_coords h'
  cases d <;> cases d' <;> simp only at hd hd' <;> first | rfl | omega

/-- The neighbours of the nodes of a grid. -/
def wiring : Wiring g.mesh where
  link := g.link
  opp := opp
  port_dir _ _ := rfl
  port_elem c i comp h := by
    simp only [mesh, Option.ite_none_right_eq_some, Option.some.injEq] at h
    exact h.2.symm
  link_opp := g.link_opp
  link_inj := g.link_inj
  mem_dirs := Node3d.mem_dirs

/-! ## Where packets may be -/

/-- The node and the element an address names. -/
structure Target where
  x : Nat
  y : Nat
  z : Nat
  elem : Nat

/-- The fields of the destination address of a packet. -/
def target (pkt : Packet) : Target :=
  let a := addrMesh3d pkt.dst
  ⟨a.x.toNat, a.y.toNat, a.z.toNat, a.elem.toNat⟩

/-- The packet names an existing node and a connected element of it. -/
def Addressed (pkt : Packet) : Prop :=
  ∃ (c : g.Node) (i : Fin (g.elems c).toNat), g.connected c i = true ∧
    target pkt = ⟨c.x, c.y, c.z, i⟩

variable {g}

/-- Where a packet in an input of `c` may be going: a packet from a neighbour does not turn back,
and the coordinates of the earlier dimensions are settled. -/
def inpPlaced {n : Nat} (c : g.Node) (t : Target) : Port Dir3 n → Prop
  | .elem _ => True
  | .dir .north => t.y ≤ c.y
  | .dir .south => c.y ≤ t.y
  | .dir .east => t.y = c.y ∧ t.x ≤ c.x
  | .dir .west => t.y = c.y ∧ c.x ≤ t.x
  | .dir .up => t.y = c.y ∧ t.x = c.x ∧ t.z ≤ c.z
  | .dir .down => t.y = c.y ∧ t.x = c.x ∧ c.z ≤ t.z

/-- Where a packet in an output of `c` is going. -/
def outPlaced {n : Nat} (c : g.Node) (t : Target) : Port Dir3 n → Prop
  | .elem i => t = ⟨c.x, c.y, c.z, i⟩
  | .dir .north => c.y < t.y
  | .dir .south => t.y < c.y
  | .dir .east => t.y = c.y ∧ c.x < t.x
  | .dir .west => t.y = c.y ∧ t.x < c.x
  | .dir .up => t.y = c.y ∧ t.x = c.x ∧ c.z < t.z
  | .dir .down => t.y = c.y ∧ t.x = c.x ∧ t.z < c.z

/-- The packets each register of the grid may hold. -/
def Placed : Place g.mesh → Packet → Prop
  | .inl ⟨c, p⟩, pkt => g.Addressed pkt ∧ inpPlaced c (target pkt) p
  | .inr ⟨c, p⟩, pkt => g.Addressed pkt ∧ outPlaced c (target pkt) p

/-- The selectors compute `outPlaced`. -/
theorem wants_iff {c : g.Node} {p : Port Dir3 (g.mesh.elems c)} {pkt : Packet} :
    g.mesh.wants c p pkt = true ↔ outPlaced c (target pkt) p := by
  have hx : (BitVec.ofNat 8 c.x.val).toNat = c.x := by
    have := c.x.isLt; have := g.hX; simp; omega
  have hy : (BitVec.ofNat 8 c.y.val).toNat = c.y := by
    have := c.y.isLt; have := g.hY; simp; omega
  have hz : (BitVec.ofNat 8 c.z.val).toNat = c.z := by
    have := c.z.isLt; have := g.hZ; simp; omega
  cases p with
  | elem i =>
      have hi : (BitVec.ofNat 8 i.val).toNat = i := by
        have := i.isLt; have := (g.elems c).isLt; simp [mesh] at *; omega
      simp only [Mesh.wants, mesh, Node3d.kind, Node3d.elemSel, helper, outPlaced, target,
        Bool.and_eq_true, beq_iff_eq, Target.mk.injEq, ← BitVec.toNat_inj, hx, hy, hz, hi,
        and_assoc]
  | dir d =>
      cases d <;>
        simp only [Mesh.wants, mesh, Node3d.kind, Node3d.dirSel, Node3d.northSel, Node3d.southSel,
          Node3d.eastSel, Node3d.westSel, Node3d.upSel, Node3d.downSel, helper, outPlaced, target,
          Bool.and_eq_true, beq_iff_eq, decide_eq_true_eq, gt_iff_lt, BitVec.lt_def,
          ← BitVec.toNat_inj, hx, hy, hz, and_assoc]

/-- At most one output of a node is meant for a packet. -/
theorem outPlaced_unique {n : Nat} {c : g.Node} {t : Target} {p q : Port Dir3 n}
    (hp : outPlaced c t p) (hq : outPlaced c t q) : p = q := by
  rcases p with i | d <;> rcases q with j | d'
  · simp only [outPlaced] at hp hq
    subst hp
    simp only [Target.mk.injEq, true_and] at hq
    rw [Fin.ext hq]
  · cases d' <;> simp only [outPlaced] at hp hq <;> subst hp <;> simp at hq
  · cases d <;> simp only [outPlaced] at hp hq <;> subst hq <;> simp at hp
  · cases d <;> cases d' <;> simp only [outPlaced] at hp hq <;> first | rfl | omega

/-- Some output of the node is meant for a packet, and it is not the side the packet came from. -/
theorem exists_outPlaced {c : g.Node} {pkt : Packet} {p : Port Dir3 (g.mesh.elems c)}
    (haddr : g.Addressed pkt) (hp : inpPlaced c (target pkt) p) :
    ∃ q : Port Dir3 (g.mesh.elems c), outPlaced c (target pkt) q ∧ (p.isElem = false → q ≠ p) := by
  obtain ⟨dst, i, -, ht⟩ := haddr
  rw [ht] at hp ⊢
  have hside : ∀ d : Dir3,
      outPlaced c ⟨dst.x, dst.y, dst.z, i⟩ (.dir d : Port Dir3 (g.mesh.elems c)) →
      p.isElem = false → (.dir d : Port Dir3 (g.mesh.elems c)) ≠ p := by
    rintro d hd - rfl
    cases d <;> simp only [inpPlaced, outPlaced] at hp hd <;> omega
  rcases lt_trichotomy c.y.val dst.y with hy | hy | hy
  · exact ⟨.dir .north, hy, hside _ hy⟩
  · rcases lt_trichotomy c.x.val dst.x with hx | hx | hx
    · exact ⟨.dir .east, ⟨hy.symm, hx⟩, hside .east ⟨hy.symm, hx⟩⟩
    · rcases lt_trichotomy c.z.val dst.z with hz | hz | hz
      · exact ⟨.dir .up, ⟨hy.symm, hx.symm, hz⟩, hside .up ⟨hy.symm, hx.symm, hz⟩⟩
      · obtain rfl : c = dst := by
          cases c; cases dst; simp_all [Fin.ext_iff]
        refine ⟨.elem i, rfl, fun helem he => ?_⟩
        rw [← he] at helem
        cases helem
      · exact ⟨.dir .down, ⟨hy.symm, hx.symm, hz⟩, hside .down ⟨hy.symm, hx.symm, hz⟩⟩
    · exact ⟨.dir .west, ⟨hy.symm, hx⟩, hside .west ⟨hy.symm, hx⟩⟩
  · exact ⟨.dir .south, hy, hside _ hy⟩

/-- A packet in a directional output has a neighbour to go to. -/
theorem exists_link {c : g.Node} {pkt : Packet} {d : Dir3} (haddr : g.Addressed pkt)
    (hout : outPlaced c (target pkt) (.dir d : Port Dir3 (g.mesh.elems c))) :
    ∃ c', g.link c d = some c' := by
  obtain ⟨dst, i, -, ht⟩ := haddr
  rw [ht] at hout
  have := dst.x.isLt
  have := dst.y.isLt
  have := dst.z.isLt
  cases d <;> simp only [outPlaced] at hout <;>
    exact ⟨_, dif_pos (by omega)⟩

/-- Grids route every addressed packet to a connected element. -/
theorem spec : RoutingSpec g.wiring (Placed (g := g)) where
  unique hp hq := outPlaced_unique (wants_iff.1 hp) (wants_iff.1 hq)
  route := by
    rintro c p pkt ⟨haddr, hp⟩
    obtain ⟨q, hq, hne⟩ := exists_outPlaced haddr hp
    exact ⟨q, wants_iff.2 hq, ⟨haddr, hq⟩, hne⟩
  depart := by
    rintro c d pkt ⟨haddr, hout⟩
    obtain ⟨c', hlink⟩ := exists_link haddr hout
    refine ⟨c', hlink, haddr, ?_⟩
    have hc := g.link_coords hlink
    cases d <;> simp only [outPlaced] at hout <;>
      simp only [wiring, opp, inpPlaced] at hc ⊢ <;> omega
  attached := by
    rintro c i pkt ⟨⟨dst, j, hconn, ht⟩, hout⟩
    simp only [outPlaced, ht, Target.mk.injEq] at hout
    obtain rfl : dst = c := by
      cases c; cases dst; simp_all [Fin.ext_iff]
    have hij : j.val = i.val := hout.2.2.2
    simp [mesh, ← hij, hconn]

/-- A packet in a directional output goes to the facing input of the neighbour. -/
theorem next_dir {c : g.Node} {d : Dir3} {pkt : Packet} {q : Place g.mesh}
    (haddr : g.Addressed pkt)
    (hout : outPlaced c (target pkt) (.dir d : Port Dir3 (g.mesh.elems c)))
    (hnext : next g.wiring (outAt c (.dir d)) pkt = some q) :
    ∃ c', g.link c d = some c' ∧ q = inpAt c' (.dir (opp d)) := by
  obtain ⟨c', hlink⟩ := exists_link haddr hout
  have hnext' : next g.wiring (outAt c (.dir d)) pkt = some (inpAt c' (.dir (opp d))) := by
    simp [next, wiring, hlink]
  exact ⟨c', hlink, Option.some.inj (hnext.symm.trans hnext')⟩

/-! ## The moves a packet owes -/

/-- The number of links between a node and a target. -/
def distance (c : g.Node) (t : Target) : Nat :=
  ((t.x - c.x.val) + (c.x.val - t.x)) + ((t.y - c.y.val) + (c.y.val - t.y)) +
    ((t.z - c.z.val) + (c.z.val - t.z))

/-- The moves a packet still owes: two for every link, from a register to a register, one into
the element output and one to the element. -/
def owed : Place g.mesh → Packet → Nat
  | .inl ⟨c, _⟩, pkt => 2 * distance c (target pkt) + 2
  | .inr ⟨c, _⟩, pkt => 2 * distance c (target pkt) + 1

theorem counts : Counts (next g.wiring) (Placed (g := g)) owed where
  hop := by
    rintro (⟨c, p⟩ | ⟨c, p⟩) q pkt hok hnext
    · obtain ⟨r, hwants, -⟩ := spec.route hok
      rw [next_inp spec hwants] at hnext
      cases hnext
      rfl
    · obtain ⟨haddr, hout⟩ := hok
      cases p with
      | elem i => simp [next] at hnext
      | dir d =>
          obtain ⟨c', hlink, rfl⟩ := next_dir haddr hout hnext
          have hc := g.link_coords hlink
          cases d <;> simp only [outPlaced] at hout hc <;> simp only [owed, distance] <;> omega
  leave := by
    intro p pkt hok hnext
    obtain ⟨c, i, rfl⟩ := elem_of_next_none spec hok hnext
    obtain ⟨-, hout⟩ := hok
    simp only [outPlaced] at hout
    simp [owed, distance, hout]

/-! ## The order of the registers -/

/-- Registers of the y dimension come before those of the x dimension, those before the z
dimension and those before the element outputs; within a dimension they follow the direction. -/
def rank : Place g.mesh → Nat
  | .inl ⟨_, .elem _⟩ => 0
  | .inl ⟨c, .dir .south⟩ => 2 * c.y + 1
  | .inr ⟨c, .dir .north⟩ => 2 * c.y + 2
  | .inl ⟨c, .dir .north⟩ => 2 * (g.Y - c.y) + 1
  | .inr ⟨c, .dir .south⟩ => 2 * (g.Y - c.y) + 2
  | .inl ⟨c, .dir .west⟩ => 2 * g.Y + 3 + 2 * c.x
  | .inr ⟨c, .dir .east⟩ => 2 * g.Y + 4 + 2 * c.x
  | .inl ⟨c, .dir .east⟩ => 2 * g.Y + 3 + 2 * (g.X - c.x)
  | .inr ⟨c, .dir .west⟩ => 2 * g.Y + 4 + 2 * (g.X - c.x)
  | .inl ⟨c, .dir .down⟩ => 2 * g.Y + 2 * g.X + 6 + 2 * c.z
  | .inr ⟨c, .dir .up⟩ => 2 * g.Y + 2 * g.X + 7 + 2 * c.z
  | .inl ⟨c, .dir .up⟩ => 2 * g.Y + 2 * g.X + 6 + 2 * (g.Z - c.z)
  | .inr ⟨c, .dir .down⟩ => 2 * g.Y + 2 * g.X + 7 + 2 * (g.Z - c.z)
  | .inr ⟨_, .elem _⟩ => 2 * g.Y + 2 * g.X + 2 * g.Z + 9

theorem rank_inp_lt_out {c : g.Node} {p q : Port Dir3 (g.mesh.elems c)} {t : Target}
    (hp : inpPlaced c t p) (hq : outPlaced c t q) :
    rank (inpAt c p : Place g.mesh) < rank (outAt c q : Place g.mesh) := by
  have := c.x.isLt
  have := c.y.isLt
  have := c.z.isLt
  rcases p with i | d <;> rcases q with j | d'
  · simp only [rank]; omega
  · cases d' <;> simp only [rank] <;> omega
  · cases d <;> simp only [rank] <;> omega
  · cases d <;> cases d' <;> simp only [inpPlaced, outPlaced] at hp hq <;> simp only [rank] <;>
      omega

/-- Every move goes to a register of higher rank. -/
def ranking : Ranking g.wiring (Placed (g := g)) where
  rank := rank
  lt := by
    rintro (⟨c, p⟩ | ⟨c, p⟩) q pkt hok hnext
    · obtain ⟨r, hwants, -⟩ := spec.route hok
      rw [next_inp spec hwants] at hnext
      cases hnext
      exact rank_inp_lt_out hok.2 (wants_iff.1 hwants)
    · obtain ⟨haddr, hout⟩ := hok
      cases p with
      | elem i => simp [next] at hnext
      | dir d =>
          obtain ⟨c', hlink, rfl⟩ := next_dir haddr hout hnext
          have hc := g.link_coords hlink
          have := c.x.isLt
          have := c.y.isLt
          have := c.z.isLt
          cases d <;> simp only at hc <;> simp only [rank, opp] <;> omega
  elem c i := rfl
  dir c d := by cases d <;> simp only [rank] <;> omega
  out c p := by rcases p with i | d <;> [skip; cases d] <;> simp only [rank] <;> omega

end Grid3d

end Gran
