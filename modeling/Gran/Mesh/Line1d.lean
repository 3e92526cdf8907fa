import Gran.Mesh.Node1d

/-!
# A line of one-dimensional mesh nodes

`node1d` nodes with increasing cluster numbers, connected north and south, with any number of
element ports on each node and any of them connected. The selectors of a node compare the cluster of
an address with its own, so a packet for an element further north goes north (`wants_north_iff`),
where the neighbour is one node closer to it (`link_north`).
-/

namespace Gran

open Mesh

/-- The nodes of a line, their element counts and the element ports in use. -/
structure Line1d where
  length : Nat
  cluster : Fin length → BitVec 16
  elems : Fin length → BitVec 16
  connected : Fin length → Nat → Bool
  cluster_lt : ∀ c c', c < c' → cluster c < cluster c'

namespace Line1d

variable (l : Line1d)

/-- The nodes of a line. -/
abbrev Node := Fin l.length

/-- The element ports of the nodes. -/
abbrev Elem := Σ c, Fin (l.elems c).toNat

theorem south_lt (c : l.Node) : c.val - 1 < l.length := by
  omega

/-- The neighbour at a side of a node. -/
def link (c : l.Node) : Dir1 → Option l.Node
  | .north => if h : c + 1 < l.length then some ⟨c + 1, h⟩ else none
  | .south => if 0 < c.val then some ⟨c - 1, l.south_lt c⟩ else none

/-- The nodes as `create_mesh_node1d` and the `connect` calls make them. -/
def mesh : Mesh l.Node Dir1 where
  toNodeKind := Node1d.kind l.cluster
  elems c := (l.elems c).toNat
  ports c
    | .elem i => if l.connected c i then some (.elem c i) else none
    | .dir d => (l.link c d).map .node

/-- The side of a neighbour that faces a direction. -/
def opp : Dir1 → Dir1
  | .north => .south
  | .south => .north

/-- The element an address names. -/
def region (addr : Word) : Option l.Elem := do
  let a := addrMesh1d addr
  let c ← (List.finRange l.length).find? fun c => l.cluster c == a.cluster
  if h : a.elem.toNat < (l.elems c).toNat then some ⟨c, a.elem.toNat, h⟩ else none

/-- The address of an element. -/
def address (c : l.Node) (i : Nat) : Word := mesh1dAddr (l.cluster c) (BitVec.ofNat 16 i) 0

variable {l}

/-! ## Addresses -/

theorem cluster_inj {c c' : l.Node} (h : l.cluster c = l.cluster c') : c = c' := by
  rcases lt_trichotomy c c' with hlt | rfl | hlt
  · exact absurd (h ▸ l.cluster_lt c c' hlt) (BitVec.lt_irrefl _)
  · rfl
  · exact absurd (h ▸ l.cluster_lt c' c hlt) (BitVec.lt_irrefl _)

/-- The clusters are ordered like the nodes. -/
theorem cluster_lt_iff {c c' : l.Node} : l.cluster c < l.cluster c' ↔ c < c' := by
  refine ⟨fun h => ?_, l.cluster_lt c c'⟩
  rcases lt_trichotomy c c' with hlt | rfl | hlt
  · exact hlt
  · exact absurd h (BitVec.lt_irrefl _)
  · exact absurd (BitVec.lt_trans h (l.cluster_lt c' c hlt)) (BitVec.lt_irrefl _)

/-- An address names the element with its cluster and its index. -/
theorem region_eq_some {addr : Word} {e : l.Elem} :
    l.region addr = some e ↔
      l.cluster e.1 = (addrMesh1d addr).cluster ∧ (addrMesh1d addr).elem.toNat = e.2 := by
  simp only [region, Option.bind_eq_bind, Option.bind_eq_some_iff,
    Option.dite_none_right_eq_some, Option.some.injEq]
  constructor
  · rintro ⟨c, hc, h, rfl⟩
    exact ⟨by simpa using List.find?_some hc, rfl⟩
  · rintro ⟨hc, hi⟩
    obtain ⟨c, i⟩ := e
    obtain ⟨c', hc'⟩ : ∃ c', (List.finRange l.length).find?
        (fun c' => l.cluster c' == (addrMesh1d addr).cluster) = some c' := by
      refine Option.isSome_iff_exists.1 (List.find?_isSome.2 ⟨c, by simp, ?_⟩)
      simpa using hc
    have hcluster : l.cluster c' = (addrMesh1d addr).cluster := by
      simpa using List.find?_some hc'
    obtain rfl : c' = c := cluster_inj (hcluster.trans hc.symm)
    exact ⟨c', hc', hi ▸ i.isLt, by simp [hi]⟩

theorem toNat_elem (e : l.Elem) : (BitVec.ofNat 16 e.2.val).toNat = e.2 := by
  have := e.2.isLt
  have := (l.elems e.1).isLt
  simp
  omega

/-- The address of an element names it. -/
theorem region_address (e : l.Elem) : l.region (l.address e.1 e.2) = some e := by
  rw [region_eq_some, address, addrMesh1d_mesh1dAddr]
  exact ⟨rfl, toNat_elem e⟩

/-! ## Selectors -/

/-- The selector of an element output accepts the packets for that element. -/
theorem wants_elem {c : l.Node} {i : Fin (l.elems c).toNat} {pkt : Packet} :
    l.mesh.wants c (.elem i) pkt = true ↔ l.region pkt.dst = some ⟨c, i⟩ := by
  rw [region_eq_some]
  simp only [wants, mesh, Node1d.kind, Node1d.elemSel, Bool.and_eq_true, beq_iff_eq]
  rw [← BitVec.toNat_inj (y := BitVec.ofNat 16 i.val), toNat_elem ⟨c, i⟩, eq_comm]

theorem wants_north {c : l.Node} {pkt : Packet} :
    l.mesh.wants c (.dir .north) pkt = true ↔ l.cluster c < (addrMesh1d pkt.dst).cluster := by
  simp [wants, mesh, Node1d.kind, Node1d.dirSel, Node1d.northSel]

theorem wants_south {c : l.Node} {pkt : Packet} :
    l.mesh.wants c (.dir .south) pkt = true ↔ (addrMesh1d pkt.dst).cluster < l.cluster c := by
  simp [wants, mesh, Node1d.kind, Node1d.dirSel, Node1d.southSel]

/-- At most one output of a node is for a packet. -/
theorem wants_unique {c : l.Node} {p q : Port Dir1 (l.mesh.elems c)} {pkt : Packet}
    (hp : l.mesh.wants c p pkt = true) (hq : l.mesh.wants c q pkt = true) : p = q := by
  have helem : ∀ i : Fin (l.elems c).toNat, l.mesh.wants c (.elem i) pkt = true →
      l.cluster c = (addrMesh1d pkt.dst).cluster := fun i h => (region_eq_some.1 (wants_elem.1 h)).1
  rcases p with i | d <;> rcases q with j | d'
  · have hij := (wants_elem.1 hp).symm.trans (wants_elem.1 hq)
    obtain rfl : i = j := eq_of_heq (Sigma.mk.inj (Option.some.inj hij)).2
    rfl
  · have hc := helem i hp
    cases d'
    · exact absurd (hc ▸ wants_north.1 hq) (BitVec.lt_irrefl _)
    · exact absurd (hc ▸ wants_south.1 hq) (BitVec.lt_irrefl _)
  · have hc := helem j hq
    cases d
    · exact absurd (hc ▸ wants_north.1 hp) (BitVec.lt_irrefl _)
    · exact absurd (hc ▸ wants_south.1 hp) (BitVec.lt_irrefl _)
  · cases d <;> cases d'
    · rfl
    · exact absurd (BitVec.lt_trans (wants_north.1 hp) (wants_south.1 hq)) (BitVec.lt_irrefl _)
    · exact absurd (BitVec.lt_trans (wants_north.1 hq) (wants_south.1 hp)) (BitVec.lt_irrefl _)
    · rfl

section Region

variable {pkt : Packet} {b : l.Elem} (hdst : l.region pkt.dst = some b)
include hdst

/-- Packets for elements further north go north. -/
theorem wants_north_iff {c : l.Node} : l.mesh.wants c (.dir .north) pkt = true ↔ c < b.1 := by
  rw [wants_north, ← (region_eq_some.1 hdst).1, cluster_lt_iff]

/-- Packets for elements further south go south. -/
theorem wants_south_iff {c : l.Node} : l.mesh.wants c (.dir .south) pkt = true ↔ b.1 < c := by
  rw [wants_south, ← (region_eq_some.1 hdst).1, cluster_lt_iff]

end Region

/-! ## The neighbours -/

theorem link_north {c c' : l.Node} : l.link c .north = some c' ↔ c'.val = c + 1 := by
  simp only [link, Option.dite_none_right_eq_some, Option.some.injEq, Fin.ext_iff]
  have := c'.isLt
  constructor
  · rintro ⟨-, h⟩
    exact h.symm
  · intro h
    exact ⟨by omega, h.symm⟩

theorem link_south {c c' : l.Node} : l.link c .south = some c' ↔ c'.val + 1 = c := by
  simp only [link, Option.ite_none_right_eq_some, Option.some.injEq, Fin.ext_iff]
  constructor
  · rintro ⟨hpos, h⟩
    omega
  · intro h
    exact ⟨by omega, by omega⟩

/-- The neighbours of the nodes of a line. -/
def wiring (l : Line1d) : Wiring l.mesh where
  link := l.link
  opp := opp
  port_dir _ _ := rfl
  port_elem c i comp h := by
    simp only [mesh, Option.ite_none_right_eq_some, Option.some.injEq] at h
    exact h.2.symm
  link_opp {c d c'} h := by
    cases d with
    | north => exact link_south.2 (link_north.1 h).symm
    | south => exact link_north.2 (link_south.1 h).symm
  link_inj {c d d' c'} h h' := by
    cases d <;> cases d' <;> simp only [link_north, link_south] at h h' <;> first | rfl | omega
  mem_dirs d := by cases d <;> simp [mesh, Node1d.kind]

end Line1d

end Gran
