import Gran.Mem.Carried
import Gran.Mesh.Chain1d
import Gran.Mesh.Line1d

/-!
# Packets on a chain

The registers of the nodes, the requesters with a refused request and the memories with a reply are
slots. `routes` says where packets go between them and counts the moves they owe, the way of the
reply included.
-/

namespace Gran.Chain1d

open Mesh Layout Node1d

variable {ch : Chain1d} {s s' : State ch}

/-! ## Addresses -/

/-- The chain as a line of which every port is connected. -/
def line (ch : Chain1d) : Line1d :=
  ⟨ch.length, ch.cluster, ch.elems, fun _ _ => true, ch.cluster_lt⟩

/-- An address names the element with its cluster and its index. -/
theorem region_eq_some {addr : Word} {e : ch.Elem} :
    ch.layout.region addr = some e ↔
      ch.cluster e.1 = (addrMesh1d addr).cluster ∧ (addrMesh1d addr).elem.toNat = e.2 :=
  Line1d.region_eq_some (l := ch.line)

/-- The selector of an element output accepts the packets for that element. -/
theorem wants_elem {c : ch.Node} {i : Fin (ch.elems c).toNat} {pkt : Packet} :
    ch.mesh.wants c (.elem i) pkt = true ↔ ch.layout.region pkt.dst = some ⟨c, i⟩ :=
  Line1d.wants_elem (l := ch.line)

/-- Packets for a greater cluster go north. -/
theorem wants_north {c : ch.Node} {pkt : Packet} :
    ch.mesh.wants c (.dir .north) pkt = true ↔ ch.cluster c < (addrMesh1d pkt.dst).cluster :=
  Line1d.wants_north (l := ch.line)

/-- Packets for a smaller cluster go south. -/
theorem wants_south {c : ch.Node} {pkt : Packet} :
    ch.mesh.wants c (.dir .south) pkt = true ↔ (addrMesh1d pkt.dst).cluster < ch.cluster c :=
  Line1d.wants_south (l := ch.line)

/-- At most one output of a node is for a packet. -/
theorem wants_unique {c : ch.Node} {p q : Port Dir1 (ch.mesh.elems c)} {pkt : Packet}
    (hp : ch.mesh.wants c p pkt = true) (hq : ch.mesh.wants c q pkt = true) : p = q := by
  have hline : ∀ p, ch.mesh.wants c p pkt = ch.line.mesh.wants c p pkt := fun p => by
    cases p <;> rfl
  rw [hline] at hp hq
  exact Line1d.wants_unique (l := ch.line) hp hq

/-! ## The neighbours -/

/-- The neighbours of a node are the next ones. -/
theorem link_lt {c c' : ch.Node} {d : Dir1} (h : ch.link c d = some c') :
    match d with
    | .north => c'.val = c + 1
    | .south => c'.val + 1 = c := by
  cases d with
  | north => exact (Line1d.link_north (l := ch.line)).1 h
  | south => exact (Line1d.link_south (l := ch.line)).1 h

/-- The neighbours of the nodes of a chain. -/
def wiring (ch : Chain1d) : Wiring ch.mesh where
  link := ch.link
  opp := opp
  port_dir _ _ := rfl
  port_elem c i comp h := (Option.some.inj h).symm
  link_opp {c d c'} h := by
    have hback := ch.line.wiring.link_opp (c := c) (d := d) h
    cases d <;> exact hback
  link_inj {c d d' c'} h h' := ch.line.wiring.link_inj (c := c) (d := d) h h'
  mem_dirs := ch.line.wiring.mem_dirs

/-! ## Where packets may be -/

/-- A reply for a requester, or a request for an element of the chain. -/
def Travels (ch : Chain1d) (pkt : Packet) : Prop :=
  (∃ a, ch.layout.requesterAt pkt.dst = some a) ∨
    ∃ e, ch.layout.IsRequest e pkt ∧ ch.layout.region pkt.dst ≠ none

/-- A packet from a neighbour does not turn back. -/
def Onward {n : Nat} (c : ch.Node) (cluster : BitVec 16) : Port Dir1 n → Prop
  | .elem _ => True
  | .dir .north => cluster ≤ ch.cluster c
  | .dir .south => ch.cluster c ≤ cluster

/-- What each slot may hold. -/
def Placed (ch : Chain1d) : Slot ch → Packet → Prop
  | .inl (.inl ⟨c, p⟩), pkt => ch.Travels pkt ∧ Onward c (addrMesh1d pkt.dst).cluster p
  | .inl (.inr ⟨c, p⟩), pkt => ch.Travels pkt ∧ ch.mesh.wants c p pkt = true
  | .inr e, pkt =>
      if (ch.layout.created e).isMem then ∃ a, ch.layout.requesterAt pkt.dst = some a
      else ch.layout.IsRequest e pkt ∧ ch.layout.region pkt.dst ≠ none

/-- A packet that travels is for the region of some element. -/
theorem Travels.region {pkt : Packet} (h : ch.Travels pkt) :
    ∃ e, ch.layout.region pkt.dst = some e := by
  rcases h with ⟨a, ha⟩ | ⟨e, -, he⟩
  · exact ⟨a, (requesterAt_eq_some.1 ha).1⟩
  · exact Option.ne_none_iff_exists'.1 he

/-- Stamps do not matter to a request. -/
theorem isRequest_restamped {e : ch.Elem} {pkt pkt' : Packet} (h : ch.layout.IsRequest e pkt)
    (hpkt : Restamped pkt pkt') : ch.layout.IsRequest e pkt' := by
  obtain ⟨t, rfl⟩ := hpkt
  refine ⟨h.requester, h.reply, fun b hb => ?_⟩
  obtain ⟨size, hsize, haccepts⟩ := h.mapped b hb
  exact ⟨size, hsize, haccepts.size_ne, haccepts.kind, haccepts.fits⟩

/-- Stamps do not matter to where a packet travels. -/
theorem Travels.restamped {pkt pkt' : Packet} (h : ch.Travels pkt) (hpkt : Restamped pkt pkt') :
    ch.Travels pkt' := by
  rcases h with ⟨a, ha⟩ | ⟨e, hreq, he⟩
  · exact Or.inl ⟨a, hpkt.dst ▸ ha⟩
  · exact Or.inr ⟨e, isRequest_restamped hreq hpkt, hpkt.dst ▸ he⟩

/-- Some output of the node is for a packet in an input, and not the side it came in at. -/
theorem exists_wants {c : ch.Node} {p : Port Dir1 (ch.mesh.elems c)} {pkt : Packet}
    (h : ch.Placed (.inl (inpAt c p)) pkt) :
    ∃ q, ch.mesh.wants c q pkt = true ∧ (p.isElem = false → q ≠ p) := by
  obtain ⟨htravels, honward⟩ := h
  obtain ⟨⟨c', i⟩, he⟩ := htravels.region
  have hcluster := (region_eq_some.1 he).1
  rcases lt_trichotomy c c' with hlt | rfl | hlt
  · have hwants := ch.cluster_lt c c' hlt
    rw [hcluster] at hwants
    refine ⟨.dir .north, wants_north.2 hwants, ?_⟩
    rintro - rfl
    exact absurd honward (BitVec.not_le.2 hwants)
  · refine ⟨.elem i, wants_elem.2 he, ?_⟩
    rintro hp rfl
    cases hp
  · have hwants := ch.cluster_lt c' c hlt
    rw [hcluster] at hwants
    refine ⟨.dir .south, wants_south.2 hwants, ?_⟩
    rintro - rfl
    exact absurd honward (BitVec.not_le.2 hwants)

/-- A packet in a directional output has a neighbour to go to, which lies on its way. -/
theorem exists_link {c : ch.Node} {d : Dir1} {pkt : Packet} (htravels : ch.Travels pkt)
    (hwants : ch.mesh.wants c (.dir d) pkt = true) :
    ∃ c', ch.link c d = some c' ∧
      ∀ n, Onward (n := n) c' (addrMesh1d pkt.dst).cluster (.dir (opp d)) := by
  obtain ⟨⟨dst, i⟩, he⟩ := htravels.region
  have hcluster := (region_eq_some.1 he).1
  -- cluster numbers are ordered like the nodes
  have hnode : ∀ c c' : ch.Node, ch.cluster c < ch.cluster c' → c < c' :=
    fun c c' => (Line1d.cluster_lt_iff (l := ch.line)).1
  have hmono : ∀ c c' : ch.Node, c ≤ c' → ch.cluster c ≤ ch.cluster c' := by
    intro c c' h
    rcases lt_or_eq_of_le h with hlt | rfl
    · exact BitVec.le_of_lt (ch.cluster_lt c c' hlt)
    · exact BitVec.le_refl _
  have hdst := dst.isLt
  cases d with
  | north =>
      have hlt : c < dst := hnode c dst (hcluster ▸ wants_north.1 hwants)
      have hval : c.val < dst.val := hlt
      refine ⟨⟨c + 1, by omega⟩, dif_pos (by omega), fun n => ?_⟩
      show ch.cluster _ ≤ _
      rw [← hcluster]
      exact hmono _ _ (Fin.le_def.2 (Nat.succ_le_of_lt hval))
  | south =>
      have hlt : dst < c := hnode dst c (hcluster ▸ wants_south.1 hwants)
      have hval : dst.val < c.val := hlt
      refine ⟨⟨c - 1, by omega⟩, if_pos (by omega), fun n => ?_⟩
      show _ ≤ ch.cluster _
      rw [← hcluster]
      refine hmono _ _ (Fin.le_def.2 ?_)
      show dst.val ≤ c.val - 1
      omega

/-! ## The moves a packet owes -/

/-- Where the packets on a chain go. Each `receive` of a node stamps them. -/
inductive Hop (ch : Chain1d) : Slot ch → Packet → Slot ch → Packet → Prop where
  | enter {e pkt pkt'} (h : Restamped pkt pkt') :
      Hop ch (.inr e) pkt (.inl (inpAt e.1 (.elem e.2))) pkt'
  | turn {c p q pkt} (hwants : ch.mesh.wants c q pkt = true) :
      Hop ch (.inl (inpAt c p)) pkt (.inl (outAt c q)) pkt
  | link {c d c' pkt pkt'} (hlink : ch.link c d = some c') (h : Restamped pkt pkt') :
      Hop ch (.inl (outAt c (.dir d))) pkt (.inl (inpAt c' (.dir (opp d)))) pkt'
  | serve {c : ch.Node} {i : Fin (ch.elems c).toNat} {pkt reply}
      (hmem : (ch.layout.created ⟨c, i⟩).isMem = true) (hsrc : reply.src = pkt.dst)
      (hdst : reply.dst = pkt.src) : Hop ch (.inl (outAt c (.elem i))) pkt (.inr ⟨c, i⟩) reply

/-- The cluster an address names. -/
def clusterOf (addr : Word) : Nat := (addrMesh1d addr).cluster.toNat

/-- The distance of two clusters. -/
def dist (a b : Nat) : Nat := (a - b) + (b - a)

/-- The moves of the reply that is still to come: the one out of the memory, two for each link, and
two at the requester's node. -/
def replyWay (ch : Chain1d) (pkt : Packet) : Nat :=
  if (ch.layout.requesterAt pkt.dst).isSome then 0
  else 2 * dist (clusterOf pkt.dst) (clusterOf pkt.src) + 3

/-- The moves a packet owes, at most: cluster numbers may leave gaps. -/
def way (ch : Chain1d) : Slot ch → Packet → Nat
  | .inl (.inl ⟨c, _⟩), pkt =>
      2 * dist (ch.cluster c).toNat (clusterOf pkt.dst) + 2 + ch.replyWay pkt
  | .inl (.inr ⟨c, _⟩), pkt =>
      2 * dist (ch.cluster c).toNat (clusterOf pkt.dst) + 1 + ch.replyWay pkt
  | .inr e, pkt =>
      2 * dist (ch.cluster e.1).toNat (clusterOf pkt.dst) + 3 + ch.replyWay pkt

/-- Stamps do not matter to the way of a reply. -/
theorem replyWay_restamped {pkt pkt' : Packet} (h : Restamped pkt pkt') :
    ch.replyWay pkt' = ch.replyWay pkt := by
  simp only [replyWay, h.dst, h.src]

/-- Stamps do not matter to the owner of a packet. -/
theorem owner_restamped {pkt pkt' : Packet} (h : Restamped pkt pkt') :
    ch.layout.owner pkt' = ch.layout.owner pkt := by
  simp only [owner, h.dst, h.src]

/-- A packet in the output of a memory is a request. -/
theorem request_of_wants {c : ch.Node} {i : Fin (ch.elems c).toNat} {pkt : Packet}
    (htravels : ch.Travels pkt) (hwants : ch.mesh.wants c (.elem i) pkt = true)
    (hmem : (ch.layout.created ⟨c, i⟩).isMem = true) : ∃ e, ch.layout.IsRequest e pkt := by
  rcases htravels with ⟨a, ha⟩ | ⟨e, hreq, -⟩
  · obtain ⟨hregion, hnot⟩ := requesterAt_eq_some.1 ha
    rw [wants_elem.1 hwants, Option.some.injEq] at hregion
    rw [← hregion, hmem] at hnot
    cases hnot
  · exact ⟨e, hreq⟩

/-- A link brings a packet closer. -/
theorem dist_link {c c' : ch.Node} {d : Dir1} {pkt : Packet} (hlink : ch.link c d = some c')
    (htravels : ch.Travels pkt) (hwants : ch.mesh.wants c (.dir d) pkt = true) :
    dist (ch.cluster c').toNat (clusterOf pkt.dst) <
      dist (ch.cluster c).toNat (clusterOf pkt.dst) := by
  obtain ⟨c'', hlink', honward⟩ := exists_link htravels hwants
  obtain rfl : c'' = c' := Option.some.inj (hlink'.symm.trans hlink)
  have hlt := link_lt hlink
  cases d with
  | north =>
      have h1 := ch.cluster_lt c c'' (Fin.lt_def.2 (by simp only at hlt; omega))
      have h2 : ch.cluster c'' ≤ (addrMesh1d pkt.dst).cluster := honward 0
      rw [BitVec.lt_def] at h1
      rw [BitVec.le_def] at h2
      simp only [dist, clusterOf]
      omega
  | south =>
      have h1 := ch.cluster_lt c'' c (Fin.lt_def.2 (by simp only at hlt; omega))
      have h2 : (addrMesh1d pkt.dst).cluster ≤ ch.cluster c'' := honward 0
      rw [BitVec.lt_def] at h1
      rw [BitVec.le_def] at h2
      simp only [dist, clusterOf]
      omega

/-- A hop keeps a packet well placed. -/
theorem placed_hop {p q : Slot ch} {x y : Packet} (hok : ch.Placed p x) (hhop : Hop ch p x q y) :
    ch.Placed q y := by
  cases hhop with
  | @enter e _ _ h =>
      refine ⟨?_, trivial⟩
      by_cases hmem : (ch.layout.created e).isMem = true
      · have ha : ∃ a, ch.layout.requesterAt x.dst = some a := by simpa [Placed, hmem] using hok
        exact Travels.restamped (Or.inl ha) h
      · have hreq : ch.layout.IsRequest e x ∧ ch.layout.region x.dst ≠ none := by
          simpa [Placed, hmem] using hok
        exact Travels.restamped (Or.inr ⟨e, hreq⟩) h
  | turn hwants => exact ⟨hok.1, hwants⟩
  | link hlink h =>
      obtain ⟨htravels, hwants⟩ := hok
      obtain ⟨c'', hlink', honward⟩ := exists_link htravels hwants
      obtain rfl := Option.some.inj (hlink'.symm.trans hlink)
      refine ⟨htravels.restamped h, ?_⟩
      rw [h.dst]
      exact honward _
  | serve hmem hsrc hdst =>
      obtain ⟨htravels, hwants⟩ := hok
      obtain ⟨e, hreq⟩ := request_of_wants htravels hwants hmem
      simp only [Placed, hmem, if_true]
      exact ⟨e, hdst ▸ hreq.src⟩

/-- A hop keeps the owner of a packet. -/
theorem owner_hop {p q : Slot ch} {x y : Packet} (hok : ch.Placed p x) (hhop : Hop ch p x q y) :
    ch.layout.owner y = ch.layout.owner x := by
  cases hhop with
  | enter h => exact owner_restamped h
  | turn hwants => rfl
  | link hlink h => exact owner_restamped h
  | serve hmem hsrc hdst =>
      obtain ⟨htravels, hwants⟩ := hok
      obtain ⟨e, hreq⟩ := request_of_wants htravels hwants hmem
      exact hreq.owner_reply hdst

/-- A hop shortens the way of a packet. -/
theorem way_hop {p q : Slot ch} {x y : Packet} (hok : ch.Placed p x) (hhop : Hop ch p x q y) :
    ch.way q y < ch.way p x := by
  cases hhop with
  | enter h =>
      simp only [way, replyWay_restamped h, clusterOf, h.dst]
      omega
  | turn hwants =>
      simp only [way]
      omega
  | link hlink h =>
      have hdist := dist_link hlink hok.1 hok.2
      simp only [way, replyWay_restamped h]
      simp only [clusterOf, h.dst] at hdist ⊢
      omega
  | @serve c i _ _ hmem hsrc hdst =>
      obtain ⟨htravels, hwants⟩ := hok
      obtain ⟨e, hreq⟩ := request_of_wants htravels hwants hmem
      have hcluster : ch.cluster c = (addrMesh1d x.dst).cluster :=
        (region_eq_some.1 (wants_elem.1 hwants)).1
      simp only [way, replyWay, hreq.dst, hreq.src, hcluster, clusterOf, hdst, Option.isSome_some,
        Option.isSome_none, if_true, Bool.false_eq_true, if_false]
      omega

/-- The slots of a chain as a net. -/
def routes (ch : Chain1d) : Slots.Routes (Slot ch) Packet (Option ch.Elem) where
  hop := Hop ch
  last p pkt := ∃ (c : ch.Node) (i : Fin (ch.elems c).toNat), p = .inl (outAt c (.elem i)) ∧
    ch.layout.requesterAt pkt.dst = some ⟨c, i⟩
  owner := ch.layout.owner
  ok := ch.Placed
  weight := ch.way
  ok_hop := placed_hop
  owner_hop := owner_hop
  weight_hop := way_hop
  weight_pos {p x} _ := by
    match p with
    | .inl (.inl ⟨c, p⟩) => simp only [way]; omega
    | .inl (.inr ⟨c, p⟩) => simp only [way]; omega
    | .inr e => simp only [way]; omega

end Gran.Chain1d
