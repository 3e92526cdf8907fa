import Gran.Foundations.Flow
import Gran.Mesh.Line1d
import Gran.Mesh.Twin

/-!
# The order of packets on a line

Packets do not say which port they came from, so the run is accompanied by a twin in which each
packet carries the address of its port. All packets from one element to another share one way of
registers (`ways`): an element input, the registers that face the destination, and an element
output. What a node chooses by timestamp is the flow that moves, never the order inside a flow, and
`node1d_in_order` says what follows: for each source and destination, the packets delivered are the
first ones injected, in the order of their injection.
-/

namespace Gran

open Mesh

/-- The port search does not read the source address. -/
theorem Node1d.arrive_readdressed {N : Type} [DecidableEq N] {n : Nat}
    {ports : Port Dir1 n → Option (Comp N)} (sender : Comp N) (now : Word) (pkt : Packet)
    (src : Word) {l : List (Port Dir1 n)} :
    Node1d.arrive ports sender now (readdressed pkt src) l =
      (Node1d.arrive ports sender now pkt l).map fun x => (x.1, readdressed x.2 src) := by
  induction l generalizing pkt with
  | nil => rfl
  | cons p rest ih =>
      cases hp : p.isElem <;> by_cases hport : some sender = ports p <;>
        simp only [Node1d.arrive, hp, hport, if_true, if_false, Bool.false_eq_true,
          Option.map_some]
      · exact ih pkt
      · rfl
      · exact ih { pkt with timestamp := now }

namespace Line1d

open Flow

variable {l : Line1d}

/-! ## The ways -/

/-- The element that a packet comes from, as its counterpart says, and the one that it goes to. -/
def flowOf (l : Line1d) (x : Packet × Word) : Option l.Elem × Option l.Elem :=
  (l.region x.2, l.region x.1.dst)

/-- The registers between two elements. -/
def Between (a b : l.Elem) : Place l.mesh → Prop
  | .inl ⟨c, .elem i⟩ => a = ⟨c, i⟩
  | .inl ⟨c, .dir .south⟩ => a.1 < c ∧ c ≤ b.1
  | .inl ⟨c, .dir .north⟩ => b.1 ≤ c ∧ c < a.1
  | .inr ⟨c, .elem i⟩ => b = ⟨c, i⟩
  | .inr ⟨c, .dir .north⟩ => a.1 ≤ c ∧ c < b.1
  | .inr ⟨c, .dir .south⟩ => b.1 < c ∧ c ≤ a.1

/-- The links between two nodes. -/
def links (c c' : l.Node) : Nat := (c - c' : Nat) + (c' - c : Nat)

/-- The hops to the output of an element. -/
def hops (b : l.Elem) : Place l.mesh → Nat
  | .inl ⟨c, _⟩ => 2 * links c b.1 + 1
  | .inr ⟨c, _⟩ => 2 * links c b.1

/-- The node of a register. -/
def nodeOf : Place l.mesh → l.Node
  | .inl ⟨c, _⟩ => c
  | .inr ⟨c, _⟩ => c

theorem Between.node {a b : l.Elem} {p : Place l.mesh} (h : Between a b p) :
    a.1 ≤ nodeOf p ∧ nodeOf p ≤ b.1 ∨ b.1 ≤ nodeOf p ∧ nodeOf p ≤ a.1 := by
  match p with
  | .inl ⟨c, .elem i⟩ | .inr ⟨c, .elem i⟩ =>
      subst h
      simp only [nodeOf, Fin.le_def]
      omega
  | .inl ⟨c, .dir .south⟩ | .inl ⟨c, .dir .north⟩ | .inr ⟨c, .dir .north⟩ | .inr ⟨c, .dir .south⟩ =>
      simp only [Between, Fin.lt_def, Fin.le_def] at h
      simp only [nodeOf, Fin.le_def]
      omega

/-- The inputs of a way are the outputs of the way back. -/
theorem between_back {a b : l.Elem} {c : l.Node} {p : Port Dir1 (l.mesh.elems c)} :
    Between a b (inpAt c p) ↔ Between b a (outAt c p) := by
  match p with
  | .elem i | .dir .south | .dir .north => exact Iff.rfl

/-- A way leaves a node through one output. -/
theorem Between.out_inj {a b : l.Elem} {c : l.Node} {p q : Port Dir1 (l.mesh.elems c)}
    (hp : Between a b (outAt c p)) (hq : Between a b (outAt c q)) : p = q := by
  rcases p with i | d <;> rcases q with j | d'
  · cases hp.symm.trans hq
    rfl
  · subst hp
    cases d' with
    | north => exact absurd hq.2 (lt_irrefl _)
    | south => exact absurd hq.1 (lt_irrefl _)
  · subst hq
    cases d with
    | north => exact absurd hp.2 (lt_irrefl _)
    | south => exact absurd hp.1 (lt_irrefl _)
  · cases d <;> cases d' <;> simp only [Between, Fin.lt_def, Fin.le_def] at hp hq <;>
      first | rfl | omega

/-- A place on the way is known by its distance. -/
theorem between_inj {a b : l.Elem} {p q : Place l.mesh} (hp : Between a b p) (hq : Between a b q)
    (hhops : hops b p = hops b q) : p = q := by
  have hnode : nodeOf p = nodeOf q := by
    have h1 := hp.node
    have h2 := hq.node
    simp only [Fin.le_def] at h1 h2
    refine Fin.ext ?_
    rcases p with ⟨c, p⟩ | ⟨c, p⟩ <;> rcases q with ⟨c', q⟩ | ⟨c', q⟩ <;>
      simp only [hops, links, nodeOf] at hhops h1 h2 ⊢ <;> omega
  rcases p with ⟨c, p⟩ | ⟨c, p⟩ <;> rcases q with ⟨c', q⟩ | ⟨c', q⟩
  · obtain rfl : c = c' := hnode
    rw [(between_back.1 hp).out_inj (between_back.1 hq)]
  · simp only [hops] at hhops
    omega
  · simp only [hops] at hhops
    omega
  · obtain rfl : c = c' := hnode
    rw [hp.out_inj hq]

/-- The way of each flow to a connected element. -/
def ways (l : Line1d) : Ways (Place l.mesh) (Option l.Elem × Option l.Elem) where
  on k p := ∃ a b, k = (some a, some b) ∧ l.connected b.1 b.2 = true ∧ Between a b p
  dist k p := (k.2.map fun b => hops b p).getD 0
  inj {k p q} := by
    rintro ⟨a, b, rfl, -, hp⟩ ⟨a', b', hk, -, hq⟩ hdist
    obtain ⟨rfl, rfl⟩ : a = a' ∧ b = b' := by simpa using hk
    exact between_inj hp hq hdist

/-- A packet stays on its way inside a node. -/
theorem Between.turn {a b : l.Elem} {c : l.Node} {p q : Port Dir1 (l.mesh.elems c)} {x : Packet}
    (h : Between a b (inpAt c p)) (hdst : l.region x.dst = some b)
    (hwants : l.mesh.wants c q x = true) : Between a b (outAt c q) := by
  cases q with
  | elem i => exact Option.some.inj (hdst.symm.trans (wants_elem.1 hwants))
  | dir d =>
      have hp := h
      cases d with
      | north =>
          have hlt : c < b.1 := (wants_north_iff hdst).1 hwants
          refine ⟨?_, hlt⟩
          match p with
          | .elem i => exact le_of_eq (congrArg Sigma.fst hp)
          | .dir .south => exact le_of_lt hp.1
          | .dir .north => exact absurd hp.1 (not_le.2 hlt)
      | south =>
          have hlt : b.1 < c := (wants_south_iff hdst).1 hwants
          refine ⟨hlt, ?_⟩
          match p with
          | .elem i => exact le_of_eq (congrArg Sigma.fst hp).symm
          | .dir .south => exact absurd hp.2 (not_le.2 hlt)
          | .dir .north => exact le_of_lt hp.2

/-- A packet on its way to another node has a neighbour to go to. -/
theorem Between.link {a b : l.Elem} {c : l.Node} {d : Dir1} (h : Between a b (outAt c (.dir d))) :
    ∃ c', l.link c d = some c' ∧ Between a b (inpAt c' (.dir (opp d))) ∧
      hops b (inpAt c' (.dir (opp d))) + 1 = hops b (outAt c (.dir d)) := by
  cases d with
  | north =>
      obtain ⟨h1, h2⟩ := h
      rw [Fin.le_def] at h1
      rw [Fin.lt_def] at h2
      refine ⟨⟨c + 1, by omega⟩, link_north.2 rfl, ⟨Fin.lt_def.2 ?_, Fin.le_def.2 ?_⟩, ?_⟩
      · show a.1.val < c + 1
        omega
      · show c.val + 1 ≤ b.1
        omega
      · simp only [hops, links]
        omega
  | south =>
      obtain ⟨h1, h2⟩ := h
      rw [Fin.lt_def] at h1
      rw [Fin.le_def] at h2
      refine ⟨⟨c - 1, by omega⟩, link_south.2 ?_, ⟨Fin.le_def.2 ?_, Fin.lt_def.2 ?_⟩, ?_⟩
      · show c.val - 1 + 1 = c
        omega
      · show b.1.val ≤ c - 1
        omega
      · show c.val - 1 < a.1
        omega
      · simp only [hops, links]
        omega

/-! ## What a node does -/

/-- `node1d_receive` does not read the source address. -/
theorem arrive_readdressed {c : l.Node} (sender : Comp l.Node) (now : Word) (pkt : Packet)
    (src : Word) :
    l.mesh.arrive (l.mesh.ports c) sender now (readdressed pkt src) (l.mesh.portList c) =
      (l.mesh.arrive (l.mesh.ports c) sender now pkt (l.mesh.portList c)).map
        fun x => (x.1, readdressed x.2 src) :=
  Node1d.arrive_readdressed sender now pkt src

theorem unstamped_restamped {pkt pkt' : Packet} (h : Node1d.Restamped pkt pkt') :
    unstamped pkt' = unstamped pkt := by
  obtain ⟨t, rfl⟩ := h
  rfl

theorem wants_readdressed {c : l.Node} {p : Port Dir1 (l.mesh.elems c)} (x : Packet) (src : Word) :
    l.mesh.wants c p (readdressed x src) = l.mesh.wants c p x := by
  rcases p with i | (_ | _) <;> rfl

/-- The packets are where their ways are and in order, and so were those delivered. -/
structure Ordered (entered : List (Packet × Word)) (s s' : MeshState l.mesh) : Prop where
  twin : Twin s s'
  order : InOrder l.ways l.flowOf (tagged s s') entered (tags s s').reverse
  arrived : ∀ d ∈ s.delivered, ∃ b : l.Elem,
    l.region d.pkt.dst = some b ∧ outAt d.node d.port = outAt b.1 (.elem b.2)

variable {entered : List (Packet × Word)} {s s' : MeshState l.mesh}

theorem tagged_eq_some {p : Place l.mesh} {y : Packet} {src : Word} (hp : held s p = some y)
    (hp' : held s' p = some (readdressed y src)) : tagged s s' p = some (unstamped y, src) := by
  simp [tagged, hp, hp', readdressed]

/-- A packet is between the port it came from and the connected element it goes to. -/
theorem Ordered.between (h : Ordered entered s s') {p : Place l.mesh} {y : Packet} {src : Word}
    (hp : held s p = some y) (hp' : held s' p = some (readdressed y src)) :
    ∃ a b, l.region src = some a ∧ l.region y.dst = some b ∧ l.connected b.1 b.2 = true ∧
      Between a b p := by
  obtain ⟨a, b, hk, hconn, hbetween⟩ := h.order.on p _ (tagged_eq_some hp hp')
  simp only [flowOf, Prod.mk.injEq] at hk
  exact ⟨a, b, hk.1, hk.2, hconn, hbetween⟩

/-- A hop along its way keeps the packets in order. -/
theorem Ordered.hop (h : Ordered entered s s') {p q : Place l.mesh} {y x : Packet} {src : Word}
    (hp : held s p = some y) (hp' : held s' p = some (readdressed y src)) (hq : held s q = none)
    (hyx : unstamped y = unstamped x)
    (hstep : ∀ a b, l.region y.dst = some b → Between a b p →
      Between a b q ∧ hops b q + 1 = hops b p) :
    Ordered entered (hop s p q x) (Mesh.hop s' p q (readdressed x src)) := by
  have hpq : p ≠ q := by
    rintro rfl
    rw [hp] at hq
    cases hq
  obtain ⟨a, b, ha, hb, hconn, hbetween⟩ := h.between hp hp'
  obtain ⟨hbetween', hhops⟩ := hstep a b hb hbetween
  have hflow : l.flowOf (unstamped y, src) = (some a, some b) := Prod.ext ha hb
  have hfree : tagged s s' q = none := by simp [tagged, hq]
  have hhop := h.order.hop (tagged_eq_some hp hp') hfree
    (hflow ▸ ⟨a, b, rfl, hconn, hbetween'⟩) (by rw [hflow]; exact hhops)
  refine ⟨h.twin.hop src, ?_, ?_⟩
  · rw [tagged_hop s s' hpq, ← hyx]
    simpa [tags, Mesh.hop] using hhop
  · simpa [Mesh.hop] using h.arrived

/-- A packet enters at the input of its element. -/
theorem Ordered.enter (h : Ordered entered s s') {a b : l.Elem} {pkt x : Packet}
    (hb : l.region pkt.dst = some b) (hconn : l.connected b.1 b.2 = true)
    (hx : unstamped x = unstamped pkt) (hfree : held s (inpAt a.1 (.elem a.2)) = none) :
    Ordered (entered ++ [(unstamped pkt, l.address a.1 a.2)])
      (setReg s (inpAt a.1 (.elem a.2)) ⟨x, true⟩)
      (setReg s' (inpAt a.1 (.elem a.2)) ⟨readdressed x (l.address a.1 a.2), true⟩) := by
  have hflow : l.flowOf (unstamped pkt, l.address a.1 a.2) = (some a, some b) :=
    Prod.ext (region_address a) hb
  have htagged : tagged s s' (inpAt a.1 (.elem a.2)) = none := by simp [tagged, hfree]
  have henter := h.order.enter (x := (unstamped pkt, l.address a.1 a.2)) htagged
    (hflow ▸ ⟨a, b, rfl, hconn, rfl⟩) fun q hq => ?_
  · refine ⟨h.twin.setReg _ (.set _ true), ?_, by simpa using h.arrived⟩
    rw [tagged_setReg]
    simpa [tags, hx, readdressed] using henter
  · -- every register on the way is between the two elements
    rw [hflow] at hq ⊢
    obtain ⟨a', b', hk, -, hbetween⟩ := hq
    obtain ⟨rfl, rfl⟩ : a = a' ∧ b = b' := by simpa using hk
    have hnode := hbetween.node
    simp only [Fin.le_def] at hnode
    rcases q with ⟨c, q⟩ | ⟨c, q⟩ <;> simp only [ways, hops, links, nodeOf, Option.map_some,
      Option.getD_some] at hnode ⊢ <;> omega

theorem propagateTo_ordered (h : Ordered entered s s') (c : l.Node)
    (r : Option (Port Dir1 (l.mesh.elems c))) (p : Port Dir1 (l.mesh.elems c)) :
    ∃ t t', propagateTo c r s p = some t ∧ propagateTo c r s' p = some t' ∧
      Ordered entered t t' := by
  rcases propagateTo_twin h.twin wants_readdressed r with
    ⟨h1, h2⟩ | ⟨q, x, src, hx, hx', hwants, hfree, h1, h2⟩
  · exact ⟨s, s', h1, h2, h⟩
  · refine ⟨_, _, h1, h2, h.hop hx hx' hfree rfl fun a b hb hbetween => ?_⟩
    exact ⟨hbetween.turn hb hwants, rfl⟩

/-- `SEND` to a neighbour or to the connected element of the port. -/
theorem clockOutput_ordered (h : Ordered entered s s') {answer : Comp l.Node → Stat}
    (hanswer : ∀ comp, answer comp = .OK ∨ answer comp = .EBUSY) (c : l.Node)
    (p : Port Dir1 (l.mesh.elems c)) :
    ∃ t t', clockOutput answer c s p = some t ∧ clockOutput answer c s' p = some t' ∧
      Ordered entered t t' := by
  cases hy : held s (outAt c p) with
  | none =>
      have hfree : ((s.nodes c).out p).busy = false := Reg.held_eq_none.1 hy
      have hfree' : ((s'.nodes c).out p).busy = false := (h.twin.regs (outAt c p)).busy.trans hfree
      exact ⟨s, s', by simp [clockOutput, hfree], by simp [clockOutput, hfree'], h⟩
  | some y =>
      obtain ⟨src, hy'⟩ := (h.twin.regs (outAt c p)).held hy
      obtain ⟨a, b, ha, hb, hconn, hbetween⟩ := h.between hy hy'
      cases p with
      | dir d =>
          obtain ⟨c', hlink, hbetween', hhops⟩ := hbetween.link
          have hport : l.mesh.ports c (.dir d) = some (.node c') :=
            congrArg (Option.map Comp.node) hlink
          obtain ⟨x, hfound, hyx⟩ := Node1d.arrive_find
            (find_node l.wiring hlink)
          rcases clockOutput_link_twin arrive_readdressed h.twin hy hy' hport
            hfound with ⟨h1, h2⟩ | ⟨hfree, h1, h2⟩
          · exact ⟨s, s', h1, h2, h⟩
          · refine ⟨_, _, h1, h2, h.hop hy hy' hfree ?_ fun a' b' hb' hbetween => ?_⟩
            · exact (unstamped_restamped hyx).symm
            · obtain ⟨c'', hlink', hstep⟩ := hbetween.link
              obtain rfl := Option.some.inj (hlink'.symm.trans hlink)
              exact hstep
      | elem i =>
          obtain rfl : b = ⟨c, i⟩ := hbetween
          have hport : l.mesh.ports c (.elem i) = some (.elem c i) := if_pos hconn
          rcases clockOutput_elem_twin hanswer hy hy' hport with ⟨h1, h2⟩ | ⟨h1, h2⟩
          · exact ⟨s, s', h1, h2, h⟩
          · refine ⟨_, _, h1, h2, h.twin.handOver c (.elem i) _ y src, ?_, ?_⟩
            · have hflow : l.flowOf (unstamped y, src) = (some a, some ⟨c, i⟩) := Prod.ext ha hb
              have hleave := h.order.leave (tagged_eq_some hy hy') fun q _ => ?_
              · rw [tagged_handOver]
                simpa [tags, handOver, readdressed] using hleave
              · rw [hflow]
                simp [ways, hops, links]
            · intro d hd
              rcases List.mem_cons.1 hd with rfl | hd
              · exact ⟨⟨c, i⟩, hb, rfl⟩
              · exact h.arrived d hd

/-- A clock does the same to both lines and keeps the packets in order. -/
theorem clock_ordered (h : Ordered entered s s') {answer : Comp l.Node → Stat}
    (hanswer : ∀ comp, answer comp = .OK ∨ answer comp = .EBUSY) (c : l.Node) :
    ∃ t t', Mesh.clock answer c s = some t ∧ Mesh.clock answer c s' = some t' ∧
      Ordered entered t t' := by
  have htick : Ordered entered (tick s c) (tick s' c) := by
    refine ⟨h.twin.tick c, ?_, h.arrived⟩
    have htagged : tagged (tick s c) (tick s' c) = tagged s s' := by
      funext p
      simp only [tagged, held_tick]
    rw [htagged]
    exact h.order
  obtain ⟨u, u', hu, hu', hout⟩ := Fold.foldlM_both (Ordered entered) (l := l.mesh.portList c)
    (f := clockOutput answer c) (g := clockOutput answer c)
    (fun s s' p _ h => clockOutput_ordered h hanswer c p) htick
  have hold : oldestElem (u'.nodes c) = oldestElem (u.nodes c) := oldestElem_twin hout.twin c
  obtain ⟨t, t', ht, ht', hordered⟩ := Fold.foldlM_both (Ordered entered)
    (l := l.mesh.propagateOrder c) (f := propagateTo c (oldestElem (u.nodes c)))
    (g := propagateTo c (oldestElem (u.nodes c)))
    (fun s s' p _ h => propagateTo_ordered h c _ p) hout
  refine ⟨t, t', ?_, ?_, hordered⟩
  · simp [Mesh.clock, clockOutputs, hu, ht]
  · simp [Mesh.clock, clockOutputs, hu', hold, ht']

/-! ## Runs -/

/-- What happens on a line: elements answer `OK` or `EBUSY`, and connected elements present packets
for connected elements. -/
def Fits (l : Line1d) : Drive l.Node → Prop
  | .clock _ answer => ∀ comp, answer comp = .OK ∨ answer comp = .EBUSY
  | .inject c i pkt => i < (l.elems c).toNat ∧ l.connected c i = true ∧
      ∃ b : l.Elem, l.region pkt.dst = some b ∧ l.connected b.1 b.2 = true

/-- The same with a packet that carries the address of the port it is presented at. -/
def mark (l : Line1d) : Drive l.Node → Drive l.Node
  | .clock c answer => .clock c answer
  | .inject c i pkt => .inject c i (readdressed pkt (l.address c i))

/-- An injection with the address of its port. -/
def markInjection (l : Line1d) (i : Injection l.Node) : Injection l.Node :=
  { i with pkt := readdressed i.pkt (l.address i.node i.elem) }

/-- The second run is the first one with packets that carry the addresses of their ports. -/
structure Marked (r r' : Run l.mesh) : Prop where
  twin : Twin r.state r'.state
  injected : r'.injected = r.injected.map l.markInjection

/-- The packets delivered to `b` whose counterparts carry the address of `a`, oldest first. -/
def deliveredFrom (r r' : Run l.mesh) (a b : l.Elem) : List Packet :=
  (((r.state.delivered.zip r'.state.delivered).filter fun d =>
    l.region d.2.pkt.src = some a ∧ outAt d.1.node d.1.port = outAt b.1 (.elem b.2)).map
      fun d => unstamped d.1.pkt).reverse

/-- The packets for `b` injected at `a`, oldest first. -/
def injectedFrom (r : Run l.mesh) (a b : l.Elem) : List Packet :=
  ((r.injected.filter fun i => i.node = a.1 ∧ i.elem = a.2.val ∧ l.region i.pkt.dst = some b).map
    fun i => unstamped i.pkt).reverse

/-- The packets injected, with the addresses of their ports, oldest first. -/
def entries (r : Run l.mesh) : List (Packet × Word) :=
  (r.injected.map fun i => (unstamped i.pkt, l.address i.node i.elem)).reverse

/-- A run and its twin, with the packets of both in order. -/
structure Tracked (r r' : Run l.mesh) : Prop where
  ordered : Ordered (entries r) r.state r'.state
  injected : r'.injected = r.injected.map l.markInjection
  ports : ∀ i ∈ r.injected, i.elem < (l.elems i.node).toNat

variable {r r' : Run l.mesh}

theorem drive_tracked (h : Tracked r r') {d : Drive l.Node} (hd : l.Fits d) :
    ∃ t t', r.drive d = some t ∧ r'.drive (l.mark d) = some t' ∧ Tracked t t' := by
  cases d with
  | clock c answer =>
      obtain ⟨s, s', hs, hs', hordered⟩ := clock_ordered h.ordered hd c
      exact ⟨{ r with state := s }, { r' with state := s' }, by simp [Run.drive, hs],
        by simp [Run.drive, mark, hs'], hordered, h.injected, h.ports⟩
  | inject c i pkt =>
      obtain ⟨hi, hconn, b, hb, hbconn⟩ := hd
      have hport : l.mesh.ports c (.elem ⟨i, hi⟩) = some (.elem c i) := if_pos hconn
      obtain ⟨x, hfound, hx⟩ : ∃ x, Node1d.arrive (l.mesh.ports c) (.elem c i)
          (r.state.nodes c).timestamp pkt (l.mesh.portList c) = some (.elem ⟨i, hi⟩, x) ∧
            Node1d.Restamped pkt x := Node1d.arrive_find (find_elem l.wiring hport)
      have hstate := h.ordered
      rcases receive_twin arrive_readdressed hstate.twin (l.address c i) hfound with
        ⟨h1, h2⟩ | ⟨hfree, h1, h2⟩
      · refine ⟨r, r', ?_, ?_, h⟩
        · simp [Run.drive, h1]
        · simp [Run.drive, mark, h2]
      · refine ⟨⟨setReg r.state (inpAt c (.elem ⟨i, hi⟩)) ⟨x, true⟩,
            ⟨c, i, pkt, (r.state.nodes c).timestamp⟩ :: r.injected⟩,
          ⟨setReg r'.state (inpAt c (.elem ⟨i, hi⟩)) ⟨readdressed x (l.address c i), true⟩,
            ⟨c, i, readdressed pkt (l.address c i), (r'.state.nodes c).timestamp⟩ :: r'.injected⟩,
          by simp [Run.drive, h1], by simp [Run.drive, mark, h2], ?_, ?_, ?_⟩
        · have henter := hstate.enter (a := ⟨c, ⟨i, hi⟩⟩) hb hbconn (unstamped_restamped hx) hfree
          rw [entries, List.map_cons, List.reverse_cons]
          exact henter
        · simp [markInjection, h.injected, hstate.twin.stamp]
        · intro j hj
          rcases List.mem_cons.1 hj with rfl | hj
          · exact hi
          · exact h.ports j hj

theorem ofDrives_tracked {drives : List (Drive l.Node)} (hfits : ∀ d ∈ drives, l.Fits d) :
    ∃ r r', Run.ofDrives l.mesh drives = some r ∧
      Run.ofDrives l.mesh (drives.map l.mark) = some r' ∧ Tracked r r' := by
  have hfree : ∀ p, reg (.init l.mesh) p = .free := fun p => by
    rcases p with ⟨c, p⟩ | ⟨c, p⟩ <;> rfl
  have hinit : Tracked (Run.init l.mesh) (Run.init l.mesh) := by
    refine ⟨⟨⟨fun _ => rfl, fun _ => .refl, .nil⟩, ?_, fun d hd => nomatch hd⟩, rfl,
      fun i hi => nomatch hi⟩
    have htagged : tagged (Run.init l.mesh).state (Run.init l.mesh).state = fun _ => none := by
      funext p
      simp [tagged, held_reg, Run.init, hfree]
    rw [htagged]
    exact inOrder_empty
  obtain ⟨r, r', hr, hr', h⟩ := Fold.foldlM_both (fun r r' => Tracked r r') (l := drives)
    (f := Run.drive) (g := fun r d => r.drive (l.mark d))
    (fun r r' d hd h => drive_tracked h (hfits d hd)) hinit
  exact ⟨r, r', hr, by rw [Run.ofDrives, List.foldlM_map]; exact hr', h⟩

/-! ## In-order delivery -/

/-- The packets delivered to an element are the packets delivered that are for it. -/
theorem deliveredFrom_eq (h : Tracked r r') (a b : l.Elem) : deliveredFrom r r' a b =
    (ofFlow l.flowOf (some a, some b) (tags r.state r'.state).reverse).map Prod.fst := by
  have hfilter : ∀ d ∈ r.state.delivered.zip r'.state.delivered,
      (l.region d.2.pkt.src = some a ∧ outAt d.1.node d.1.port = outAt b.1 (.elem b.2) ↔
        l.flowOf (unstamped d.1.pkt, d.2.pkt.src) = (some a, some b)) := by
    intro d hd
    obtain ⟨b', hb', hout⟩ := h.ordered.arrived d.1 (List.of_mem_zip hd).1
    have hdst : l.region (unstamped d.1.pkt).dst = some b' := hb'
    simp only [flowOf, hdst, hout, Prod.mk.injEq, Option.some.injEq]
    refine and_congr_right fun _ => ⟨fun heq => ?_, fun heq => heq ▸ rfl⟩
    obtain ⟨c, i⟩ := b
    obtain ⟨c', i'⟩ := b'
    cases heq
    rfl
  simp only [deliveredFrom, ofFlow, tags, List.filter_reverse, List.map_reverse, List.filter_map,
    List.map_map]
  congr 2
  exact List.filter_congr fun d hd => decide_eq_decide.2 (hfilter d hd)

/-- The packets that entered at an element are those injected there. -/
theorem injectedFrom_eq (h : Tracked r r') (a b : l.Elem) : injectedFrom r a b =
    (ofFlow l.flowOf (some a, some b) (entries r)).map Prod.fst := by
  have hfilter : ∀ i ∈ r.injected,
      (i.node = a.1 ∧ i.elem = a.2.val ∧ l.region i.pkt.dst = some b ↔
        l.flowOf (unstamped i.pkt, l.address i.node i.elem) = (some a, some b)) := by
    intro i hi
    have hsrc := region_address ⟨i.node, ⟨i.elem, h.ports i hi⟩⟩
    simp only at hsrc
    have hdst : l.region (unstamped i.pkt).dst = l.region i.pkt.dst := rfl
    simp only [flowOf, hsrc, hdst, Prod.mk.injEq, Option.some.injEq]
    rw [← and_assoc]
    refine and_congr_left fun _ => ?_
    obtain ⟨c, i'⟩ := a
    constructor
    · rintro ⟨rfl, hi'⟩
      exact congrArg (Sigma.mk i.node) (Fin.ext hi')
    · rintro heq
      cases heq
      exact ⟨rfl, rfl⟩
  simp only [injectedFrom, ofFlow, entries, List.filter_reverse, List.map_reverse, List.filter_map,
    List.map_map]
  congr 2
  exact List.filter_congr fun i hi => decide_eq_decide.2 (hfilter i hi)

/-- In-order delivery on a line of `node1d` nodes. For any order of node clocks, injections and
refusals, with packets for connected elements: the run does not abort, neither does the one in which
every packet carries the address of its port, and the two differ in nothing else. For every two
elements, the packets that the second run says came from the one, delivered to the other, are the
first ones injected for it there, in the same order and up to their timestamps. -/
theorem node1d_in_order (l : Line1d) (drives : List (Drive l.Node))
    (hfits : ∀ d ∈ drives, l.Fits d) :
    ∃ r r', Run.ofDrives l.mesh drives = some r ∧
      Run.ofDrives l.mesh (drives.map l.mark) = some r' ∧ Marked r r' ∧
      ∀ a b, deliveredFrom r r' a b <+: injectedFrom r a b := by
  obtain ⟨r, r', hr, hr', h⟩ := ofDrives_tracked hfits
  refine ⟨r, r', hr, hr', ⟨h.ordered.twin, h.injected⟩, fun a b => ?_⟩
  rw [deliveredFrom_eq h, injectedFrom_eq h]
  exact (h.ordered.order.prefix_of (some a, some b)).map Prod.fst

/-- Two nodes, one north of the other, with one element each. -/
def pair : Line1d where
  length := 2
  cluster c := BitVec.ofNat 16 c
  elems _ := 1
  connected _ _ := true
  cluster_lt := by decide

/-- The nodes of the pair. -/
def pairSouth : pair.Node := ⟨0, Nat.two_pos⟩

def pairNorth : pair.Node := ⟨1, Nat.one_lt_two⟩

/-- A packet from the southern to the northern element. -/
def letter (flags : BitVec 32) : Packet := { Packet.zero with dst := mesh1dAddr 1 0 0, flags }

/-- Two packets on their way, one behind the other. -/
def letters : List (Drive pair.Node) :=
  [.inject pairSouth 0 (letter 1), .clock pairSouth fun _ => .OK,
    .inject pairSouth 0 (letter 2), .clock pairSouth fun _ => .OK,
    .clock pairNorth fun _ => .OK, .clock pairSouth fun _ => .OK,
    .clock pairNorth fun _ => .OK, .clock pairNorth fun _ => .OK]

/-- `node1d_in_order` on the run that delivers both. -/
theorem node1d_in_order_letters :
    (Run.ofDrives pair.mesh letters).map (fun r => r.state.delivered.map fun d => d.pkt.flags) =
      some [2, 1] ∧
    ∃ r r', Run.ofDrives pair.mesh letters = some r ∧
      Run.ofDrives pair.mesh (letters.map pair.mark) = some r' ∧ Marked r r' ∧
      ∀ a b, deliveredFrom r r' a b <+: injectedFrom r a b := by
  have hdst : pair.region (mesh1dAddr 1 0 0) = some ⟨pairNorth, ⟨0, by decide⟩⟩ := by decide
  have hletter : ∀ flags, pair.Fits (.inject pairSouth 0 (letter flags)) := fun flags =>
    ⟨by decide, rfl, _, hdst, rfl⟩
  have hclock : ∀ c, pair.Fits (.clock c fun _ => .OK) := fun c comp => Or.inl rfl
  have hfits : ∀ d ∈ letters, pair.Fits d := by
    simp only [letters, List.forall_mem_cons]
    exact ⟨hletter 1, hclock _, hletter 2, hclock _, hclock _, hclock _, hclock _, hclock _,
      fun d hd => nomatch hd⟩
  exact ⟨by decide +kernel, node1d_in_order pair letters hfits⟩

end Line1d

end Gran
