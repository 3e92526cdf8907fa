import Gran.Foundations.Routes
import Gran.Mesh.Twin

/-!
# The order of packets in a mesh

Meshes whose selectors follow a placement invariant. `Shift` is what one iteration of the loops of a
clock does to the registers and the deliveries. A packet keeps what it carries from the element
input it entered at to the element it is handed to, and its route depends on its destination only,
so that all packets from one element to one destination share one way. `reachable_in_order` says
that each packet delivered entered at an element port, and that those from one port for one
destination are the first ones injected there, in the order of their injection.
-/

namespace Gran.Mesh

open PacketNet Flow Relation

variable {N D : Type} [DecidableEq N] [DecidableEq D] {m : Mesh N D} {w : Wiring m}
  {ok : Place m → Packet → Prop} {s t : MeshState m} {injected : Multiset Packet}

/-! ## What one iteration does -/

/-- Nothing happens to the packets, or one goes on, or one is handed to the element that it arrived
at. -/
inductive Shift (w : Wiring m) (s t : MeshState m) : Prop where
  | stays (hheld : held t = held s) (hdelivered : t.delivered = s.delivered)
  | goesOn {p q : Place m} {x : Packet} (hp : held s p = some x) (hnext : next w p x = some q)
      (hfree : held s q = none)
      (hheld : held t = Function.update (Function.update (held s) p none) q (some x))
      (hdelivered : t.delivered = s.delivered)
  | leaves {c : N} {i : Fin (m.elems c)} {x : Packet} (hp : held s (outAt c (.elem i)) = some x)
      (hheld : held t = Function.update (held s) (outAt c (.elem i)) none)
      (hdelivered : t.delivered = ⟨c, .elem i, .elem c i, x⟩ :: s.delivered)

/-- What the loops of a clock do. -/
abbrev Shifts (w : Wiring m) : MeshState m → MeshState m → Prop := ReflTransGen (Shift w)

/-- A shift is a run of the network. -/
theorem Shift.moves (injected : Multiset Packet) (h : Shift w s t) :
    Moves (next w) (network s injected) (network t injected) := by
  cases h with
  | stays hheld hdelivered =>
      have hsame : network t injected = network s injected := by
        simp only [network, hheld, hdelivered]
      rw [hsame]
  | goesOn hp hnext hfree hheld hdelivered =>
      have hmove : Move (next w) (network s injected) _ := .hop _ _ _ hp hnext hfree
      convert ReflTransGen.single hmove using 1
      simp only [network, Net.hop, hheld, hdelivered]
  | @leaves c i x hp hheld hdelivered =>
      have hmove : Move (next w) (network s injected) _ := .leave (outAt c (.elem i)) x hp rfl
      convert ReflTransGen.single hmove using 1
      simp only [network, Net.leave, hheld, hdelivered]
      rfl

/-- What the loops of a clock do is a run of the network. -/
theorem Shifts.moves (injected : Multiset Packet) (h : Shifts w s t) :
    Moves (next w) (network s injected) (network t injected) := by
  induction h with
  | refl => exact .refl
  | tail _ hstep ih => exact ih.trans (hstep.moves injected)

/-- A hop changes what two places hold. -/
theorem held_hop (s : MeshState m) {p q : Place m} (hpq : q ≠ p) (x : Packet) :
    held (hop s p q x) = Function.update (Function.update (held s) p none) q (some x) := by
  rw [hop, held_setReg, held_setReg, Function.update_comm hpq]
  rfl

/-- What the loop of `clock_outputs` does at one output: it is free, its packet waits for a busy
input of the neighbour or hops there, or its element refuses the packet or takes it. -/
inductive Serves (w : Wiring m) (answer : Comp N → Stat) (c : N) :
    Port D (m.elems c) → MeshState m → MeshState m → Prop where
  | idle {p : Port D (m.elems c)} {s : MeshState m} (hfree : held s (outAt c p) = none) :
      Serves w answer c p s s
  | waits {d : D} {c' : N} {s : MeshState m} (hlink : w.link c d = some c')
      (hfull : held s (inpAt c' (.dir (w.opp d))) ≠ none) : Serves w answer c (.dir d) s s
  | refused {i : Fin (m.elems c)} {s : MeshState m} (hans : answer (.elem c i) = .EBUSY) :
      Serves w answer c (.elem i) s s
  | hops {d : D} {c' : N} {s : MeshState m} {y : Packet} (hlink : w.link c d = some c')
      (hy : held s (outAt c (.dir d)) = some y)
      (hfree : held s (inpAt c' (.dir (w.opp d))) = none) :
      Serves w answer c (.dir d) s (hop s (outAt c (.dir d)) (inpAt c' (.dir (w.opp d))) y)
  | taken {i : Fin (m.elems c)} {s : MeshState m} {y : Packet}
      (hy : held s (outAt c (.elem i)) = some y) :
      Serves w answer c (.elem i) s (handOver s c (.elem i) (.elem c i) y)

/-- Handing a packet over frees its output. -/
theorem held_handOver (s : MeshState m) (c : N) (p : Port D (m.elems c)) (comp : Comp N)
    (x : Packet) : held (handOver s c p comp x) = Function.update (held s) (outAt c p) none :=
  held_setReg (outAt c p) _

/-- What happens at one output is a shift. -/
theorem Serves.shift {answer : Comp N → Stat} {c : N} {p : Port D (m.elems c)}
    (h : Serves w answer c p s t) : Shift w s t := by
  cases h with
  | idle => exact .stays rfl rfl
  | waits => exact .stays rfl rfl
  | refused => exact .stays rfl rfl
  | hops hlink hy hfree =>
      refine .goesOn hy ?_ hfree (held_hop s (by simp) _) ?_
      · simp [next, hlink]
      · simp [hop]
  | taken hy => exact .leaves hy (held_handOver s c _ _ _) rfl

section Clock

variable {answer : Comp N → Stat} (hstamp : StampsAtElements m.toNodeKind)
  (hspec : RoutingSpec w ok) (hanswer : ∀ comp, answer comp = .OK ∨ answer comp = .EBUSY)
include hspec

/-- Filling an output is a shift. -/
theorem propagateTo_shift {c : N} {r : Option (Port D (m.elems c))} {p : Port D (m.elems c)}
    (h : propagateTo c r s p = some t) : Shift w s t := by
  obtain ⟨t', ht, hcase⟩ := propagateTo_held (s := s) c r p
  obtain rfl := Option.some.inj (ht.symm.trans h)
  rcases hcase with ⟨rfl, -⟩ | ⟨hdelivered, q, x, -, hq, hwants, hfree, hheld⟩
  · exact .stays rfl rfl
  · exact .goesOn hq (next_inp hspec hwants) hfree hheld hdelivered

include hstamp hanswer

/-- What the loop of `clock_outputs` does at one output of a well-placed mesh. -/
theorem clockOutput_serves (hn : Routed (next w) ok (network s injected)) {c : N}
    {p : Port D (m.elems c)} (h : clockOutput answer c s p = some t) : Serves w answer c p s t := by
  cases hy : held s (outAt c p) with
  | none =>
      obtain rfl := Option.some.inj ((clockOutput_free hy).symm.trans h)
      exact .idle hy
  | some y =>
      have hplaced := hn.held (outAt c p) y hy
      cases p with
      | dir d =>
          obtain ⟨c', hlink, -⟩ := hspec.depart hplaced
          have hport : m.ports c (.dir d) = some (.node c') := by rw [w.port_dir, hlink]; rfl
          have hfound : m.arrive (m.ports c') (.node c) (s.nodes c').timestamp y (m.portList c') =
              some (.dir (w.opp d), y) := hstamp _ _ _ _ _ _ (find_node w hlink)
          rw [clockOutput_link hy hport hfound] at h
          obtain rfl := Option.some.inj h
          cases hfull : (reg s (inpAt c' (.dir (w.opp d)))).busy with
          | true =>
              refine .waits hlink fun hnone => ?_
              rw [show (reg s (inpAt c' (.dir (w.opp d)))).busy = false from
                Reg.held_eq_none.1 hnone] at hfull
              cases hfull
          | false => exact .hops hlink hy (Reg.held_eq_none.2 hfull)
      | elem i =>
          obtain ⟨comp, hport⟩ := Option.ne_none_iff_exists'.1 (hspec.attached hplaced)
          obtain rfl := w.port_elem _ _ _ hport
          rw [clockOutput_elem hy hport] at h
          obtain rfl := Option.some.inj h
          rcases hanswer (.elem c i) with hans | hans
          · rw [if_neg (by rw [hans]; decide), if_pos hans]
            exact .taken hy
          · rw [if_pos hans]
            exact .refused hans

/-- Serving an output is a shift. -/
theorem clockOutput_shift (hn : Routed (next w) ok (network s injected)) {c : N}
    {p : Port D (m.elems c)} (h : clockOutput answer c s p = some t) : Shift w s t :=
  (clockOutput_serves hstamp hspec hanswer hn h).shift

/-- A clock is a sequence of shifts. -/
theorem clock_shifts (hn : Routed (next w) ok (network s injected)) {c : N}
    (h : clock answer c s = some t) : Shifts w s t := by
  obtain ⟨u, hout, hprop⟩ := Option.bind_eq_some_iff.1 h
  have htick : Shift w s (tick s c) := .stays (held_tick c) rfl
  have hnt : Routed (next w) ok (network (tick s c) injected) :=
    Moves.routed (ok_next hspec) (htick.moves injected) hn
  have houtputs := Fold.foldlM_rel
    (fun s t => Routed (next w) ok (network s injected) → Shifts w s t) (fun _ _ => .refl)
    (fun _ _ _ hab hbc ha =>
      (hab ha).trans (hbc (Moves.routed (ok_next hspec) (Shifts.moves injected (hab ha)) ha)))
    (fun _ _ _ _ hstep hs => .single (clockOutput_shift hstamp hspec hanswer hs hstep)) hout
  have hprops := Fold.foldlM_rel (Shifts w) (fun _ => .refl) (fun _ _ _ => .trans)
    (fun _ _ _ _ hstep => .single (propagateTo_shift hspec hstep)) hprop
  exact (ReflTransGen.single htick).trans ((houtputs hnt).trans hprops)

end Clock

/-! ## Flows -/

/-- What a packet says about where it goes. -/
structure Destinations (w : Wiring m) (ok : Place m → Packet → Prop) (T : Type) where
  dest : Packet → T
  next_eq : ∀ {p x y}, dest x = dest y → next w p x = next w p y
  ok_of_eq : ∀ {p x y}, dest x = dest y → ok p x → ok p y

variable {T : Type} {owed : Place m → Packet → Nat}

namespace Destinations

variable (d : Destinations w ok T)

instance : Nonempty Packet := ⟨.zero⟩

/-- Some packet for a destination. -/
noncomputable def sample (dst : T) : Packet := Function.invFun d.dest dst

omit [DecidableEq N] [DecidableEq D] in
/-- The sample for a destination has that destination. -/
theorem dest_sample (x : Packet) : d.dest (d.sample (d.dest x)) = d.dest x :=
  Function.invFun_eq ⟨x, rfl⟩

/-- Where a packet entered, and its destination. -/
def flow (e : Packet × Place m) : Place m × T := (e.2, d.dest e.1)

variable (hspec : RoutingSpec w ok) (hcount : Counts (next w) ok owed)

/-- The ways of the packets that entered at one place and have one destination. -/
noncomputable def routes : Routes (Place m) (Place m × T) where
  entry k := k.1
  next k p := next w p (d.sample k.2)
  used k := ok k.1 (d.sample k.2)
  hops k p := owed p (d.sample k.2)
  hops_next {k n p q} hused htrail hnext := by
    refine hcount.hop p q _ ?_ hnext
    clear hnext
    induction htrail with
    | entry => exact hused
    | next _ hnext ih => exact ok_next hspec _ _ _ ih hnext

end Destinations

/-! ## Runs -/

variable {addressed : Packet → Prop} {r r' : Run m}

/-- The packets injected, with the element inputs they entered at, oldest first. -/
def entries (r : Run m) : List (Packet × Place m) :=
  (r.injected.filterMap fun i => if h : i.elem < m.elems i.node
    then some (i.stamped, inpAt i.node (.elem ⟨i.elem, h⟩)) else none).reverse

/-- The packets delivered, with the places they are said to have entered at, oldest first. -/
def exits (s : MeshState m) (sources : List (Place m)) : List (Packet × Place m) :=
  ((s.delivered.map Delivery.pkt).zip sources).reverse

/-- The packets held, with the places they entered at. -/
def sourced (s : MeshState m) (source : Place m → Place m) (p : Place m) :
    Option (Packet × Place m) := (held s p).map fun x => (x, source p)

section Ordered

variable [DecidableEq T] (d : Destinations w ok T) (hspec : RoutingSpec w ok)
  (hcount : Counts (next w) ok owed)

/-- The packets are on their ways and in order, when those held entered at `source` and those
delivered at `sources`. -/
structure Ordered (entered : List (Packet × Place m)) (s : MeshState m)
    (source : Place m → Place m) (sources : List (Place m)) : Prop where
  order : InOrder (d.routes hspec hcount).ways d.flow (sourced s source) entered (exits s sources)
  length : sources.length = s.delivered.length

variable {d hspec hcount} {entered : List (Packet × Place m)} {source : Place m → Place m}
  {sources : List (Place m)}

omit [DecidableEq N] [DecidableEq D] [DecidableEq T] in
/-- The routing function sends a packet where its flow goes. -/
theorem routes_next (p : Place m) (x : Packet) (a : Place m) :
    (d.routes hspec hcount).next (d.flow (x, a)) p = next w p x :=
  d.next_eq (d.dest_sample x)

/-- A shift keeps the packets in order. -/
theorem Ordered.shift (h : Ordered d hspec hcount entered s source sources) (hshift : Shift w s t) :
    ∃ source' sources', Ordered d hspec hcount entered t source' sources' := by
  cases hshift with
  | stays hheld hdelivered =>
      refine ⟨source, sources, ?_, by rw [h.length, hdelivered]⟩
      have hsourced : sourced t source = sourced s source := by
        funext p
        rw [sourced, sourced, hheld]
      rw [hsourced, exits, hdelivered]
      exact h.order
  | @goesOn p q x hp hnext hfree hheld hdelivered =>
      refine ⟨Function.update source q (source p), sources, ?_, by rw [h.length, hdelivered]⟩
      have hsourced : sourced t (Function.update source q (source p)) =
          Function.update (Function.update (sourced s source) p none) q (some (x, source p)) := by
        funext r
        by_cases hr : r = q
        · subst hr
          simp [sourced, hheld]
        · by_cases hr' : r = p
          · subst hr'
            simp [sourced, hheld, hr]
          · simp [sourced, hheld, hr, hr']
      rw [hsourced, exits, hdelivered]
      exact Routes.goOn h.order (by simp [sourced, hp])
        (by rw [routes_next, hnext]) (by simp [sourced, hfree])
  | @leaves c i x hp hheld hdelivered =>
      refine ⟨source, source (outAt c (.elem i)) :: sources, ?_, by simp [h.length, hdelivered]⟩
      have hsourced : sourced t source =
          Function.update (sourced s source) (outAt c (.elem i)) none := by
        funext r
        by_cases hr : r = outAt c (.elem i)
        · subst hr
          simp [sourced, hheld]
        · simp [sourced, hheld, hr]
      have hexits : exits t (source (outAt c (.elem i)) :: sources) =
          exits s sources ++ [(x, source (outAt c (.elem i)))] := by
        simp [exits, hdelivered]
      rw [hsourced, hexits]
      exact Routes.leave h.order (by simp [sourced, hp]) (by rw [routes_next]; rfl)

/-- The loops of a clock keep the packets in order. -/
theorem Ordered.shifts (h : Ordered d hspec hcount entered s source sources)
    (hshifts : Shifts w s t) :
    ∃ source' sources', Ordered d hspec hcount entered t source' sources' := by
  induction hshifts with
  | refl => exact ⟨source, sources, h⟩
  | tail _ hshift ih =>
      obtain ⟨source', sources', h'⟩ := ih
      exact h'.shift hshift

/-- A packet enters at a free place. -/
theorem Ordered.enter (h : Ordered d hspec hcount entered s source sources) {p : Place m}
    {x : Packet} (hok : ok p x) (hfree : held s p = none)
    (hheld : held t = Function.update (held s) p (some x))
    (hdelivered : t.delivered = s.delivered) :
    Ordered d hspec hcount (entered ++ [(x, p)]) t (Function.update source p p) sources := by
  refine ⟨?_, by rw [h.length, hdelivered]⟩
  have hsourced : sourced t (Function.update source p p) =
      Function.update (sourced s source) p (some (x, p)) := by
    funext r
    by_cases hr : r = p
    · subst hr
      simp [sourced, hheld]
    · simp [sourced, hheld, hr]
  rw [hsourced, exits, hdelivered]
  exact Routes.enter h.order (d.ok_of_eq (d.dest_sample x).symm hok) rfl (by simp [sourced, hfree])

/-- A step of a run keeps the packets in order. -/
theorem Run.Step.ordered (ha : Admits w ok addressed)
    (hn : Routed (next w) ok (network r.state r.stamped)) (hstep : r.Step addressed r')
    (h : Ordered d ha.spec hcount (entries r) r.state source sources) :
    ∃ source' sources', Ordered d ha.spec hcount (entries r') r'.state source' sources' := by
  cases hstep with
  | clock c answer hanswer s' hclock =>
      exact h.shifts (clock_shifts ha.stamps ha.spec hanswer hn hclock)
  | inject c i hport pkt haddr ret s' hreceive =>
      rw [receive_elem ha.stamps w hport] at hreceive
      split at hreceive
      case isTrue =>
        cases hreceive
        exact ⟨source, sources, h⟩
      case isFalse hbusy =>
        cases hreceive
        have hfree : held r.state (inpAt c (.elem i)) = none := by
          simpa [held_inpAt, Reg.held_eq_none] using hbusy
        have henter := h.enter (ha.entry (ha.stamp haddr (r.state.nodes c).timestamp)) hfree
          (held_setInp c (.elem i) ⟨_, true⟩) (setInp_delivered c (.elem i) _)
        refine ⟨Function.update source (inpAt c (.elem i)) (inpAt c (.elem i)), sources, ?_⟩
        simpa [entries, Injection.stamped] using henter

/-- Every reachable run keeps the packets in order. -/
theorem reachable_ordered (d : Destinations w ok T) (hcount : Counts (next w) ok owed)
    (ha : Admits w ok addressed) (h : r.Reachable addressed) :
    ∃ source sources, Ordered d ha.spec hcount (entries r) r.state source sources := by
  induction h with
  | refl =>
      refine ⟨id, [], ?_, rfl⟩
      have hempty : sourced (MeshState.init m) id = fun _ => none := by
        funext p
        rcases p with ⟨c, p⟩ | ⟨c, p⟩ <;> rfl
      show InOrder _ _ (sourced (MeshState.init m) id) [] []
      rw [hempty]
      exact inOrder_empty
  | tail hreach hstep ih =>
      obtain ⟨source, sources, h⟩ := ih
      exact hstep.ordered ha (reachable_routed ha hreach) h

/-! ## Between two elements -/

/-- The element ports of a mesh. -/
abbrev ElemPort (m : Mesh N D) := Σ c : N, Fin (m.elems c)

/-- The input of an element port. -/
def ElemPort.input (a : ElemPort m) : Place m := inpAt a.1 (.elem a.2)

omit [DecidableEq N] [DecidableEq D] in
/-- Element ports have different inputs. -/
theorem ElemPort.input_injective : Function.Injective (ElemPort.input (m := m)) := by
  rintro ⟨c, i⟩ ⟨c', i'⟩ h
  simp only [input, Sum.inl.injEq] at h
  cases h
  rfl

omit [DecidableEq N] [DecidableEq D] in
/-- Packets enter at element ports. -/
theorem input_of_mem_entries {e : Packet × Place m} (he : e ∈ entries r) :
    ∃ a : ElemPort m, a.input = e.2 := by
  rw [entries, List.mem_reverse, List.mem_filterMap] at he
  obtain ⟨j, -, hj⟩ := he
  split at hj
  case isTrue hlt =>
    obtain rfl := Option.some.inj hj
    exact ⟨⟨j.node, ⟨j.elem, hlt⟩⟩, rfl⟩
  case isFalse => cases hj

/-- Every packet delivered entered at an element port. -/
theorem Ordered.elemPorts (h : Ordered d hspec hcount (entries r) s source sources) :
    ∃ ports : List (ElemPort m), ports.map ElemPort.input = sources := by
  have hrange : sources ∈ Set.range (List.map (ElemPort.input (m := m))) := by
    rw [Set.range_list_map]
    intro p hp
    have hunzip : ((s.delivered.map Delivery.pkt).zip sources).map Prod.snd = sources :=
      List.map_snd_zip (by rw [List.length_map, h.length])
    rw [← hunzip] at hp
    obtain ⟨e, he, rfl⟩ := List.mem_map.1 hp
    exact input_of_mem_entries (h.order.mem_entered (List.mem_reverse.2 he))
  exact hrange

/-- The packets that entered at an element port for a destination are those injected there. -/
theorem ofFlow_entries (d : Destinations w ok T) (r : Run m) (a : ElemPort m) (dst : T) :
    (ofFlow d.flow (a.input, dst) (entries r)).map Prod.fst =
      ((r.injected.filter fun j => j.node = a.1 ∧ j.elem = a.2.val ∧ d.dest j.stamped = dst).map
        Injection.stamped).reverse := by
  rw [ofFlow, entries, List.filter_reverse, List.map_reverse]
  congr 1
  induction r.injected with
  | nil => rfl
  | cons j rest ih =>
      by_cases hj : j.elem < m.elems j.node
      · have hport : inpAt j.node (.elem ⟨j.elem, hj⟩) = a.input ↔
            j.node = a.1 ∧ j.elem = a.2.val := by
          obtain ⟨c, i⟩ := a
          constructor
          · intro h
            have hsame : (⟨j.node, ⟨j.elem, hj⟩⟩ : ElemPort m) = ⟨c, i⟩ :=
              ElemPort.input_injective h
            cases hsame
            exact ⟨rfl, rfl⟩
          · rintro ⟨rfl, hi⟩
            obtain rfl : (⟨j.elem, hj⟩ : Fin _) = i := Fin.ext hi
            rfl
        have hiff : d.flow (j.stamped, inpAt j.node (.elem ⟨j.elem, hj⟩)) = (a.input, dst) ↔
            j.node = a.1 ∧ j.elem = a.2.val ∧ d.dest j.stamped = dst := by
          rw [Destinations.flow, Prod.mk.injEq, hport, and_assoc]
        rw [List.filterMap_cons_some (dif_pos hj), List.filter_cons, List.filter_cons]
        simp only [decide_eq_decide.2 hiff]
        split
        · rw [List.map_cons, List.map_cons, ih]
        · exact ih
      · have hnot : ¬ (j.node = a.1 ∧ j.elem = a.2.val ∧ d.dest j.stamped = dst) := by
          rintro ⟨hc, hi, -⟩
          obtain ⟨c, i⟩ := a
          obtain rfl : j.node = c := hc
          exact hj (hi ▸ i.isLt)
        rw [List.filterMap_cons_none (dif_neg hj), List.filter_cons_of_neg (by simpa using hnot)]
        exact ih

/-- The packets that left for a destination, from one element port. -/
theorem ofFlow_exits (d : Destinations w ok T) (s : MeshState m) (sources : List (ElemPort m))
    (a : ElemPort m) (dst : T) {arrived : Delivery m → Prop} [DecidablePred arrived]
    (harrived : ∀ e ∈ s.delivered, arrived e ↔ d.dest e.pkt = dst) :
    (ofFlow d.flow (a.input, dst) (exits s (sources.map ElemPort.input))).map Prod.fst =
      (((s.delivered.zip sources).filter fun e => e.2 = a ∧ arrived e.1).map
        fun e => e.1.pkt).reverse := by
  rw [ofFlow, exits, List.filter_reverse, List.map_reverse, List.zip_map, List.filter_map,
    List.map_map]
  congr 2
  refine List.filter_congr fun e he => decide_eq_decide.2 ?_
  simp only [Destinations.flow, Prod.map, Prod.mk.injEq, ElemPort.input_injective.eq_iff]
  rw [harrived e.1 (List.of_mem_zip he).1]

/-- Between two elements packets are delivered in the order of their injection, and all of them when
the mesh is empty. `sources` says at which element port each packet delivered entered. -/
theorem reachable_in_order (d : Destinations w ok T) (hcount : Counts (next w) ok owed)
    (ha : Admits w ok addressed) (h : r.Reachable addressed) :
    ∃ sources : List (ElemPort m), sources.length = r.state.delivered.length ∧
      ∀ (a : ElemPort m) (dst : T) (arrived : Delivery m → Prop) [DecidablePred arrived],
        (∀ e ∈ r.state.delivered, arrived e ↔ d.dest e.pkt = dst) →
        let injected := ((r.injected.filter fun j =>
          j.node = a.1 ∧ j.elem = a.2.val ∧ d.dest j.stamped = dst).map Injection.stamped).reverse
        let delivered := (((r.state.delivered.zip sources).filter fun e =>
          e.2 = a ∧ arrived e.1).map fun e => e.1.pkt).reverse
        delivered <+: injected ∧ ((∀ p, held r.state p = none) → delivered = injected) := by
  obtain ⟨source, places, hordered⟩ := reachable_ordered d hcount ha h
  obtain ⟨sources, rfl⟩ := hordered.elemPorts
  refine ⟨sources, by rw [← hordered.length, List.length_map], fun a dst arrived _ harrived => ?_⟩
  rw [← ofFlow_entries, ← ofFlow_exits d r.state sources a dst harrived]
  refine ⟨(hordered.order.prefix_of _).map Prod.fst, fun hempty => ?_⟩
  have hnone : ∀ p, sourced r.state source p = none := fun p => by simp [sourced, hempty]
  rw [hordered.order.eq_of_empty hnone]

end Ordered

end Gran.Mesh
