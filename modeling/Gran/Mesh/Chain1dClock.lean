import Gran.Mesh.Chain1dInvariant

/-!
# Clocks of a chain

Each step of a clock either finds the packet it is about held up, by a packet that blocks it, or
moves one packet that nothing blocks. So a circle of packets that wait for each other stays, and
without new requests everything else comes closer to where it goes.
-/

namespace Gran.Chain1d

open Mesh Layout Node1d

variable {ch : Chain1d} {s s' : State ch}

/-- The slots of a chain with its requesters. -/
def net (s : State ch) : Slots.Net (Slot ch) Packet (Option ch.Elem) :=
  Layout.net (Mesh.held s.mesh) s.elements

theorem net_held (s : State ch) : (net s).held = held s := by
  funext p
  cases p <;> rfl

/-- There is a packet for each unanswered request. -/
def Inv (s : State ch) : Prop :=
  Carried ch.layout (fun e => e.1) ch.routes (Mesh.held s.mesh) s.elements

theorem Inv.owned (h : Inv s) : Slots.Owned ch.routes (net s) := Carried.owned h

theorem Inv.placed (h : Inv s) {p : Slot ch} {x : Packet} (hp : held s p = some x) :
    ch.Placed p x := h.owned.ok (by rw [net_held]; exact hp)

theorem inv_init : Inv ch.init :=
  carried_created ch.fresh fun p => by rcases p with ⟨c, p⟩ | ⟨c, p⟩ <;> rfl

/-- The packet of a slot is not there or cannot move. -/
def HeldUp (s : State ch) (p : Slot ch) : Prop :=
  held s p = none ∨ ∃ q, Blocks s p q ∧ held s q ≠ none

/-- One packet moved, and nothing blocked it. -/
def Moved (s s' : State ch) : Prop :=
  ∃ p, (∀ q, Blocks s p q → held s q = none) ∧ held s p ≠ none ∧ held s' p = none ∧
    Slots.Move ch.routes (net s) (net s')

/-! ## Receiving -/

/-- A node puts a packet into the input of the port it finds, unless that is busy. -/
theorem receive_find (mesh : MeshState ch.mesh) {c : ch.Node} {sender : Comp ch.Node}
    {p : Port Dir1 (ch.mesh.elems c)} (pkt : Packet)
    (hfind : (ch.mesh.portList c).find? (fun q => ch.mesh.ports c q = some sender) = some p) :
    ∃ pkt', Restamped pkt pkt' ∧ receive mesh c sender pkt =
      some (if ((mesh.nodes c).inp p).busy then (.EBUSY, mesh)
        else (.OK, setInp mesh c p ⟨pkt', true⟩)) := by
  obtain ⟨pkt', harrive, hpkt'⟩ :=
    arrive_find hfind
  refine ⟨pkt', hpkt', ?_⟩
  have harrive' : ch.mesh.arrive (ch.mesh.ports c) sender (mesh.nodes c).timestamp pkt
      (ch.mesh.portList c) = some (p, pkt') := harrive
  simp only [receive, harrive', placeReg, Option.bind_eq_bind, Option.bind_some]
  split <;> simp

/-! ## The outputs of a node -/

theorem held_out {mesh : MeshState ch.mesh} {c : ch.Node} {p : Port Dir1 (ch.mesh.elems c)}
    (hbusy : ((mesh.nodes c).out p).busy = true) :
    Mesh.held mesh (outAt c p) = some ((mesh.nodes c).out p).pkt := by
  simp [held_outAt, Reg.held, hbusy]

/-- A packet in a directional output moves to the neighbour if that has room for it. -/
theorem clockOutput_link (h : Inv s) {c : ch.Node} {d : Dir1}
    (hbusy : ((s.mesh.nodes c).out (.dir d)).busy = true) :
    ∃ s', clockOutput c s (.dir d) = some s' ∧ Inv s' ∧
      (s' = s ∧ HeldUp s (.inl (outAt c (.dir d))) ∨ Moved s s') := by
  have hheld := held_out hbusy
  obtain ⟨htravels, hwants⟩ := h.placed (p := .inl (outAt c (.dir d))) hheld
  obtain ⟨c', hlink, -⟩ := exists_link htravels hwants
  have hport : ch.mesh.ports c (.dir d) = some (.node c') := congrArg (Option.map Comp.node) hlink
  obtain ⟨pkt', hpkt', hreceive⟩ := receive_find s.mesh
    ((s.mesh.nodes c).out (.dir d)).pkt (find_node ch.wiring hlink)
  cases hin : ((s.mesh.nodes c').inp (.dir (opp d))).busy with
  | true =>
      refine ⟨s, ?_, h, Or.inl ⟨rfl, Or.inr ⟨.inl (inpAt c' (.dir (opp d))), .link hlink, ?_⟩⟩⟩
      · have hin' : ((s.mesh.nodes c').inp (.dir (ch.wiring.opp d))).busy = true := hin
        simp [clockOutput, hbusy, send, hport, hreceive, hin']
      · simp [held, held_inpAt, Reg.held, hin]
  | false =>
      have hfree : Mesh.held s.mesh (inpAt c' (.dir (opp d))) = none := by
        simp [held_inpAt, Reg.held, hin]
      let sent := setInp s.mesh c' (.dir (opp d)) ⟨pkt', true⟩
      let mesh := setOut sent c (.dir d) { (sent.nodes c).out (.dir d) with busy := false }
      have hmesh : Mesh.held mesh = Function.update
          (Function.update (Mesh.held s.mesh) (outAt c (.dir d)) none)
          (inpAt c' (.dir (opp d))) (some pkt') := by
        simp only [mesh, sent, held_setOut, held_setInp, Reg.held_mk_true, Reg.held_mk_false]
        exact Function.update_comm (by simp) _ _ _
      have hcarried := Carried.moved h hheld (Hop.link hlink hpkt') hfree
      rw [← hmesh] at hcarried
      refine ⟨{ s with mesh }, ?_, hcarried.1,
        Or.inr ⟨.inl (outAt c (.dir d)), ?_, ?_, ?_, hcarried.2⟩⟩
      · have hin' : ((s.mesh.nodes c').inp (.dir (ch.wiring.opp d))).busy = false := hin
        simp only [clockOutput, hbusy, if_true, send, hport, hreceive, hin']
        rfl
      · intro q hq
        cases hq with
        | link hlink' =>
            obtain rfl := Option.some.inj (hlink'.symm.trans hlink)
            exact hfree
      · rw [show held s (.inl (outAt c (.dir d))) = _ from hheld]
        simp
      · show Mesh.held mesh (outAt c (.dir d)) = none
        rw [hmesh, Function.update_of_ne (by simp), Function.update_self]

theorem send_elem (c : ch.Node) (i : Fin (ch.elems c).toNat) (pkt : Packet) :
    send s c (.elem i) pkt = ((s.elements ⟨c, i⟩).receive c pkt).map fun (ret, el) =>
      (ret, { s with elements := Function.update s.elements ⟨c, i⟩ el }) := by
  have hport : ch.mesh.ports c (.elem i) = some (.elem c i) := rfl
  simp only [send, hport]
  rw [dif_pos i.isLt]
  cases (s.elements ⟨c, i⟩).receive c pkt <;> rfl

/-- A packet in an element output moves to the element: a requester takes its reply, a free memory
the request for it. -/
theorem clockOutput_elem (h : Inv s) {c : ch.Node} {i : Fin (ch.elems c).toNat}
    (hbusy : ((s.mesh.nodes c).out (.elem i)).busy = true) :
    ∃ s', clockOutput c s (.elem i) = some s' ∧ Inv s' ∧
      (s' = s ∧ HeldUp s (.inl (outAt c (.elem i))) ∨ Moved s s') := by
  have hheld := held_out hbusy
  obtain ⟨htravels, hwants⟩ := h.placed (p := .inl (outAt c (.elem i))) hheld
  have hregion := wants_elem.1 hwants
  let mesh := setOut s.mesh c (.elem i) { (s.mesh.nodes c).out (.elem i) with busy := false }
  have hmesh : Mesh.held mesh = Function.update (Mesh.held s.mesh) (outAt c (.elem i)) none := by
    simp only [mesh, held_setOut, Reg.held_mk_false]
  have hgone : Mesh.held mesh (outAt c (.elem i)) = none := by rw [hmesh, Function.update_self]
  have hsome : held s (.inl (outAt c (.elem i))) ≠ none := by
    rw [show held s (.inl (outAt c (.elem i))) = _ from hheld]
    simp
  cases hmem : (ch.layout.created ⟨c, i⟩).isMem with
  | false =>
      have hrequester :
          ch.layout.requesterAt ((s.mesh.nodes c).out (.elem i)).pkt.dst = some ⟨c, i⟩ :=
        requesterAt_eq_some.2 ⟨hregion, hmem⟩
      have hcarried := Carried.answered h hheld hmem
        (owner_reply hrequester : ch.routes.owner _ = some _) ⟨c, i, rfl, hrequester⟩
        (fun pkt hok => by
          have hreq : ch.layout.IsRequest ⟨c, i⟩ pkt ∧ ch.layout.region pkt.dst ≠ none := by
            simpa [routes, Placed, hmem] using hok
          exact hreq.1.owner)
      rw [← hmesh] at hcarried
      refine ⟨⟨mesh, _⟩, ?_, hcarried.1, Or.inr ⟨.inl (outAt c (.elem i)), ?_, hsome, hgone,
        hcarried.2⟩⟩
      · have hreceive : (s.elements ⟨c, i⟩).receive c ((s.mesh.nodes c).out (.elem i)).pkt =
            some (.OK, .requester .idle) :=
          Element.receive_requester ((h.isMem ⟨c, i⟩).trans hmem)
        simp only [clockOutput, hbusy, if_true, send_elem, hreceive]
        rfl
      · intro q hq
        cases hq with
        | mem hmem' =>
            rw [hmem] at hmem'
            cases hmem'
  | true =>
      obtain ⟨e, hreq⟩ := request_of_wants htravels hwants hmem
      obtain ⟨size, hsize, haccepts⟩ := hreq.mapped _ hregion
      have hwas : (s.elements ⟨c, i⟩).isMem = true := (h.isMem ⟨c, i⟩).trans hmem
      by_cases hfree : (s.elements ⟨c, i⟩).held = none
      · obtain ⟨el, reply, hreceive, hreply, hsrc, hdst, hrole, helport⟩ :=
          Element.receive_mem ((h.role ⟨c, i⟩).trans hsize) hfree haccepts
        have hcarried := Carried.served h hheld hfree hmem hreply (hrole.trans hsize.symm) helport
          (Hop.serve hmem hsrc hdst)
        rw [← hmesh] at hcarried
        refine ⟨⟨mesh, _⟩, ?_, hcarried.1, Or.inr ⟨.inl (outAt c (.elem i)), ?_, hsome, hgone,
          hcarried.2⟩⟩
        · simp only [clockOutput, hbusy, if_true, send_elem, hreceive]
          rfl
        · intro q hq
          cases hq with
          | mem _ => exact hfree
      · refine ⟨s, ?_, h, Or.inl ⟨rfl, Or.inr ⟨.inr ⟨c, i⟩, .mem hmem, hfree⟩⟩⟩
        have hreceive : (s.elements ⟨c, i⟩).receive c ((s.mesh.nodes c).out (.elem i)).pkt =
            some (.EBUSY, s.elements ⟨c, i⟩) := Element.receive_busy hwas hfree
        simp [clockOutput, hbusy, send_elem, hreceive]

theorem clockOutput_spec (h : Inv s) (c : ch.Node) (p : Port Dir1 (ch.mesh.elems c)) :
    ∃ s', clockOutput c s p = some s' ∧ Inv s' ∧
      (s' = s ∧ HeldUp s (.inl (outAt c p)) ∨ Moved s s') := by
  cases hbusy : ((s.mesh.nodes c).out p).busy with
  | false =>
      refine ⟨s, by simp [clockOutput, hbusy], h, Or.inl ⟨rfl, Or.inl ?_⟩⟩
      simp [held, held_outAt, Reg.held, hbusy]
  | true =>
      cases p with
      | elem i => exact clockOutput_elem h hbusy
      | dir d => exact clockOutput_link h hbusy

/-! ## The propagation of a node -/

/-- No packet in an element input of the node is older than the one in input `i`. -/
def Eldest (mesh : MeshState ch.mesh) (c : ch.Node) (i : Fin (ch.elems c).toNat) : Prop :=
  ∀ x, Mesh.held mesh (inpAt c (.elem i)) = some x → ∀ j y,
    Mesh.held mesh (inpAt c (.elem j)) = some y →
      ¬ (y.timestamp < x.timestamp ∨ y.timestamp = x.timestamp ∧ j < i)

/-- The element input a clock chooses is busy and eldest, and one is chosen if any is busy. -/
theorem oldestElem_eldest (mesh : MeshState ch.mesh) (c : ch.Node) :
    (∃ i, oldestElem (mesh.nodes c) = some (.elem i) ∧
        Mesh.held mesh (inpAt c (.elem i)) ≠ none ∧ Eldest mesh c i) ∨
      oldestElem (mesh.nodes c) = none ∧ ∀ i, Mesh.held mesh (inpAt c (.elem i)) = none := by
  cases hold : oldestElem (mesh.nodes c) with
  | none =>
      refine Or.inr ⟨rfl, fun i => ?_⟩
      have hnone := (oldest_none hold).2 (.elem i) (by simp)
      rw [held_inpAt, Reg.held_eq_none]
      cases hbusy : ((mesh.nodes c).inp (.elem i)).busy with
      | false => rfl
      | true => exact absurd (hnone hbusy) (by simp)
  | some q =>
      obtain h | ⟨hmem, hq, -⟩ := oldest_some hold
      · cases h
      obtain ⟨i, rfl⟩ : ∃ i, q = .elem i := by
        simp only [List.mem_map, List.mem_finRange, true_and, Option.some.injEq] at hmem
        obtain ⟨i, rfl⟩ := hmem
        exact ⟨i, rfl⟩
      refine Or.inl ⟨i, rfl, by simp [held_inpAt, Reg.held, hq], fun x hx j y hy => ?_⟩
      obtain ⟨-, rfl⟩ := Reg.held_eq_some.1 hx
      obtain ⟨hj, rfl⟩ := Reg.held_eq_some.1 hy
      -- the inputs are scanned in the order of their indices
      let before : Port Dir1 (ch.mesh.elems c) → Port Dir1 (ch.mesh.elems c) → Prop :=
        fun a b => ∃ i j, a = .elem i ∧ b = .elem j ∧ i < j
      have hbefore := oldest_le before (i := .elem j)
        (by
          rintro _ _ _ ⟨i, j, hi, hj, hij⟩ ⟨j', k, hj', hk, hjk⟩
          obtain rfl : j = j' := Port.elem.inj (hj.symm.trans hj')
          exact ⟨i, k, hi, hk, hij.trans hjk⟩)
        (by
          rw [List.pairwise_map]
          refine (List.pairwise_lt_finRange _).imp fun hab a b ha hb => ?_
          exact ⟨_, _, (Option.some.inj ha).symm, (Option.some.inj hb).symm, hab⟩)
        (fun _ _ h => by cases h) hold (Or.inr ⟨by simp, hj, rfl⟩)
      rintro (hlt | ⟨heq, hlt⟩)
      · exact hbefore.1 hlt
      · rcases hbefore.2 heq with he | ⟨a, b, ha, hb, hab⟩
        · exact absurd (Port.elem.inj he ▸ hlt) (lt_irrefl _)
        · rw [← Port.elem.inj ha, ← Port.elem.inj hb] at hab
          exact absurd (hab.trans hlt) (lt_irrefl _)

/-- What `propagate` calls of one clock leave alone: the elements, and the element inputs that they
do not empty. -/
structure Shrinks (c : ch.Node) (s s' : State ch) : Prop where
  elements : s'.elements = s.elements
  inputs : ∀ i x, Mesh.held s'.mesh (inpAt c (.elem i)) = some x →
    Mesh.held s.mesh (inpAt c (.elem i)) = some x

/-- The eldest input stays eldest when others are emptied. -/
theorem Eldest.shrinks {c : ch.Node} {i : Fin (ch.elems c).toNat} (h : Eldest s.mesh c i)
    (hs : Shrinks c s s') : Eldest s'.mesh c i :=
  fun x hx j y hy => h x (hs.inputs i x hx) j y (hs.inputs j y hy)

/-- A `propagate` call finds its output busy, or no candidate that is for it, or moves the packet of
a candidate. -/
theorem propagateTo_step (h : Inv s) (c : ch.Node) (r : Option (Port Dir1 (ch.mesh.elems c)))
    (hr : ∀ q, r = some q → ∃ i, q = .elem i ∧ Eldest s.mesh c i)
    (p : Port Dir1 (ch.mesh.elems c)) :
    ∃ mesh, propagateTo c r s.mesh p = some mesh ∧ Inv { s with mesh } ∧
      Shrinks c s { s with mesh } ∧
      (mesh = s.mesh ∧ (Mesh.held s.mesh (outAt c p) ≠ none ∨
          ∀ q, some q ∈ ch.mesh.candidates c r p → ∀ x, Mesh.held s.mesh (inpAt c q) = some x →
            ch.mesh.wants c p x = false) ∨
        Moved s { s with mesh }) := by
  obtain ⟨mesh, hprop, ⟨rfl, hstay⟩ | ⟨-, q, x, hmem, hx, hwants, hfree, hmesh⟩⟩ :=
    propagateTo_held (s := s.mesh) c r p
  · exact ⟨s.mesh, hprop, h, ⟨rfl, fun _ _ hx => hx⟩, Or.inl ⟨rfl, hstay⟩⟩
  · have hcarried := Carried.moved h hx (Hop.turn hwants) hfree
    rw [← hmesh] at hcarried
    have hgone : Mesh.held mesh (inpAt c q) = none := by
      rw [hmesh, Function.update_of_ne (by simp), Function.update_self]
    refine ⟨mesh, hprop, hcarried.1, ⟨rfl, fun i y hy => ?_⟩,
      Or.inr ⟨.inl (inpAt c q), fun q' hq' => ?_, ?_, hgone, hcarried.2⟩⟩
    · by_cases hqi : q = .elem i
      · rw [← hqi] at hy
        rw [show Mesh.held mesh (inpAt c q) = some y from hy] at hgone
        cases hgone
      · rw [← hy, show Mesh.held mesh (inpAt c (.elem i)) = _ from congrFun hmesh _,
          Function.update_of_ne (by simp), Function.update_of_ne]
        rintro he
        exact hqi (by simpa using (Sum.inl.inj he).symm)
    · -- the output it is for is free, and it is the eldest if it came from an element
      cases hq' with
      | wanted hp hwants' =>
          obtain rfl := Option.some.inj (hp.symm.trans hx)
          obtain rfl := wants_unique hwants' hwants
          exact hfree
      | @older _ i j x' y hi hj hold =>
          have hcand : r = some (.elem i) := by
            cases p <;> simp [candidates] at hmem <;> exact hmem.symm
          obtain ⟨i', hi', heldest⟩ := hr _ hcand
          obtain rfl := Port.elem.inj hi'
          exact absurd hold (heldest x' hi j y hj)
    · rw [show held s (.inl (inpAt c q)) = _ from hx]
      simp

/-! ## The clock of an element -/

/-- The packet an element has to send enters its node if the input has room. -/
theorem elemClock_spec (h : Inv s) (e : ch.Elem) (new : Option Packet)
    (hnew : s.elements e = .requester .idle → new = none) :
    ∃ s', elemClock new s e = some s' ∧ Inv s' ∧
      (s' = s ∧ HeldUp s (.inr e) ∨ Moved s s') := by
  cases hheld : (s.elements e).held with
  | none =>
      refine ⟨s, ?_, h, Or.inl ⟨rfl, Or.inl hheld⟩⟩
      simp [elemClock, Element.clock_none hheld hnew]
  | some pkt =>
      obtain ⟨pkt', hpkt', hreceive⟩ := receive_find s.mesh pkt
        (find_elem ch.wiring (c := e.1) (i := e.2) rfl)
      have hsome : held s (.inr e) ≠ none := by
        rw [show held s (.inr e) = _ from hheld]
        simp
      cases hin : ((s.mesh.nodes e.1).inp (.elem e.2)).busy with
      | true =>
          refine ⟨s, ?_, h, Or.inl ⟨rfl, Or.inr ⟨_, .elem e, ?_⟩⟩⟩
          · simp [elemClock, Element.clock_held hheld (h.port e), hreceive, hin]
          · simp [held, held_inpAt, Reg.held, hin]
      | false =>
          have hfree : Mesh.held s.mesh (inpAt e.1 (.elem e.2)) = none := by
            simp [held_inpAt, Reg.held, hin]
          let mesh := setInp s.mesh e.1 (.elem e.2) ⟨pkt', true⟩
          have hmesh : Mesh.held mesh =
              Function.update (Mesh.held s.mesh) (inpAt e.1 (.elem e.2)) (some pkt') := by
            simp only [mesh, held_setInp, Reg.held_mk_true]
          have hcarried := Carried.sent h hheld (Hop.enter hpkt') hfree
          rw [← hmesh] at hcarried
          refine ⟨⟨mesh, _⟩, ?_, hcarried.1, Or.inr ⟨.inr e, fun q hq => ?_, hsome, ?_,
            hcarried.2⟩⟩
          · simp only [elemClock, Element.clock_held hheld (h.port e), hreceive, hin]
            rfl
          · cases hq with
            | elem _ => exact hfree
          · show (Function.update s.elements e (s.elements e).sent e).held = none
            rw [Function.update_self, Element.held_sent]

end Gran.Chain1d
