import Gran.Bus.SimpleBus
import Gran.Mem.Carried

/-!
# Packets on a simple bus

The bus, the requesters with a refused request and the memories with a reply are slots. Each clock
moves at most one packet between them, and every unanswered request is in one of them
(`busClock_spec`, `elemClock_spec`). A run never aborts, and it comes to hold a request for a memory
that holds a reply (`Crossed`) exactly when some clock lets such a request onto the bus.
-/

namespace Gran.BusSystem

open Layout

variable {E : Type} {sys : BusSystem E} {s s' : BusState E}

/-! ## The slots of a bus -/

/-- The bus, and the elements with a packet to send. -/
abbrev Slot (E : Type) := Unit ⊕ E

/-- Where the packets on a bus go. -/
inductive Hop (sys : BusSystem E) : Slot E → Packet → Slot E → Packet → Prop where
  | present {e pkt} (he : (sys.layout.created e).isMem = false) (b : E)
      (hmap : sys.layout.region pkt.dst = some b) : Hop sys (.inr e) pkt (.inl ()) pkt
  | unmapped {e pkt reply} (he : (sys.layout.created e).isMem = false)
      (hmap : sys.layout.region pkt.dst = none) (hsrc : reply.src = pkt.dst)
      (hdst : reply.dst = pkt.src) : Hop sys (.inr e) pkt (.inl ()) reply
  | serve {b pkt reply} (hb : (sys.layout.created b).isMem = true)
      (hmap : sys.layout.region pkt.dst = some b) (hsrc : reply.src = pkt.dst)
      (hdst : reply.dst = pkt.src) : Hop sys (.inl ()) pkt (.inr b) reply
  | reply {b pkt} (hb : (sys.layout.created b).isMem = true) : Hop sys (.inr b) pkt (.inl ()) pkt

/-- What each slot may hold. -/
def Placed (sys : BusSystem E) : Slot E → Packet → Prop
  | .inl _, pkt => (∃ e, sys.layout.requesterAt pkt.dst = some e) ∨
      ∃ e b, sys.layout.IsRequest e pkt ∧ sys.layout.region pkt.dst = some b
  | .inr e, pkt =>
      if (sys.layout.created e).isMem then ∃ a, sys.layout.requesterAt pkt.dst = some a
      else sys.layout.IsRequest e pkt

/-- The stages of a packet: at its requester, a request on the bus, a reply in a memory, a reply on
the bus. -/
def stage (sys : BusSystem E) : Slot E → Packet → Nat
  | .inl _, pkt => if (sys.layout.requesterAt pkt.dst).isSome then 1 else 3
  | .inr e, _ => if (sys.layout.created e).isMem then 2 else 4

/-- The slots of a bus as a net. -/
def routes (sys : BusSystem E) : Slots.Routes (Slot E) Packet (Option E) where
  hop := Hop sys
  last p pkt := p = .inl () ∧ ∃ e, sys.layout.requesterAt pkt.dst = some e
  owner := sys.layout.owner
  ok := Placed sys
  weight := stage sys
  ok_hop := by
    intro p x q y hok hhop
    cases hhop with
    | @present e pkt he b hmap =>
        have hreq : sys.layout.IsRequest e x := by simpa [Placed, he] using hok
        exact Or.inr ⟨e, b, hreq, hmap⟩
    | @unmapped e pkt reply he hmap hsrc hdst =>
        have hreq : sys.layout.IsRequest e x := by simpa [Placed, he] using hok
        exact Or.inl ⟨e, hdst ▸ hreq.src⟩
    | @serve b pkt reply hb hmap hsrc hdst =>
        rcases hok with ⟨e, he⟩ | ⟨e, b', hreq, -⟩
        · have := (requesterAt_eq_some.1 he)
          simp_all
        · simp only [Placed, hb, if_true]
          exact ⟨e, hdst ▸ hreq.src⟩
    | @reply b pkt hb => exact Or.inl (by simpa [Placed, hb] using hok)
  owner_hop := by
    intro p x q y hok hhop
    cases hhop with
    | present he b hmap => rfl
    | reply hb => rfl
    | @unmapped e pkt reply he hmap hsrc hdst =>
        have hreq : sys.layout.IsRequest e x := by simpa [Placed, he] using hok
        exact hreq.owner_reply hdst
    | @serve b pkt reply hb hmap hsrc hdst =>
        rcases hok with ⟨e, he⟩ | ⟨e, b', hreq, -⟩
        · have := (requesterAt_eq_some.1 he)
          simp_all
        · exact hreq.owner_reply hdst
  weight_hop := by
    intro p x q y hok hhop
    cases hhop with
    | present he b hmap =>
        simp only [stage, he]
        split <;> simp
    | @unmapped e pkt reply he hmap hsrc hdst =>
        simp only [stage, he]
        split <;> simp
    | @serve b pkt reply hb hmap hsrc hdst =>
        rcases hok with ⟨e, he⟩ | ⟨e, b', hreq, -⟩
        · have := (requesterAt_eq_some.1 he)
          simp_all
        · simp [stage, hb, hreq.dst]
    | @reply b pkt hb =>
        obtain ⟨e, he⟩ : ∃ e, sys.layout.requesterAt x.dst = some e := by
          simpa [Placed, hb] using hok
        simp [stage, hb, he]
  weight_pos := by
    intro p x _
    cases p <;> simp only [stage] <;> split <;> omega

/-- The packet on the bus. -/
def onBus (s : BusState E) : Unit → Option Packet :=
  fun _ => if s.bus.busy then some s.bus.pkt else none

/-- The net a state stands for: the packets held, and the requesters that wait. -/
def net (s : BusState E) : Slots.Net (Slot E) Packet (Option E) := Layout.net (onBus s) s.elems

/-- The bus holds a request for a memory that holds a reply. -/
def Crossed (sys : BusSystem E) (s : BusState E) : Prop :=
  s.bus.busy = true ∧ ∃ b, sys.layout.region s.bus.pkt.dst = some b ∧
    (sys.layout.created b).isMem = true ∧ (s.elems b).held ≠ none

/-- There is a packet for each unanswered request, and the one on the bus is for the component it is
addressed to. -/
structure Inv (sys : BusSystem E) (s : BusState E) : Prop where
  carried : Carried sys.layout (fun _ => ()) sys.routes (onBus s) s.elems
  send : s.bus.busy = true → s.bus.send = sys.layout.region s.bus.pkt.dst

theorem Inv.owned (h : sys.Inv s) : Slots.Owned sys.routes (net s) := h.carried.owned

theorem placed_owner {e : E} {pkt : Packet} (he : (sys.layout.created e).isMem = false)
    (hok : sys.routes.ok (.inr e) pkt) : sys.layout.IsRequest e pkt := by
  simpa [routes, Placed, he] using hok

theorem onBus_busy (hbusy : s.bus.busy = true) : onBus s () = some s.bus.pkt := by
  simp [onBus, hbusy]

theorem onBus_update {bus : SimpleBus E} {elems : E → Element Unit} {v : Option Packet}
    (hbus : (if bus.busy then some bus.pkt else none) = v) :
    onBus ⟨bus, elems⟩ = Function.update (onBus s) () v := by
  funext u
  simp [onBus, hbus]

/-! ## The clock of the bus -/

variable [DecidableEq E]

/-- The requester of a reply accepts it and waits no longer. -/
theorem busClock_reply (h : sys.Inv s) (hbusy : s.bus.busy = true) {e : E}
    (he : sys.layout.requesterAt s.bus.pkt.dst = some e) :
    ∃ s', busClock s = some s' ∧ sys.Inv s' ∧ ¬ sys.Crossed s ∧ s'.bus.busy = false ∧
      Slots.Move sys.routes (net s) (net s') := by
  obtain ⟨hregion, hmem⟩ := requesterAt_eq_some.1 he
  have hsend : s.bus.send = some e := (h.send hbusy).trans hregion
  have hwas : (s.elems e).isMem = false := (h.carried.isMem e).trans hmem
  obtain ⟨hcarried, hmove⟩ := h.carried.answered (onBus_busy hbusy) hmem
    (owner_reply he : sys.routes.owner s.bus.pkt = some e) ⟨rfl, e, he⟩
    (fun pkt hok => (placed_owner hmem hok).owner)
  let s' : BusState E :=
    ⟨{ s.bus with busy := false }, Function.update s.elems e (.requester .idle)⟩
  have hbus : onBus s' = Function.update (onBus s) () none := onBus_update rfl
  rw [← hbus] at hcarried hmove
  refine ⟨s', ?_, ⟨hcarried, (nomatch ·)⟩, ?_, rfl, hmove⟩
  · simp [busClock, hbusy, send, hsend, Element.receive_requester hwas, s']
  · rintro ⟨-, b, hb, hbmem, -⟩
    rw [hregion, Option.some.injEq] at hb
    subst hb
    rw [hmem] at hbmem
    cases hbmem

/-- A free memory accepts the request for it and has the reply from then on. -/
theorem busClock_request (h : sys.Inv s) (hbusy : s.bus.busy = true) {e b : E}
    (hreq : sys.layout.IsRequest e s.bus.pkt) (hb : sys.layout.region s.bus.pkt.dst = some b)
    (hfree : (s.elems b).held = none) :
    ∃ s', busClock s = some s' ∧ sys.Inv s' ∧ ¬ sys.Crossed s ∧ s'.bus.busy = false ∧
      Slots.Move sys.routes (net s) (net s') := by
  have hsend : s.bus.send = some b := (h.send hbusy).trans hb
  have hmem := hreq.mapped_mem hb
  obtain ⟨size, hsize, haccepts⟩ := hreq.mapped b hb
  obtain ⟨el, reply, hrec, hreply, hsrc, hdst, hrole, hport⟩ :=
    Element.receive_mem ((h.carried.role b).trans hsize) hfree haccepts
  obtain ⟨hcarried, hmove⟩ := h.carried.served (onBus_busy hbusy) hfree hmem hreply
    (hrole.trans hsize.symm) hport (Hop.serve hmem hb hsrc hdst)
  let s' : BusState E := ⟨{ s.bus with busy := false }, Function.update s.elems b el⟩
  have hbus : onBus s' = Function.update (onBus s) () none := onBus_update rfl
  rw [← hbus] at hcarried hmove
  refine ⟨s', ?_, ⟨hcarried, (nomatch ·)⟩, ?_, rfl, hmove⟩
  · simp [busClock, hbusy, send, hsend, hrec, s']
  · rintro ⟨-, b', hb', -, hne⟩
    rw [hb, Option.some.injEq] at hb'
    exact hne (hb' ▸ hfree)

/-- A clock of the bus does nothing if the bus is free or its request is held up, and moves one
packet on otherwise. -/
theorem busClock_spec (h : sys.Inv s) : ∃ s', busClock s = some s' ∧ sys.Inv s' ∧
    (s' = s ∧ (s.bus.busy = false ∨ sys.Crossed s) ∨
      ¬ sys.Crossed s ∧ s'.bus.busy = false ∧ Slots.Move sys.routes (net s) (net s')) := by
  cases hbusy : s.bus.busy with
  | false => exact ⟨s, by simp [busClock, hbusy], h, Or.inl ⟨rfl, Or.inl rfl⟩⟩
  | true =>
      have hok := h.owned.ok (p := .inl ()) (onBus_busy hbusy)
      rcases hok with ⟨e, he⟩ | ⟨e, b, hreq, hb⟩
      · obtain ⟨s', hclock, hinv, hmoved⟩ := busClock_reply h hbusy he
        exact ⟨s', hclock, hinv, Or.inr hmoved⟩
      · by_cases hfree : (s.elems b).held = none
        · obtain ⟨s', hclock, hinv, hmoved⟩ := busClock_request h hbusy hreq hb hfree
          exact ⟨s', hclock, hinv, Or.inr hmoved⟩
        · have hmem := hreq.mapped_mem hb
          have hrec : (s.elems b).receive () s.bus.pkt = some (.EBUSY, s.elems b) :=
            Element.receive_busy ((h.carried.isMem b).trans hmem) hfree
          have hsend : s.bus.send = some b := (h.send hbusy).trans hb
          refine ⟨s, ?_, h, Or.inl ⟨rfl, Or.inr ⟨hbusy, b, hb, hmem, hfree⟩⟩⟩
          simp [busClock, hbusy, send, hsend, hrec]

/-! ## The clock of an element -/

variable {new : E → Option Packet}

omit [DecidableEq E] in
theorem busReceive_busy (hbusy : s.bus.busy = true) (e : E) (pkt : Packet) :
    simpleBusReceive sys.regions s.bus e pkt = (.EBUSY, s.bus) := by
  simp [simpleBusReceive, hbusy]

omit [DecidableEq E] in
/-- A free bus takes every packet. A request to nowhere becomes its own reply. -/
theorem busReceive_free (hbusy : s.bus.busy = false) (e : E) (pkt : Packet) :
    simpleBusReceive sys.regions s.bus e pkt = (.OK,
      match sys.layout.region pkt.dst with
      | some b => ⟨some b, pkt, true⟩
      | none => ⟨some e, setFlags (response pkt) PACKET_ERROR, true⟩) := by
  simp only [simpleBusReceive, hbusy, layout, region, Bool.false_eq_true, if_false]
  cases findBusRegion sys.regions pkt.dst <;> rfl

/-- The packet an element sends moves onto the bus if that is free. -/
theorem elemClock_free (h : sys.Inv s) {e : E} {pkt : Packet} (hheld : (s.elems e).held = some pkt)
    (hfree : s.bus.busy = false) (req : Option Packet) :
    ∃ s', sys.elemClock req e s = some s' ∧ sys.Inv s' ∧
      Slots.Move sys.routes (net s) (net s') ∧ s'.bus.busy = true ∧
      Hop sys (.inr e) pkt (.inl ()) s'.bus.pkt ∧
      s'.elems = Function.update s.elems e (s.elems e).sent := by
  have hok := h.owned.ok (p := .inr e) hheld
  have hnone : onBus s () = none := by simp [onBus, hfree]
  -- what all ways onto the bus have in common
  have hsent : ∀ bus : SimpleBus E, simpleBusReceive sys.regions s.bus e pkt = (.OK, bus) →
      bus.busy = true → bus.send = sys.layout.region bus.pkt.dst →
      Hop sys (.inr e) pkt (.inl ()) bus.pkt →
      ∃ s', sys.elemClock req e s = some s' ∧ sys.Inv s' ∧
        Slots.Move sys.routes (net s) (net s') ∧ s'.bus.busy = true ∧
        Hop sys (.inr e) pkt (.inl ()) s'.bus.pkt ∧
        s'.elems = Function.update s.elems e (s.elems e).sent := by
    intro bus hbus hbusy hsend hhop
    let s' : BusState E := ⟨bus, Function.update s.elems e (s.elems e).sent⟩
    have hclock : sys.elemClock req e s = some s' := by
      simp [elemClock, Element.clock_held hheld (h.carried.port e), hbus, s']
    obtain ⟨hcarried, hmove⟩ := h.carried.sent hheld hhop hnone
    have hupd : onBus s' = Function.update (onBus s) () (some bus.pkt) :=
      onBus_update (by rw [hbusy, if_pos rfl])
    rw [← hupd] at hcarried hmove
    exact ⟨s', hclock, ⟨hcarried, fun _ => hsend⟩, hmove, hbusy, hhop, rfl⟩
  have hbus : simpleBusReceive sys.regions s.bus e pkt = _ := busReceive_free hfree e pkt
  cases hmem : (sys.layout.created e).isMem with
  | true =>
      obtain ⟨a, ha⟩ : ∃ a, sys.layout.requesterAt pkt.dst = some a := by
        simpa [routes, Placed, hmem] using hok
      have hregion := (requesterAt_eq_some.1 ha).1
      rw [hregion] at hbus
      exact hsent _ hbus rfl hregion.symm (.reply hmem)
  | false =>
      have hreq := placed_owner hmem hok
      cases hregion : sys.layout.region pkt.dst with
      | some b =>
          rw [hregion] at hbus
          exact hsent _ hbus rfl hregion.symm (.present hmem b hregion)
      | none =>
          rw [hregion] at hbus
          exact hsent _ hbus rfl hreq.reply.symm (.unmapped hmem hregion rfl rfl)

omit [DecidableEq E] in
/-- A memory presents nothing at its clock. -/
theorem presented_mem {e : E} (hrole : (s.elems e).isMem = true) :
    presented new s (.elem e) = none := by
  cases hel : s.elems e with
  | requester r => rw [hel] at hrole; cases hrole
  | mem m => simp [presented, hel]

omit [DecidableEq E] in
/-- A requester that holds a request presents it at its clock. -/
theorem presented_requester {e : E} {pkt : Packet} (hrole : (s.elems e).isMem = false)
    (hheld : (s.elems e).held = some pkt) : presented new s (.elem e) = some pkt := by
  cases hel : s.elems e with
  | mem m => rw [hel] at hrole; cases hrole
  | requester r =>
      cases r with
      | refused p => simpa [presented, hel, Element.held] using hheld
      | idle => simp [hel, Element.held] at hheld
      | waiting => simp [hel, Element.held] at hheld

/-- The clock that puts a packet onto the bus crosses it exactly when it was not admitted. -/
theorem crossed_sent (h : sys.Inv s) {e : E} {pkt : Packet} (hheld : (s.elems e).held = some pkt)
    (hfree : s.bus.busy = false) (hbusy : s'.bus.busy = true)
    (hhop : Hop sys (.inr e) pkt (.inl ()) s'.bus.pkt)
    (helems : s'.elems = Function.update s.elems e (s.elems e).sent) :
    sys.Crossed s' ↔ ¬ sys.Admitted new s (.elem e) := by
  have hok := h.owned.ok (p := .inr e) hheld
  -- a packet for a requester, and one that is not presented, crosses nothing
  have hreply : ∀ a, sys.layout.requesterAt s'.bus.pkt.dst = some a → ¬ sys.Crossed s' := by
    rintro a ha ⟨-, b, hb, hmem, -⟩
    obtain ⟨hregion, hnot⟩ := requesterAt_eq_some.1 ha
    rw [hb, Option.some.injEq] at hregion
    rw [hregion, hnot] at hmem
    cases hmem
  generalize hsent : s'.bus.pkt = sent at hhop
  rw [hsent] at hreply
  cases hhop with
  | @reply _ _ hb =>
      obtain ⟨a, ha⟩ : ∃ a, sys.layout.requesterAt pkt.dst = some a := by
        simpa [routes, Placed, hb] using hok
      refine iff_of_false (hreply a ha) (not_not_intro fun pkt' b hpres => ?_)
      rw [presented_mem ((h.carried.isMem e).trans hb)] at hpres
      cases hpres
  | @unmapped _ _ _ he hmap hsrc hdst =>
      have hreq : sys.layout.IsRequest e pkt := by simpa [routes, Placed, he] using hok
      refine iff_of_false (hreply e (hdst ▸ hreq.src)) (not_not_intro fun pkt' b hpres _ hb => ?_)
      rw [presented_requester ((h.carried.isMem e).trans he) hheld, Option.some.injEq] at hpres
      rw [← hpres, hmap] at hb
      cases hb
  | @present _ _ he b hmap =>
      have hreq : sys.layout.IsRequest e pkt := by simpa [routes, Placed, he] using hok
      have hmem := hreq.mapped_mem hmap
      have hbe : b ≠ e := by
        rintro rfl
        rw [he] at hmem
        cases hmem
      have hb : s'.elems b = s.elems b := by rw [helems, Function.update_of_ne hbe]
      have hpres : presented new s (.elem e) = some pkt :=
        presented_requester ((h.carried.isMem e).trans he) hheld
      constructor
      · rintro ⟨-, b', hb', -, hne⟩ hadm
        rw [hsent, hmap, Option.some.injEq] at hb'
        subst hb'
        exact hne (hb ▸ hadm pkt b hpres hfree hmap)
      · intro hcross
        refine ⟨hbusy, b, hsent ▸ hmap, hmem, fun hnone => hcross ?_⟩
        intro pkt' b' hpres' _ hb'
        rw [hpres, Option.some.injEq] at hpres'
        rw [← hpres', hmap, Option.some.injEq] at hb'
        rw [← hb', ← hb]
        exact hnone

/-- A clock of an element that makes no new request does nothing if the element has nothing to send
or the bus is busy, and moves its packet onto the bus otherwise. -/
theorem elemClock_spec (new : E → Option Packet) (h : sys.Inv s) (e : E)
    (hnew : s.elems e = .requester .idle → new e = none) :
    ∃ s', sys.clock new s (.elem e) = some s' ∧ sys.Inv s' ∧
      (s' = s ∧ ((s.elems e).held = none ∨ s.bus.busy = true) ∨
        s.bus.busy = false ∧ Slots.Move sys.routes (net s) (net s')) ∧
      (sys.Crossed s' ↔ sys.Crossed s ∨ ¬ sys.Admitted new s (.elem e)) := by
  have hstay : sys.elemClock (new e) e s = some s →
      ((s.elems e).held = none ∨ s.bus.busy = true) → sys.Admitted new s (.elem e) →
      ∃ s', sys.clock new s (.elem e) = some s' ∧ sys.Inv s' ∧
        (s' = s ∧ ((s.elems e).held = none ∨ s.bus.busy = true) ∨
          s.bus.busy = false ∧ Slots.Move sys.routes (net s) (net s')) ∧
        (sys.Crossed s' ↔ sys.Crossed s ∨ ¬ sys.Admitted new s (.elem e)) :=
    fun hclock hwhy hadm => ⟨s, hclock, h, Or.inl ⟨rfl, hwhy⟩, by simp [hadm]⟩
  cases hheld : (s.elems e).held with
  | none =>
      refine hheld ▸ hstay ?_ (Or.inl hheld) ?_
      · simp [elemClock, Element.clock_none hheld hnew]
      · intro pkt b hpres
        simp only [presented] at hpres
        split at hpres
        · rename_i hidle
          rw [hnew hidle] at hpres
          cases hpres
        · rename_i hrefused
          rw [hrefused] at hheld
          cases hheld
        · cases hpres
  | some pkt =>
      cases hbusy : s.bus.busy with
      | true =>
          refine hheld ▸ hbusy ▸ hstay ?_ (Or.inr hbusy) ?_
          · simp [elemClock, Element.clock_held hheld (h.carried.port e), busReceive_busy hbusy]
          · intro pkt b _ hfree
            rw [hbusy] at hfree
            cases hfree
      | false =>
          obtain ⟨s', hclock, hinv, hmove, hbusy', hhop, helems⟩ :=
            elemClock_free h hheld hbusy (new e)
          have hwas : ¬ sys.Crossed s := fun hc => by simp [hc.1] at hbusy
          exact ⟨s', hclock, hinv, Or.inr ⟨rfl, hmove⟩,
            (crossed_sent h hheld hbusy hbusy' hhop helems).trans (or_iff_right hwas).symm⟩

/-- A requester that makes a request is clocked as if that had been refused before. -/
theorem clock_refused (h : sys.Inv s) {e : E} {pkt : Packet} (hidle : s.elems e = .requester .idle)
    (hnew : new e = some pkt) (hreq : sys.layout.IsRequest e pkt) :
    ∃ t, sys.Inv t ∧ t.elems e = .requester (.refused pkt) ∧
      sys.clock new s (.elem e) = sys.clock new t (.elem e) ∧
      (sys.Crossed t ↔ sys.Crossed s) ∧
      (sys.Admitted new t (.elem e) ↔ sys.Admitted new s (.elem e)) := by
  let t : BusState E := ⟨s.bus, Function.update s.elems e (.requester (.refused pkt))⟩
  have hte : t.elems e = .requester (.refused pkt) := by simp [t]
  have hother : ∀ b, (sys.layout.created b).isMem = true → t.elems b = s.elems b := by
    intro b hb
    have hbe : b ≠ e := by
      rintro rfl
      rw [hreq.isMem] at hb
      cases hb
    simp [t, hbe]
  have hok : sys.routes.ok (.inr e) pkt := by
    simpa [routes, Placed, hreq.isMem] using hreq
  have hcarried := h.carried.refused hidle hok (hreq.owner : sys.routes.owner pkt = some e)
  refine ⟨t, ⟨hcarried, h.send⟩, hte, ?_, ?_, ?_⟩
  · simp [clock, elemClock, hidle, hnew, Element.clock, Requester.clock, t]
  · refine and_congr Iff.rfl (exists_congr fun b => and_congr Iff.rfl ?_)
    exact and_congr_right fun hb => by rw [hother b hb]
  · have hpres : presented new t (.elem e) = presented new s (.elem e) := by
      simp [presented, hte, hidle, hnew]
    refine forall_congr' fun pkt' => forall_congr' fun b => ?_
    rw [hpres]
    refine imp_congr_right fun hp => imp_congr_right fun _ => imp_congr_right fun hb => ?_
    have hpkt : pkt' = pkt := by simpa [presented, hidle, hnew, eq_comm] using hp
    rw [hother b (hreq.mapped_mem (hpkt ▸ hb))]

/-- A clock never aborts, and crosses the bus exactly when it was not admitted. -/
theorem clock_spec (hnew : sys.Valid new) (h : sys.Inv s) (c : BusComp E) :
    ∃ s', sys.clock new s c = some s' ∧ sys.Inv s' ∧
      (sys.Crossed s' ↔ sys.Crossed s ∨ ¬ sys.Admitted new s c) := by
  cases c with
  | bus =>
      have hadm : sys.Admitted new s .bus := by
        intro pkt b hpres
        cases hpres
      obtain ⟨s', hclock, hinv, ⟨rfl, -⟩ | ⟨hwas, hfree, -⟩⟩ := busClock_spec h
      · exact ⟨s', hclock, hinv, by simp [hadm]⟩
      · refine ⟨s', hclock, hinv, iff_of_false (fun hc => ?_) (by simp [hwas, hadm])⟩
        exact Bool.false_ne_true (hfree.symm.trans hc.1)
  | elem e =>
      by_cases hidle : s.elems e = .requester .idle ∧ new e ≠ none
      · obtain ⟨hidle, hsome⟩ := hidle
        obtain ⟨pkt, hpkt⟩ := Option.ne_none_iff_exists'.1 hsome
        obtain ⟨t, ht, hte, hclock, hcross, hadm⟩ :=
          clock_refused h hidle hpkt (hnew e pkt hpkt)
        obtain ⟨s', hs', hinv, -, hc⟩ := elemClock_spec new ht e (by simp [hte])
        exact ⟨s', hclock.trans hs', hinv, by rw [hc, hcross, hadm]⟩
      · have hnone : s.elems e = .requester .idle → new e = none :=
          fun hi => not_not.1 fun hne => hidle ⟨hi, hne⟩
        obtain ⟨s', hs', hinv, -, hc⟩ := elemClock_spec new h e hnone
        exact ⟨s', hs', hinv, hc⟩

/-! ## Runs -/

omit [DecidableEq E] in
theorem inv_init : sys.Inv sys.init :=
  ⟨carried_created sys.fresh (fun _ => rfl), (nomatch ·)⟩

/-- A run never aborts, and ends crossed exactly when some clock of it was not admitted. -/
theorem run_spec {news : List (E → Option Packet)} (hnews : ∀ new ∈ news, sys.Valid new) :
    ∃ s, sys.run news = some s ∧ sys.Inv s ∧ (sys.Crossed s ↔ ¬ sys.RunAdmitted news) := by
  obtain ⟨s, hs, hinv, hcross⟩ := Fold.foldlM_along (f := sys.tick) sys.Inv sys.Crossed
    (fun s new => Fold.Along (sys.clock new) (sys.Admitted new) sys.order s)
    (fun s new hmem h => Fold.foldlM_along sys.Inv sys.Crossed (sys.Admitted new)
      (fun t c _ ht => clock_spec (hnews new hmem) ht c) h) inv_init
  refine ⟨s, hs, hinv, hcross.trans (or_iff_right fun hc => ?_)⟩
  exact Bool.false_ne_true hc.1

end Gran.BusSystem
