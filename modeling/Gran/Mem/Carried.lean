import Gran.Foundations.Slots
import Gran.Mem.Layout

/-!
# Packets between elements and what connects them

The slots of a system are those of the bus or the mesh, here `B`, and the elements that have a
packet to send. `Carried` says that they hold exactly one packet for each unanswered request and
that the elements are those of the layout; the lemmas say what becomes of it when a packet moves
between slots of the bus or the mesh, or from or to an element.
-/

namespace Gran.Layout

variable {E C B : Type}

/-- The requesters that wait for an answer. -/
def waiting (elems : E → Element C) : Set (Option E) :=
  {o | ∃ e, o = some e ∧ (elems e).Unanswered}

/-- The slots of the bus or the mesh and those of the elements. -/
def net (inner : B → Option Packet) (elems : E → Element C) : Slots.Net (B ⊕ E) Packet (Option E) :=
  ⟨Sum.elim inner fun e => (elems e).held, waiting elems⟩

/-- Each packet is on its way for an unanswered request, and the elements are those of the layout,
the memories among them with a reply for the component at their port. -/
structure Carried (l : Layout E C) (port : E → C) (r : Slots.Routes (B ⊕ E) Packet (Option E))
    (inner : B → Option Packet) (elems : E → Element C) : Prop where
  owned : Slots.Owned r (net inner elems)
  role : ∀ e, (elems e).role = (l.created e).role
  port : ∀ e, (elems e).SendsTo (port e)

variable {l : Layout E C} {port : E → C} {r : Slots.Routes (B ⊕ E) Packet (Option E)}
  {inner : B → Option Packet} {elems : E → Element C} {b b' : B} {e : E} {pkt reply : Packet}

theorem Carried.isMem (h : Carried l port r inner elems) (e : E) :
    (elems e).isMem = (l.created e).isMem := by
  rw [Element.isMem_eq_role, Element.isMem_eq_role, h.role]

/-- Before anything was sent. -/
theorem carried_created (hfresh : ∀ e, (l.created e).Fresh) (hinner : ∀ b, inner b = none) :
    Carried l port r inner l.created := by
  have hnet : net inner l.created = ⟨fun _ => none, ∅⟩ := by
    have h1 : (Sum.elim inner fun e => (l.created e).held) = fun _ => none := by
      funext p
      cases p with
      | inl b => exact hinner b
      | inr e => exact (hfresh e).held
    have h2 : waiting l.created = ∅ := by
      ext o
      simp only [waiting, Set.mem_ofPred_eq, Set.mem_empty_iff_false, iff_false]
      rintro ⟨e, -, h⟩
      exact (hfresh e).not_unanswered h
    exact congrArg₂ Slots.Net.mk h1 h2
  exact ⟨hnet ▸ .empty, fun _ => rfl, fun e => (hfresh e).sendsTo⟩

variable [DecidableEq E]

theorem waiting_update {el : Element C} (hel : el.Unanswered ↔ (elems e).Unanswered) :
    waiting (Function.update elems e el) = waiting elems := by
  have hsame : ∀ e', (Function.update elems e el e').Unanswered ↔ (elems e').Unanswered := by
    intro e'
    by_cases he : e' = e
    · subst he
      simpa using hel
    · simp [he]
  simp only [waiting, hsame]

theorem waiting_idle :
    waiting (Function.update elems e (.requester .idle)) = waiting elems \ {some e} := by
  ext o
  simp only [waiting, Set.mem_ofPred_eq, Set.mem_sdiff, Set.mem_singleton_iff]
  constructor
  · rintro ⟨e', rfl, h⟩
    by_cases he : e' = e
    · subst he
      simp [Element.Unanswered] at h
    · exact ⟨⟨e', rfl, by simpa [he] using h⟩, by simpa using he⟩
  · rintro ⟨⟨e', rfl, h⟩, hne⟩
    exact ⟨e', rfl, by simpa [show e' ≠ e by simpa using hne] using h⟩

theorem waiting_refused :
    waiting (Function.update elems e (.requester (.refused pkt))) =
      insert (some e) (waiting elems) := by
  ext o
  simp only [waiting, Set.mem_insert_iff, Set.mem_ofPred_eq]
  constructor
  · rintro ⟨e', rfl, hun⟩
    by_cases he : e' = e
    · exact Or.inl (congrArg some he)
    · exact Or.inr ⟨e', rfl, by simpa [he] using hun⟩
  · rintro (rfl | ⟨e', rfl, hun⟩)
    · exact ⟨e, rfl, by rw [Function.update_self]; trivial⟩
    · refine ⟨e', rfl, ?_⟩
      by_cases he : e' = e
      · subst he
        rw [Function.update_self]
        trivial
      · simpa [he] using hun

variable [DecidableEq B]

/-- What the slots hold after an element changed. -/
theorem elim_update (inner : B → Option Packet) (elems : E → Element C) (e : E) (el : Element C) :
    (Sum.elim inner fun e' => (Function.update elems e el e').held) =
      Function.update (Sum.elim inner fun e' => (elems e').held) (.inr e) el.held := by
  funext p
  cases p with
  | inl b => simp
  | inr e' =>
      by_cases he : e' = e
      · subst he
        simp
      · simp [he]

/-- What the slots hold after one of the bus or the mesh changed. -/
theorem elim_inner (inner : B → Option Packet) (elems : E → Element C) (b : B) (v : Option Packet) :
    (Sum.elim (Function.update inner b v) fun e => (elems e).held) =
      Function.update (Sum.elim inner fun e => (elems e).held) (.inl b) v := by
  funext p
  cases p with
  | inl b' =>
      by_cases hb : b' = b
      · subst hb
        simp
      · simp [hb]
  | inr e => simp

omit [DecidableEq B] in
/-- An element may change as long as it keeps its role and its port. -/
theorem Carried.update (h : Carried l port r inner elems) {inner' : B → Option Packet}
    {el : Element C} (howned : Slots.Owned r (net inner' (Function.update elems e el)))
    (hrole : el.role = (l.created e).role) (hport : el.SendsTo (port e)) :
    Carried l port r inner' (Function.update elems e el) := by
  refine ⟨howned, fun e' => ?_, fun e' => ?_⟩ <;> by_cases he : e' = e
  · subst he
    simpa using hrole
  · simpa [he] using h.role e'
  · subst he
    simpa using hport
  · simpa [he] using h.port e'

/-- A requester makes a request, which it has to send from then on. -/
theorem Carried.refused (h : Carried l port r inner elems)
    (hidle : elems e = .requester .idle) (hok : r.ok (.inr e) pkt) (howner : r.owner pkt = some e) :
    Carried l port r inner (Function.update elems e (.requester (.refused pkt))) := by
  have hnet : net inner (Function.update elems e (.requester (.refused pkt))) =
      (net inner elems).enter (.inr e) pkt (r.owner pkt) := by
    have h1 := elim_update inner elems e (.requester (.refused pkt))
    rw [howner]
    exact congrArg₂ Slots.Net.mk h1 waiting_refused
  have hrole := h.role e
  rw [hidle] at hrole
  refine h.update (hnet ▸ h.owned.enter ?_ hok ?_) hrole trivial
  · show (elems e).held = none
    rw [hidle]
    rfl
  · rw [howner]
    rintro ⟨e', he', hun⟩
    obtain rfl := Option.some.inj he'
    rw [hidle] at hun
    exact hun

/-- The packet of an element is taken over. -/
theorem Carried.sent (h : Carried l port r inner elems) (hheld : (elems e).held = some pkt)
    (hhop : r.hop (.inr e) pkt (.inl b) reply) (hfree : inner b = none) :
    Carried l port r (Function.update inner b (some reply))
        (Function.update elems e (elems e).sent) ∧
      Slots.Move r (net inner elems) (net (Function.update inner b (some reply))
        (Function.update elems e (elems e).sent)) := by
  have hnet : net (Function.update inner b (some reply)) (Function.update elems e (elems e).sent) =
      (net inner elems).hop (.inr e) (.inl b) reply := by
    have h1 : (Sum.elim (Function.update inner b (some reply)) fun e' =>
        (Function.update elems e (elems e).sent e').held) =
          Function.update (Function.update (Sum.elim inner fun e => (elems e).held) (.inr e) none)
            (.inl b) (some reply) := by
      rw [elim_update, elim_inner, Element.held_sent]
      exact Function.update_comm (by simp) _ _ _
    exact congrArg₂ Slots.Net.mk h1
      (waiting_update (Element.unanswered_sent (by rw [hheld]; simp)))
  have hmove : Slots.Move r (net inner elems) ((net inner elems).hop (.inr e) (.inl b) reply) :=
    .hop hheld hhop hfree
  rw [← hnet] at hmove
  exact ⟨h.update (hmove.owned h.owned) (Element.role_sent.trans (h.role e)) Element.sendsTo_sent,
    hmove⟩

/-- A free memory takes a request and has the reply to send. -/
theorem Carried.served (h : Carried l port r inner elems) (hheld : inner b = some pkt)
    (hfree : (elems e).held = none) (hmem : (l.created e).isMem = true) {el : Element C}
    (hel : el.held = some reply) (hrole : el.role = (l.created e).role)
    (hport : el.SendsTo (port e)) (hhop : r.hop (.inl b) pkt (.inr e) reply) :
    Carried l port r (Function.update inner b none) (Function.update elems e el) ∧
      Slots.Move r (net inner elems)
        (net (Function.update inner b none) (Function.update elems e el)) := by
  have hnet : net (Function.update inner b none) (Function.update elems e el) =
      (net inner elems).hop (.inl b) (.inr e) reply := by
    have h1 : (Sum.elim (Function.update inner b none) fun e' =>
        (Function.update elems e el e').held) =
          Function.update (Function.update (Sum.elim inner fun e => (elems e).held) (.inl b) none)
            (.inr e) (some reply) := by
      rw [elim_update, elim_inner, hel]
    have hmem' : el.isMem = true := by
      rw [Element.isMem_eq_role, hrole, ← Element.isMem_eq_role]
      exact hmem
    have hwas : (elems e).isMem = true := (h.isMem e).trans hmem
    exact congrArg₂ Slots.Net.mk h1 (waiting_update
      (iff_of_false (Element.not_unanswered_mem hmem') (Element.not_unanswered_mem hwas)))
  have hmove : Slots.Move r (net inner elems) ((net inner elems).hop (.inl b) (.inr e) reply) :=
    .hop hheld hhop hfree
  rw [← hnet] at hmove
  exact ⟨h.update (hmove.owned h.owned) hrole hport, hmove⟩

/-- A requester takes a reply and waits no longer. -/
theorem Carried.answered (h : Carried l port r inner elems) (hheld : inner b = some pkt)
    (hmem : (l.created e).isMem = false) (howner : r.owner pkt = some e)
    (hlast : r.last (.inl b) pkt) (hown : ∀ pkt, r.ok (.inr e) pkt → r.owner pkt = some e) :
    Carried l port r (Function.update inner b none)
        (Function.update elems e (.requester .idle)) ∧
      Slots.Move r (net inner elems)
        (net (Function.update inner b none) (Function.update elems e (.requester .idle))) := by
  -- the requester has nothing else to send
  have hnone : (elems e).held = none := by
    by_contra hne
    obtain ⟨other, hother⟩ := Option.ne_none_iff_exists'.1 hne
    have hok := h.owned.ok (p := .inr e) hother
    have := h.owned.unique (p := .inl b) hheld (q := .inr e) hother
      (howner.trans (hown other hok).symm)
    cases this
  have hnet : net (Function.update inner b none) (Function.update elems e (.requester .idle)) =
      (net inner elems).leave (.inl b) (r.owner pkt) := by
    have h1 : (Sum.elim (Function.update inner b none) fun e' =>
        (Function.update elems e (.requester .idle) e').held) =
          Function.update (Sum.elim inner fun e => (elems e).held) (.inl b) none := by
      rw [elim_update, elim_inner]
      refine Function.update_eq_iff.2 ⟨?_, fun p hp => rfl⟩
      rw [Function.update_of_ne (by simp)]
      exact hnone.symm
    rw [howner]
    exact congrArg₂ Slots.Net.mk h1 waiting_idle
  have hmove : Slots.Move r (net inner elems) ((net inner elems).leave (.inl b) (r.owner pkt)) :=
    .leave hheld hlast
  rw [← hnet] at hmove
  have hrole : (Element.requester .idle : Element C).role = (l.created e).role := by
    rw [Element.isMem_eq_role] at hmem
    exact (Option.isNone_iff_eq_none.1 (by simpa using hmem)).symm
  exact ⟨h.update (hmove.owned h.owned) hrole trivial, hmove⟩

/-- A packet moves on inside of the bus or the mesh. -/
theorem Carried.moved (h : Carried l port r inner elems) (hheld : inner b = some pkt)
    (hhop : r.hop (.inl b) pkt (.inl b') reply) (hfree : inner b' = none) :
    Carried l port r (Function.update (Function.update inner b none) b' (some reply)) elems ∧
      Slots.Move r (net inner elems)
        (net (Function.update (Function.update inner b none) b' (some reply)) elems) := by
  have hnet : net (Function.update (Function.update inner b none) b' (some reply)) elems =
      (net inner elems).hop (.inl b) (.inl b') reply := by
    have h1 : (Sum.elim (Function.update (Function.update inner b none) b' (some reply)) fun e =>
        (elems e).held) =
          Function.update (Function.update (Sum.elim inner fun e => (elems e).held) (.inl b) none)
            (.inl b') (some reply) := by
      rw [elim_inner, elim_inner]
    exact congrArg₂ Slots.Net.mk h1 rfl
  have hmove : Slots.Move r (net inner elems) ((net inner elems).hop (.inl b) (.inl b') reply) :=
    .hop hheld hhop hfree
  rw [← hnet] at hmove
  exact ⟨⟨hmove.owned h.owned, h.role, h.port⟩, hmove⟩

end Gran.Layout
