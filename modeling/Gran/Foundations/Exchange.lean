import Mathlib.Data.List.Basic

/-!
# Requests and replies

A trace of a component that answers requests: it takes requests and sends replies, in the order of
the requests, and a reply that is refused is sent again. `exchanges` pairs the replies of a trace
with the requests they answer. A relation between the state of a machine and its unanswered requests
that every step keeps says what is paired in all runs (`run_exchanges`).
-/

namespace Gran.Exchange

universe u

variable {S E Req Rep : Type u}

/-- What a component does with requests and replies. -/
inductive Act (Req Rep : Type u) where
  | took (q : Req)
  | sent (r : Rep) (refused : Bool)

/-- The unanswered requests after a trace. -/
def unanswered : List Req → List (Act Req Rep) → List Req
  | qs, [] => qs
  | qs, .took q :: acts => unanswered (qs ++ [q]) acts
  | qs, .sent _ refused :: acts => unanswered (if refused then qs else qs.tail) acts

/-- The replies of a trace with the requests they answer, `none` for a reply to nothing. -/
def exchanges : List Req → List (Act Req Rep) → List (Option Req × Rep)
  | _, [] => []
  | qs, .took q :: acts => exchanges (qs ++ [q]) acts
  | qs, .sent r refused :: acts =>
      (qs.head?, r) :: exchanges (if refused then qs else qs.tail) acts

theorem unanswered_append (qs : List Req) (acts acts' : List (Act Req Rep)) :
    unanswered qs (acts ++ acts') = unanswered (unanswered qs acts) acts' := by
  induction acts generalizing qs with
  | nil => rfl
  | cons act acts ih =>
      cases act with
      | took q => exact ih _
      | sent r refused => exact ih _

theorem exchanges_append (qs : List Req) (acts acts' : List (Act Req Rep)) :
    exchanges qs (acts ++ acts') = exchanges qs acts ++ exchanges (unanswered qs acts) acts' := by
  induction acts generalizing qs with
  | nil => rfl
  | cons act acts ih =>
      cases act with
      | took q => exact ih _
      | sent r refused => exact congrArg (_ :: ·) (ih _)

/-- The state and the trace after some events. -/
def run (step : S → E → Option (S × List (Act Req Rep))) :
    S → List E → Option (S × List (Act Req Rep))
  | s, [] => some (s, [])
  | s, e :: es => do
      let (s, acts) ← step s e
      let (s, acts') ← run step s es
      pure (s, acts ++ acts')

variable {step : S → E → Option (S × List (Act Req Rep))}

/-- Every reply answers a request in the right way if each step keeps a relation to the unanswered
requests and replies in the right way. -/
theorem run_exchanges (Inv : S → List Req → Prop) (Right : Req → Rep → Prop)
    (hstep : ∀ {s e s' acts qs}, Inv s qs → step s e = some (s', acts) →
      (∀ x ∈ exchanges qs acts, ∃ q, x.1 = some q ∧ Right q x.2) ∧ Inv s' (unanswered qs acts))
    {s s' : S} {es : List E} {acts : List (Act Req Rep)} {qs : List Req} (hs : Inv s qs)
    (h : run step s es = some (s', acts)) :
    ∀ x ∈ exchanges qs acts, ∃ q, x.1 = some q ∧ Right q x.2 := by
  induction es generalizing s qs acts with
  | nil =>
      cases h
      intro x hx
      cases hx
  | cons e es ih =>
      obtain ⟨⟨t, first⟩, hfirst, h⟩ := Option.bind_eq_some_iff.1 h
      obtain ⟨⟨t', rest⟩, hrest, h⟩ := Option.bind_eq_some_iff.1 h
      cases h
      obtain ⟨hnow, ht⟩ := hstep hs hfirst
      intro x hx
      rw [exchanges_append] at hx
      rcases List.mem_append.1 hx with hx | hx
      · exact hnow x hx
      · exact ih ht hrest x hx

/-! ## One reply at a time -/

section Slot

variable (Right : Req → Rep → Prop)

/-- The held reply, if there is one, answers the only unanswered request. -/
def Holds (held : Option Rep) (qs : List Req) : Prop :=
  held = none ∧ qs = [] ∨ ∃ q r, held = some r ∧ qs = [q] ∧ Right q r

/-- What a component that holds at most one reply does in a step, with the reply it holds before and
after it. It may hold the reply to a request, or send it at once and hold it only when it is
refused. -/
inductive SlotStep : Option Rep → List (Act Req Rep) → Option Rep → Prop where
  | idle (held : Option Rep) : SlotStep held [] held
  | take (q : Req) (r : Rep) (hright : Right q r) : SlotStep none [.took q] (some r)
  | send (r : Rep) (refused : Bool) :
      SlotStep (some r) [.sent r refused] (if refused then some r else none)
  | reply (q : Req) (r : Rep) (hright : Right q r) (refused : Bool) :
      SlotStep none [.took q, .sent r refused] (if refused then some r else none)

variable {Right} {held held' : Option Rep} {qs : List Req} {acts : List (Act Req Rep)}

theorem holds_none : Holds Right none qs ↔ qs = [] := by
  simp [Holds]

/-- The reply to the only unanswered request is sent. -/
theorem holds_sent {q : Req} {r : Rep} (hright : Right q r) (refused : Bool) :
    (∀ x ∈ exchanges [q] [.sent r refused], ∃ q, x.1 = some q ∧ Right q x.2) ∧
      Holds Right (if refused then some r else none) (unanswered [q] [.sent r refused]) := by
  refine ⟨?_, ?_⟩
  · intro x hx
    obtain rfl := List.mem_singleton.1 hx
    exact ⟨q, rfl, hright⟩
  · cases refused with
    | true => exact .inr ⟨q, r, rfl, rfl, hright⟩
    | false => exact .inl ⟨rfl, rfl⟩

theorem SlotStep.keeps (h : SlotStep Right held acts held') (hqs : Holds Right held qs) :
    (∀ x ∈ exchanges qs acts, ∃ q, x.1 = some q ∧ Right q x.2) ∧
      Holds Right held' (unanswered qs acts) := by
  cases h with
  | idle held => exact ⟨fun x hx => absurd hx List.not_mem_nil, hqs⟩
  | take q r hright =>
      obtain rfl := holds_none.1 hqs
      exact ⟨fun x hx => absurd hx List.not_mem_nil, .inr ⟨q, r, rfl, rfl, hright⟩⟩
  | send r refused =>
      obtain ⟨hnone, -⟩ | ⟨q, r', hsome, rfl, hright⟩ := hqs
      · cases hnone
      · obtain rfl := Option.some.inj hsome
        exact holds_sent hright refused
  | reply q r hright refused =>
      obtain rfl := holds_none.1 hqs
      exact holds_sent hright refused

end Slot

end Gran.Exchange
