import Gran.Foundations.Fold

/-!
# Refusals

A receiver answers what is presented to it, and other things happen to it in between, its clock for
one. `Unmoved` says of one offer that a refusal of it changes nothing. A run in which every offer is
like that is the run in which the refused offers were never made (`run_taken`): whatever a receiver
does with an offer that it refused, it does because the offer was made again.
-/

namespace Gran.Refusal

variable {S P O R : Type*}

/-- What happens to a receiver: an offer is presented to it, or anything else. -/
inductive Event (P O : Type*) where
  | present (p : P)
  | other (o : O)

variable (receive : P → S → Option (R × S)) (busy : R)

/-- A refusal of `p` leaves the state as it is. -/
def Unmoved (p : P) (s : S) : Prop := ∀ s', receive p s = some (busy, s') → s' = s

variable (other : O → S → Option S)

/-- What an event does; the answer is for the presenter. -/
def step (s : S) : Event P O → Option S
  | .present p => (receive p s).map Prod.snd
  | .other o => other o s

/-- The state after some events. -/
def run (s : S) (es : List (Event P O)) : Option S := es.foldlM (step receive other) s

/-- The event is an offer that is refused. -/
def Refused [DecidableEq R] (s : S) : Event P O → Bool
  | .present p => (receive p s).any fun x => x.1 = busy
  | .other _ => false

/-- The events of a run less the offers that were refused. -/
def taken [DecidableEq R] : S → List (Event P O) → List (Event P O)
  | _, [] => []
  | s, e :: es =>
      match step receive other s e with
      | none => [e]
      | some t => if Refused receive busy s e then taken t es else e :: taken t es

variable {receive busy other} [DecidableEq R]

/-- A refusal that leaves the state as it is. -/
theorem step_refused {s t : S} {e : Event P O} (h : step receive other s e = some t)
    (hrefused : Refused receive busy s e = true)
    (hunmoved : ∀ p, e = .present p → Unmoved receive busy p s) : t = s := by
  cases e with
  | other o => cases hrefused
  | present p =>
      obtain ⟨⟨r, t'⟩, hreceive, rfl⟩ := Option.map_eq_some_iff.1 h
      rw [Refused, hreceive, Option.any_some, decide_eq_true_eq] at hrefused
      obtain rfl : r = busy := hrefused
      exact hunmoved p rfl t' hreceive

/-- Offers whose refusal changes nothing might as well not have been made. -/
theorem run_taken {s : S} {es : List (Event P O)}
    (h : Fold.Along (step receive other)
      (fun s e => ∀ p, e = .present p → Unmoved receive busy p s) es s) :
    run receive other s (taken receive busy other s es) = run receive other s es := by
  induction es generalizing s with
  | nil => rfl
  | cons e es ih =>
      obtain ⟨hunmoved, hrest⟩ := h
      rw [taken]
      cases hstep : step receive other s e with
      | none => simp [run, hstep]
      | some t =>
          have htail := ih (hrest t hstep)
          cases hrefused : Refused receive busy s e with
          | true =>
              obtain rfl := step_refused hstep hrefused hunmoved
              simpa [run, hstep] using htail
          | false => simpa [run, hstep] using htail

end Gran.Refusal
