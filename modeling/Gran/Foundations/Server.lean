import Mathlib.Data.List.Basic

/-!
# Stores and servers

A store as the history of its writes: each place holds what the last write of it put there. A server
applies requests to a state one by one and holds the reply to the last one until its client takes
it; `Serves` says that the replies that were taken, and the one that is held, are the replies to the
requests in their order.
-/

namespace Gran

universe u v

/-! ## Stores -/

section Store

variable {α : Type u} {β : Type v}

/-- A write puts values in some of the places. -/
abbrev Write (α : Type u) (β : Type v) := α → Option β

/-- What the last write of a place put there, or what was there before all of them. -/
def lastWrite (m : α → β) (ws : List (Write α β)) (a : α) : β :=
  (ws.reverse.findSome? fun w => w a).getD (m a)

/-- One more write. -/
theorem lastWrite_concat (m : α → β) (ws : List (Write α β)) (w : Write α β) (a : α) :
    lastWrite m (ws ++ [w]) a = (w a).getD (lastWrite m ws a) := by
  rw [lastWrite, List.reverse_append, List.reverse_singleton, List.singleton_append,
    List.findSome?_cons]
  cases w a with
  | none => rfl
  | some b => rfl

end Store

/-! ## Servers -/

namespace Server

variable {S Req Rep C : Type u} (apply : S → Req → S × Rep)

/-- The state after requests. -/
def final : S → List (C × Req) → S
  | s, [] => s
  | s, (_, r) :: reqs => final (apply s r).1 reqs

/-- The replies to requests, with the clients they are for. -/
def replies : S → List (C × Req) → List (C × Rep)
  | _, [] => []
  | s, (c, r) :: reqs => (c, (apply s r).2) :: replies (apply s r).1 reqs

theorem replies_concat (s : S) (reqs : List (C × Req)) (c : C) (r : Req) :
    replies apply s (reqs ++ [(c, r)]) =
      replies apply s reqs ++ [(c, (apply (final apply s reqs) r).2)] := by
  induction reqs generalizing s with
  | nil => rfl
  | cons req reqs ih => exact congrArg (_ :: ·) (ih _)

/-- The replies that were delivered and the one that is held are the replies to the accepted
requests in order. -/
def Serves (s : S) (accepted : List (C × Req)) (delivered : List (C × Rep))
    (slot : Option (C × Rep)) : Prop :=
  delivered ++ slot.toList = replies apply s accepted

variable {apply} {s : S} {accepted : List (C × Req)} {delivered : List (C × Rep)}

theorem serves_init : Serves apply s ([] : List (C × Req)) [] none := rfl

/-- A request is accepted when no reply is held. -/
theorem Serves.accept (h : Serves apply s accepted delivered none) (c : C) (r : Req) :
    Serves apply s (accepted ++ [(c, r)]) delivered
      (some (c, (apply (final apply s accepted) r).2)) := by
  have hnow : delivered = replies apply s accepted := by
    rw [← h, Option.toList_none, List.append_nil]
  rw [Serves, replies_concat, ← hnow]
  rfl

/-- The reply that is held is delivered. -/
theorem Serves.deliver {x : C × Rep} (h : Serves apply s accepted delivered (some x)) :
    Serves apply s accepted (delivered ++ [x]) none := by
  rw [Serves, Option.toList_none, List.append_nil]
  exact h

end Server

end Gran
