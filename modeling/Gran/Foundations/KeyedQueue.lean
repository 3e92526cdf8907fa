import Mathlib.Data.List.Pairwise

/-!
# Queues stamped in order per key

A queue whose items are stamped, and leave, in the order they entered among the items of their own
key. `Ordered` is the invariant of the stamps in the queue and `After` compares them with a stamp
that left: what leaves first has the smallest stamp of its key (`Ordered.after_first`), so the
stamps that leave for one key never decrease.
-/

namespace KeyedQueue

variable {X K : Type*}

/-- An item with its stamp, once it has one. -/
structure Entry (X : Type*) where
  item : X
  stamp : Option Nat

variable (key : X → K)

/-- In front of a stamped item, the items of its key have stamps that are no larger. -/
def Ordered (q : List (Entry X)) : Prop :=
  q.Pairwise fun e f => key e.item = key f.item → ∀ t, f.stamp = some t →
    ∃ u, e.stamp = some u ∧ u ≤ t

/-- Every stamp of key `k` in the queue is at least `t`. -/
def After (k : K) (t : Nat) (q : List (Entry X)) : Prop :=
  ∀ e ∈ q, key e.item = k → ∀ u, e.stamp = some u → t ≤ u

variable {key} {q before after : List (Entry X)} {x : X} {k : K} {t u : Nat}

theorem ordered_nil : Ordered key ([] : List (Entry X)) := List.Pairwise.nil

/-- A stamped item is not one of those that just entered. -/
theorem mem_of_mem_push {e : Entry X} {xs : List X} (he : e ∈ q ++ xs.map fun x => ⟨x, none⟩)
    (ht : e.stamp = some t) : e ∈ q := by
  rcases List.mem_append.1 he with he | he
  · exact he
  · obtain ⟨x, -, rfl⟩ := List.mem_map.1 he
    cases ht

/-- When an item gets a stamp, the other entries are what they were. -/
theorem mem_of_mem_stamp {e : Entry X} (he : e ∈ before ++ ⟨x, some t⟩ :: after) :
    e = ⟨x, some t⟩ ∨ e ∈ before ++ ⟨x, none⟩ :: after := by
  simp only [List.mem_append, List.mem_cons] at he ⊢
  rcases he with he | he | he
  · exact Or.inr (Or.inl he)
  · exact Or.inl he
  · exact Or.inr (Or.inr (Or.inr he))

/-- Unstamped items may enter at the back. -/
theorem Ordered.push (h : Ordered key q) (xs : List X) :
    Ordered key (q ++ xs.map fun x => ⟨x, none⟩) := by
  refine List.pairwise_append.2 ⟨h, ?_, ?_⟩
  · refine List.pairwise_map.2 (List.pairwise_of_forall fun x y _ t ht => ?_)
    cases ht
  · intro e _ f hf _ t ht
    obtain ⟨x, -, rfl⟩ := List.mem_map.1 hf
    cases ht

theorem After.push (h : After key k t q) (xs : List X) :
    After key k t (q ++ xs.map fun x => ⟨x, none⟩) := by
  intro e he hk u hu
  exact h e (mem_of_mem_push he hu) hk u hu

/-- The first unstamped item of its key may get a stamp that no stamp of the queue exceeds. -/
theorem Ordered.stamp (h : Ordered key (before ++ ⟨x, none⟩ :: after))
    (hfirst : ∀ e ∈ before, key e.item = key x → e.stamp ≠ none)
    (hle : ∀ e ∈ before ++ ⟨x, none⟩ :: after, ∀ u, e.stamp = some u → u ≤ t) :
    Ordered key (before ++ ⟨x, some t⟩ :: after) := by
  obtain ⟨hbefore, htail, hcross⟩ := List.pairwise_append.1 h
  obtain ⟨hx, hafter⟩ := List.pairwise_cons.1 htail
  refine List.pairwise_append.2 ⟨hbefore, List.pairwise_cons.2 ⟨?_, hafter⟩, ?_⟩
  · -- behind an unstamped item nothing of its key is stamped
    intro f hf hk v hv
    obtain ⟨w, hw, -⟩ := hx f hf hk v hv
    cases hw
  · intro e he f hf hk v hv
    rcases List.mem_cons.1 hf with rfl | hf
    · obtain ⟨w, hw⟩ := Option.ne_none_iff_exists'.1 (hfirst e he hk)
      obtain rfl : t = v := Option.some.inj hv
      exact ⟨w, hw, hle e (by simp [he]) w hw⟩
    · exact hcross e he f (by simp [hf]) hk v hv

theorem After.stamp (h : After key k t (before ++ ⟨x, none⟩ :: after)) (hle : t ≤ u) :
    After key k t (before ++ ⟨x, some u⟩ :: after) := by
  intro e he hk v hv
  rcases mem_of_mem_stamp he with rfl | he
  · obtain rfl : u = v := Option.some.inj hv
    exact hle
  · exact h e he hk v hv

theorem Ordered.remove (h : Ordered key (before ++ ⟨x, some t⟩ :: after)) :
    Ordered key (before ++ after) :=
  h.sublist (by simp)

theorem After.remove (h : After key k u (before ++ ⟨x, some t⟩ :: after)) :
    After key k u (before ++ after) :=
  fun e he => h e (by rcases List.mem_append.1 he with he | he <;> simp [he])

/-- What leaves as the first of its key leaves only larger stamps behind. -/
theorem Ordered.after_first (h : Ordered key (before ++ ⟨x, some t⟩ :: after))
    (hfirst : ∀ e ∈ before, key e.item ≠ key x) : After key (key x) t (before ++ after) := by
  obtain ⟨-, htail, -⟩ := List.pairwise_append.1 h
  intro e he hk u hu
  rcases List.mem_append.1 he with he | he
  · exact absurd hk (hfirst e he)
  · obtain ⟨v, hv, hle⟩ := (List.pairwise_cons.1 htail).1 e he hk.symm u hu
    obtain rfl : t = v := Option.some.inj hv
    exact hle

end KeyedQueue
