import Mathlib.Algebra.Order.Monoid.Canonical.Defs
import Mathlib.Algebra.Order.Monoid.Unbundled.Pow
import Mathlib.Order.Bounds.Basic

/-!
# Periodic clocks, ticked in the order of what they show

Clocks of any periods start at zero, and each step advances by its period one of the clocks that
show the least. The steps are then taken in the order of time, no clock runs ahead of another one by
more than its own period, and when all clocks have reached a bound that every tick was taken before,
each of them has ticked the least number of times that takes it there.
-/

namespace Earliest

variable {I T : Type*} [DecidableEq I] [AddCommMonoid T] [LinearOrder T]

/-- A run: the ticks so far, oldest first, each with what its clock showed before, and what the
clocks show now. -/
inductive Run (period : I → T) : List (I × T) → (I → T) → Prop where
  | start : Run period [] fun _ => 0
  | tick {log : List (I × T)} {shown : I → T} (h : Run period log shown) (i : I)
      (hleast : ∀ j, shown i ≤ shown j) :
      Run period (log ++ [(i, shown i)]) (Function.update shown i (shown i + period i))

/-- How often a clock has ticked. -/
def ticks (log : List (I × T)) (i : I) : Nat := (log.map Prod.fst).count i

omit [AddCommMonoid T] [LinearOrder T] in
@[simp] theorem ticks_nil (i : I) : ticks ([] : List (I × T)) i = 0 := rfl

omit [AddCommMonoid T] [LinearOrder T] in
@[simp] theorem ticks_snoc (log : List (I × T)) (i j : I) (t : T) :
    ticks (log ++ [(i, t)]) j = ticks log j + if i = j then 1 else 0 := by
  simp [ticks, List.count_singleton]

variable {period : I → T} {log : List (I × T)} {shown : I → T}

/-- A clock shows its period as many times as it has ticked. -/
theorem Run.shown_eq (h : Run period log shown) (i : I) : shown i = ticks log i • period i := by
  induction h with
  | start => exact (zero_nsmul _).symm
  | tick h k hleast ih =>
      rw [ticks_snoc]
      by_cases hik : k = i
      · subst hik
        rw [Function.update_self, ih, if_pos rfl, succ_nsmul]
      · rw [Function.update_of_ne (Ne.symm hik), ih, if_neg hik, Nat.add_zero]

/-- Every earlier number of periods of a clock was shown at one of its ticks. -/
theorem Run.mem_log (h : Run period log shown) {i : I} {k : Nat} (hk : k < ticks log i) :
    (i, k • period i) ∈ log := by
  induction h with
  | start => simp at hk
  | @tick log shown h j hleast ih =>
      rw [ticks_snoc] at hk
      rcases Nat.lt_or_ge k (ticks log i) with hlt | hge
      · exact List.mem_append_left _ (ih hlt)
      · -- the last tick of all is the one that is asked for
        have hji : j = i := by
          by_contra hne
          rw [if_neg hne] at hk
          exact absurd hk (Nat.not_lt.2 hge)
        subst hji
        rw [if_pos rfl] at hk
        have hkeq : k = ticks log j := Nat.le_antisymm (Nat.le_of_lt_succ hk) hge
        rw [hkeq, ← h.shown_eq j]
        exact List.mem_append_right _ (List.mem_singleton.2 rfl)

/-- When a clock has reached a bound that its ticks were taken before, it has ticked the least
number of times that takes it there. -/
theorem Run.isLeast_ticks (h : Run period log shown) {i : I} {bound : T}
    (hreached : bound ≤ shown i) (hbefore : ∀ t ∈ log, t.2 < bound) :
    IsLeast {k : Nat | bound ≤ k • period i} (ticks log i) := by
  constructor
  · show bound ≤ ticks log i • period i
    rwa [← h.shown_eq i]
  · intro k hk
    by_contra hlt
    exact absurd (hbefore _ (h.mem_log (Nat.lt_of_not_le hlt))) (not_lt.2 hk)

variable [CanonicallyOrderedAdd T]

/-- No tick was taken after a time that some clock still shows. -/
theorem Run.log_le (h : Run period log shown) {t : I × T} (ht : t ∈ log) (i : I) :
    t.2 ≤ shown i := by
  induction h generalizing i with
  | start => simp at ht
  | @tick log shown h k hleast ih =>
      have hgrow : shown i ≤ Function.update shown k (shown k + period k) i := by
        by_cases hik : i = k
        · rw [hik, Function.update_self]
          exact le_self_add
        · rw [Function.update_of_ne hik]
      rcases List.mem_append.1 ht with ht | ht
      · exact (ih ht i).trans hgrow
      · rw [List.mem_singleton.1 ht]
        exact (hleast i).trans hgrow

/-- The ticks are taken in the order of time. -/
theorem Run.sorted (h : Run period log shown) : (log.map Prod.snd).Pairwise (· ≤ ·) := by
  induction h with
  | start => exact List.Pairwise.nil
  | @tick log shown h k hleast ih =>
      rw [List.map_append, List.pairwise_append]
      refine ⟨ih, List.pairwise_singleton _ _, ?_⟩
      intro a ha b hb
      obtain ⟨t, ht, rfl⟩ := List.mem_map.1 ha
      obtain rfl : b = shown k := by simpa using hb
      exact h.log_le ht k

variable [IsOrderedAddMonoid T]

/-- No clock is ahead of another one by more than its own period. -/
theorem Run.skew (h : Run period log shown) (i j : I) : shown i ≤ shown j + period i := by
  induction h generalizing i j with
  | start => exact zero_le
  | @tick log shown h k hleast ih =>
      have hgrow : shown j ≤ Function.update shown k (shown k + period k) j := by
        by_cases hjk : j = k
        · rw [hjk, Function.update_self]
          exact le_self_add
        · rw [Function.update_of_ne hjk]
      by_cases hik : i = k
      · -- the clock that ticked was behind all the others
        subst hik
        rw [Function.update_self]
        exact add_le_add_left ((hleast j).trans hgrow) _
      · rw [Function.update_of_ne hik]
        exact (ih i j).trans (add_le_add_left hgrow _)

end Earliest
