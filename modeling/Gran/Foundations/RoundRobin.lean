import Mathlib.Logic.Relation

/-!
# A pointer that goes round a ring of slots

An arbiter serves the holders of `n` slots in turn. Its pointer moves on to the next held slot
(`seek`), and leaves a held slot only when that slot is freed, for the next one. Such a `Turn` never
passes a held slot, so the way from the pointer to a slot never grows while the slot is held
(`Turn.ahead_le`). Hence, while one slot is held, the pointer stands at any other slot for one
holder at most (`held_once`).
-/

namespace RoundRobin

open Relation

variable {n p q i : Nat}

/-! ## The ring -/

/-- The slot behind `p` on a ring of `n` slots. -/
def next (n p : Nat) : Nat := if p + 1 = n then 0 else p + 1

/-- The number of steps round the ring from `p` to `i`. -/
def ahead (n p i : Nat) : Nat := if p ≤ i then i - p else i + n - p

@[simp] theorem ahead_self (n p : Nat) : ahead n p p = 0 := by simp [ahead]

theorem next_lt (hp : p < n) : next n p < n := by
  unfold next
  split <;> omega

theorem next_ne (hi : i < n) (hne : i ≠ p) : next n p ≠ p := by
  unfold next
  split <;> omega

theorem ahead_lt (hp : p < n) (hi : i < n) : ahead n p i < n := by
  unfold ahead
  split <;> omega

/-- The first step towards another slot is the one to the next slot. -/
theorem ahead_next (hp : p < n) (hi : i < n) (hne : i ≠ p) :
    ahead n p i = ahead n (next n p) i + 1 := by
  unfold ahead next
  split <;> split <;> split <;> omega

theorem ahead_pos (hp : p < n) (hi : i < n) (hne : i ≠ p) : 0 < ahead n p i := by
  rw [ahead_next hp hi hne]
  exact Nat.succ_pos _

/-- The way to a slot says where it starts. -/
theorem ahead_inj (hp : p < n) (hq : q < n) (h : ahead n p i = ahead n q i) : p = q := by
  unfold ahead at h
  split at h <;> split at h <;> omega

/-- A pointer that does not pass `i` comes no farther from it. -/
theorem ahead_le_of_passes (hp : p < n) (hi : i < n)
    (h : ahead n p q ≤ ahead n p i) : ahead n q i ≤ ahead n p i := by
  unfold ahead at *
  split at h <;> split at h <;> split <;> omega

/-! ## Moving on to the next held slot -/

/-- Move on to the next held slot, over `k` slots at most. -/
def seek (held : Nat → Bool) (n p : Nat) : Nat → Nat
  | 0 => p
  | k + 1 => if held (next n p) then next n p else seek held n (next n p) k

variable (held : Nat → Bool)

theorem seek_lt (hp : p < n) (k : Nat) : seek held n p k < n := by
  induction k generalizing p with
  | zero => exact hp
  | succ k ih =>
      rw [seek]
      split
      · exact next_lt hp
      · exact ih (next_lt hp)

/-- The search stops at the first held slot. -/
theorem seek_stops {k : Nat} (hp : p < n) (hi : i < n) (hheld : held i = true) (hne : i ≠ p)
    (hk : ahead n p i ≤ k) :
    held (seek held n p k) = true ∧ ahead n p (seek held n p k) ≤ ahead n p i := by
  induction k generalizing p with
  | zero => exact absurd (ahead_pos hp hi hne) (by omega)
  | succ k ih =>
      have hfirst := ahead_next hp hi hne
      rw [seek]
      cases hnext : held (next n p) with
      | true =>
          have hone := ahead_next hp (next_lt hp) (next_ne hi hne)
          rw [ahead_self] at hone
          exact ⟨by simpa using hnext, by simp only [if_true]; omega⟩
      | false =>
          have hne' : i ≠ next n p := by
            rintro rfl
            rw [hheld] at hnext
            cases hnext
          obtain ⟨hstop, hle⟩ := ih (next_lt hp) hne' (by omega)
          have hlt := seek_lt held (next_lt hp) k
          refine ⟨hstop, ?_⟩
          simp only [Bool.false_eq_true, if_false]
          -- the search ends before it is back at `p`, which is behind `i`
          have hback : seek held n (next n p) k ≠ p := by
            intro hback
            rw [hback] at hle
            have hround := ahead_next (next_lt hp) hp (next_ne hi hne).symm
            have hsame := ahead_le_of_passes (next_lt hp) hi hle
            omega
          have hlast := ahead_next hp hlt hback
          omega

/-! ## Turns of an arbiter -/

/-- A pointer, and who holds each slot. -/
structure Arbiter (K : Type*) where
  pointer : Nat
  holder : Nat → Option K

variable {K : Type*} {a a' : Arbiter K}

/-- The pointer passes no held slot, and it leaves a held slot when that is freed. -/
structure Turn (n : Nat) (a a' : Arbiter K) : Prop where
  lt : a'.pointer < n
  passes : ∀ i < n, a.holder i ≠ none → i ≠ a.pointer →
    ahead n a.pointer a'.pointer ≤ ahead n a.pointer i
  leaves : a.holder a.pointer ≠ none →
    (a'.pointer = a.pointer ∧ a'.holder a.pointer = a.holder a.pointer) ∨
      (a'.pointer = next n a.pointer ∧ a'.holder a.pointer = none)

/-- The pointer comes no farther from a slot that stays held. -/
theorem Turn.ahead_le (h : Turn n a a') (hp : a.pointer < n) (hi : i < n)
    (hheld : a.holder i ≠ none) (hheld' : a'.holder i ≠ none) :
    ahead n a'.pointer i ≤ ahead n a.pointer i := by
  by_cases hne : i = a.pointer
  · subst hne
    rcases h.leaves hheld with ⟨hstay, -⟩ | ⟨-, hfree⟩
    · exact Nat.le_of_eq (by rw [hstay])
    · exact absurd hfree hheld'
  · exact ahead_le_of_passes hp hi (h.passes i hi hheld hne)

/-- A turn after which slot `i` is held. -/
def Holding (n i : Nat) (a a' : Arbiter K) : Prop := Turn n a a' ∧ a'.holder i ≠ none

/-- What is left to do before the pointer is at a slot that stays held never grows. -/
theorem ahead_le_of_holding (hp : a.pointer < n) (hi : i < n) (hheld : a.holder i ≠ none)
    (hrun : ReflTransGen (Holding n i) a a') :
    a'.pointer < n ∧ a'.holder i ≠ none ∧ ahead n a'.pointer i ≤ ahead n a.pointer i := by
  induction hrun with
  | refl => exact ⟨hp, hheld, Nat.le_refl _⟩
  | tail _ hstep ih =>
      obtain ⟨hp', hheld', hle⟩ := ih
      exact ⟨hstep.1.lt, hstep.2,
        Nat.le_trans (hstep.1.ahead_le hp' hi hheld' hstep.2) hle⟩

/-- While slot `i` is held the pointer stands at any other slot for one holder at most: when it is
at slot `j` before and after, it was there all the time and the holder is the same. -/
theorem held_once (hp : a.pointer < n) (hi : i < n) (hheld : a.holder i ≠ none)
    (hrun : ReflTransGen (Holding n i) a a') (hne : a.pointer ≠ i)
    (hholds : a.holder a.pointer ≠ none) (hback : a'.pointer = a.pointer) :
    a'.holder a.pointer = a.holder a.pointer := by
  induction hrun using ReflTransGen.head_induction_on with
  | refl => rfl
  | @head b d hstep hrest ih =>
      obtain ⟨hturn, hheld'⟩ := hstep
      have hle := hturn.ahead_le hp hi hheld hheld'
      have hge := (ahead_le_of_holding hturn.lt hi hheld' hrest).2.2
      rw [hback] at hge
      have hsame : d.pointer = b.pointer := ahead_inj (i := i) hturn.lt hp (by omega)
      rcases hturn.leaves hholds with ⟨-, hkeep⟩ | ⟨hmoved, -⟩
      · rw [← hsame] at hkeep hholds hne
        rw [← hsame, ← hkeep]
        exact ih (hsame ▸ hp) hheld' hne (by rw [hkeep]; exact hholds) (by rw [hback, hsame])
      · exact absurd (hmoved ▸ hsame) (next_ne hi hne.symm)

end RoundRobin
