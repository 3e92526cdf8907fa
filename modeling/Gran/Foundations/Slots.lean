import Mathlib.Algebra.BigOperators.Group.Finset.Piecewise
import Mathlib.Algebra.Order.BigOperators.Group.Finset
import Mathlib.Data.Fintype.BigOperators
import Mathlib.Data.Set.Insert
import Mathlib.Order.WellFounded

/-!
# Items in slots

Finitely many slots hold at most one item each. An item moves to a free slot, where it may become
another item, or leaves; every item has an owner, who waits from its entry until it leaves. `Owned`
says that the items present are exactly those that are waited for, one for each waiting owner, and
`load` is a total that every move decreases. `exists_cycle` finds a circular wait when every
occupied slot waits for an occupied one.
-/

namespace Slots

variable {P X E : Type*}

/-- The slots with their items, and the owners who wait. -/
structure Net (P X E : Type*) where
  held : P → Option X
  waiting : Set E

variable [DecidableEq P]

/-- The item in `p` moves to `q` and becomes `y`. -/
def Net.hop (n : Net P X E) (p q : P) (y : X) : Net P X E :=
  { n with held := Function.update (Function.update n.held p none) q (some y) }

/-- The item in `p` leaves, and `e` waits no longer. -/
def Net.leave (n : Net P X E) (p : P) (e : E) : Net P X E :=
  ⟨Function.update n.held p none, n.waiting \ {e}⟩

/-- An item enters at `p`, and `e` waits for it. -/
def Net.enter (n : Net P X E) (p : P) (x : X) (e : E) : Net P X E :=
  ⟨Function.update n.held p (some x), insert e n.waiting⟩

/-- Where an item may go from a slot and what it may become there, the slots it leaves from, whose
it is, and a weight that decreases on the way. -/
structure Routes (P X E : Type*) where
  hop : P → X → P → X → Prop
  last : P → X → Prop
  owner : X → E
  ok : P → X → Prop
  weight : P → X → Nat
  ok_hop : ∀ {p x q y}, ok p x → hop p x q y → ok q y
  owner_hop : ∀ {p x q y}, ok p x → hop p x q y → owner y = owner x
  weight_hop : ∀ {p x q y}, ok p x → hop p x q y → weight q y < weight p x
  weight_pos : ∀ {p x}, ok p x → 0 < weight p x

variable {r : Routes P X E} {n n' : Net P X E}

/-- One item moves or leaves. -/
inductive Move (r : Routes P X E) (n : Net P X E) : Net P X E → Prop where
  | hop {p x q y} (hp : n.held p = some x) (hhop : r.hop p x q y) (hq : n.held q = none) :
      Move r n (n.hop p q y)
  | leave {p x} (hp : n.held p = some x) (hlast : r.last p x) : Move r n (n.leave p (r.owner x))

/-- Every item is where it may be, its owner waits, no two items have one owner, and whoever waits
has an item. -/
structure Owned (r : Routes P X E) (n : Net P X E) : Prop where
  ok : ∀ {p x}, n.held p = some x → r.ok p x
  waiting : ∀ {p x}, n.held p = some x → r.owner x ∈ n.waiting
  unique : ∀ {p x q y}, n.held p = some x → n.held q = some y → r.owner x = r.owner y → p = q
  item : ∀ {e}, e ∈ n.waiting → ∃ p x, n.held p = some x ∧ r.owner x = e

omit [DecidableEq P] in
/-- The empty slots are owned. -/
theorem Owned.empty : Owned r ⟨fun _ => none, ∅⟩ :=
  ⟨by simp, by simp, by simp, by simp⟩

/-! ## Moves keep the items owned -/

private theorem update_cases {held : P → Option X} {p q : P} {v : Option X} {x : X}
    (h : Function.update held p v q = some x) : q = p ∧ v = some x ∨ q ≠ p ∧ held q = some x := by
  by_cases hq : q = p
  · subst hq
    exact Or.inl ⟨rfl, by simpa using h⟩
  · exact Or.inr ⟨hq, by simpa [hq] using h⟩

theorem Owned.hop (h : Owned r n) {p q : P} {x y : X} (hp : n.held p = some x)
    (hhop : r.hop p x q y) (hq : n.held q = none) : Owned r (n.hop p q y) := by
  have hok := h.ok hp
  have howner := r.owner_hop hok hhop
  -- an item after the move is the one that moved or was where it is
  have hback : ∀ {u z}, (n.hop p q y).held u = some z →
      u = q ∧ z = y ∨ u ≠ q ∧ u ≠ p ∧ n.held u = some z := by
    intro u z hu
    rcases update_cases hu with ⟨rfl, hz⟩ | ⟨huq, hu⟩
    · exact Or.inl ⟨rfl, (Option.some.inj hz).symm⟩
    · rcases update_cases hu with ⟨-, hz⟩ | ⟨hup, hu⟩
      · cases hz
      · exact Or.inr ⟨huq, hup, hu⟩
  refine ⟨fun hu => ?_, fun hu => ?_, fun hu hv he => ?_, fun {e} he => ?_⟩
  · rcases hback hu with ⟨rfl, rfl⟩ | ⟨-, -, hu⟩
    · exact r.ok_hop hok hhop
    · exact h.ok hu
  · rcases hback hu with ⟨rfl, rfl⟩ | ⟨-, -, hu⟩
    · rw [howner]
      exact h.waiting hp
    · exact h.waiting hu
  · rcases hback hu with ⟨rfl, rfl⟩ | ⟨-, hup, hu'⟩ <;>
      rcases hback hv with ⟨rfl, rfl⟩ | ⟨-, hvp, hv'⟩
    · rfl
    · exact absurd (h.unique hp hv' (howner.symm.trans he)).symm hvp
    · exact absurd (h.unique hu' hp (he.trans howner)) hup
    · exact h.unique hu' hv' he
  · obtain ⟨u, z, hu, hz⟩ := h.item he
    by_cases hup : u = p
    · subst hup
      obtain rfl : z = x := Option.some.inj (hu.symm.trans hp)
      exact ⟨q, y, by simp [Net.hop], howner.trans hz⟩
    · have huq : u ≠ q := by
        rintro rfl
        rw [hu] at hq
        cases hq
      exact ⟨u, z, by simpa [Net.hop, huq, hup] using hu, hz⟩

theorem Owned.leave (h : Owned r n) {p : P} {x : X} (hp : n.held p = some x) :
    Owned r (n.leave p (r.owner x)) := by
  have hback : ∀ {u z}, (n.leave p (r.owner x)).held u = some z → u ≠ p ∧ n.held u = some z := by
    intro u z hu
    rcases update_cases hu with ⟨-, hz⟩ | hu
    · cases hz
    · exact hu
  refine ⟨fun hu => h.ok (hback hu).2, fun hu => ?_, fun hu hv he => ?_, fun {e} he => ?_⟩
  · obtain ⟨hup, hu⟩ := hback hu
    exact ⟨h.waiting hu, fun he => hup (h.unique hu hp he)⟩
  · exact h.unique (hback hu).2 (hback hv).2 he
  · obtain ⟨he, hne⟩ := he
    obtain ⟨u, z, hu, hz⟩ := h.item he
    have hup : u ≠ p := by
      rintro rfl
      obtain rfl : z = x := Option.some.inj (hu.symm.trans hp)
      exact hne hz.symm
    exact ⟨u, z, by simpa [Net.leave, hup] using hu, hz⟩

theorem Owned.enter (h : Owned r n) {p : P} {x : X} (hp : n.held p = none) (hok : r.ok p x)
    (hnew : r.owner x ∉ n.waiting) : Owned r (n.enter p x (r.owner x)) := by
  have hback : ∀ {u z}, (n.enter p x (r.owner x)).held u = some z →
      u = p ∧ z = x ∨ u ≠ p ∧ n.held u = some z := by
    intro u z hu
    rcases update_cases hu with ⟨rfl, hz⟩ | hu
    · exact Or.inl ⟨rfl, (Option.some.inj hz).symm⟩
    · exact Or.inr hu
  refine ⟨fun hu => ?_, fun hu => ?_, fun hu hv he => ?_, fun {e} he => ?_⟩
  · rcases hback hu with ⟨rfl, rfl⟩ | ⟨-, hu⟩
    · exact hok
    · exact h.ok hu
  · rcases hback hu with ⟨rfl, rfl⟩ | ⟨-, hu⟩
    · exact Set.mem_insert _ _
    · exact Set.mem_insert_of_mem _ (h.waiting hu)
  · rcases hback hu with ⟨rfl, rfl⟩ | ⟨-, hu'⟩ <;> rcases hback hv with ⟨rfl, rfl⟩ | ⟨-, hv'⟩
    · rfl
    · exact absurd (he ▸ h.waiting hv') hnew
    · exact absurd (he ▸ h.waiting hu') hnew
    · exact h.unique hu' hv' he
  · rcases he with rfl | he
    · exact ⟨p, x, by simp [Net.enter], rfl⟩
    · obtain ⟨u, z, hu, hz⟩ := h.item he
      have hup : u ≠ p := by
        rintro rfl
        rw [hu] at hp
        cases hp
      exact ⟨u, z, by simpa [Net.enter, hup] using hu, hz⟩

theorem Move.owned (h : Owned r n) (hmove : Move r n n') : Owned r n' := by
  cases hmove with
  | hop hp hhop hq => exact h.hop hp hhop hq
  | leave hp _ => exact h.leave hp

/-- A move leaves every item but its own where it is. -/
theorem Move.held_of_ne (hmove : Move r n n') {p u : P} (hp : n.held p ≠ none)
    (hp' : n'.held p = none) (hu : u ≠ p) (hheld : n.held u ≠ none) : n'.held u = n.held u := by
  cases hmove with
  | @hop p₀ x q y hp₀ hhop hq =>
      have huq : u ≠ q := by
        rintro rfl
        exact hheld hq
      have hpq : p ≠ q := by
        rintro rfl
        exact hp hq
      have hpp₀ : p = p₀ := by
        by_contra hne
        exact hp (by simpa [Net.hop, hpq, hne] using hp')
      simp [Net.hop, huq, hpp₀ ▸ hu]
  | @leave p₀ x hp₀ hlast =>
      have hpp₀ : p = p₀ := by
        by_contra hne
        exact hp (by simpa [Net.leave, hne] using hp')
      simp [Net.leave, hpp₀ ▸ hu]

/-! ## Moves decrease the load -/

variable [Fintype P]

/-- The total weight of the items. -/
def load (r : Routes P X E) (n : Net P X E) : Nat :=
  ∑ p, (n.held p).elim 0 (r.weight p)

theorem Move.load_lt (h : Owned r n) (hmove : Move r n n') : load r n' < load r n := by
  -- what emptying a slot takes from the total
  have hclear : ∀ {p x}, n.held p = some x →
      ∑ u, (Function.update n.held p none u).elim 0 (r.weight u) + r.weight p x = load r n := by
    intro p x hp
    rw [load, ← Finset.add_sum_erase _ _ (Finset.mem_univ p),
      ← Finset.add_sum_erase _ (fun u => (n.held u).elim 0 (r.weight u)) (Finset.mem_univ p),
      Function.update_self, hp, add_comm]
    congr 1
    rw [Option.elim_none, zero_add]
    refine Finset.sum_congr rfl fun u hu => ?_
    rw [Function.update_of_ne (Finset.ne_of_mem_erase hu)]
  cases hmove with
  | @leave p x hp _ =>
      have := hclear hp
      have := r.weight_pos (h.ok hp)
      change ∑ u, (Function.update n.held p none u).elim 0 (r.weight u) < _
      omega
  | @hop p x q y hp hhop hq =>
      have hwas := hclear hp
      have hlt := r.weight_hop (h.ok hp) hhop
      have hqp : q ≠ p := by
        rintro rfl
        rw [hp] at hq
        cases hq
      -- filling the free slot adds the weight of the item it gets
      have hfill : ∑ u, (Function.update (Function.update n.held p none) q (some y) u).elim 0
          (r.weight u) =
          ∑ u, (Function.update n.held p none u).elim 0 (r.weight u) + r.weight q y := by
        rw [← Finset.add_sum_erase _ _ (Finset.mem_univ q),
          ← Finset.add_sum_erase _ (fun u => (Function.update n.held p none u).elim 0 (r.weight u))
            (Finset.mem_univ q),
          Function.update_self, Function.update_of_ne hqp, hq, add_comm]
        congr 1
        rw [Option.elim_none, zero_add]
        refine Finset.sum_congr rfl fun u hu => ?_
        rw [Function.update_of_ne (Finset.ne_of_mem_erase hu)]
      change ∑ u, (Function.update (Function.update n.held p none) q (some y) u).elim 0
        (r.weight u) < _
      omega

omit [DecidableEq P] in
/-- If every occupied slot waits for an occupied slot and some slot is occupied, there is a
circular wait. -/
theorem exists_cycle (waits : P → P → Prop)
    (hwaits : ∀ p, n.held p ≠ none → ∃ q, waits p q ∧ n.held q ≠ none)
    (hheld : ∃ p, n.held p ≠ none) : ∃ p, Relation.TransGen waits p p := by
  by_contra hacyclic
  push Not at hacyclic
  have : IsTrans P (Function.swap (Relation.TransGen waits)) := ⟨fun _ _ _ h h' => h'.trans h⟩
  have : Std.Irrefl (Function.swap (Relation.TransGen waits)) := ⟨hacyclic⟩
  have hwf := Finite.wellFounded_of_trans_of_irrefl (Function.swap (Relation.TransGen waits))
  obtain ⟨p, hp, hmin⟩ := hwf.has_min {p | n.held p ≠ none} hheld
  obtain ⟨q, hpq, hq⟩ := hwaits p hp
  exact hmin q hq (.single hpq)

omit [DecidableEq P] [Fintype P] in
/-- The slots of a circular wait all wait for slots among themselves. -/
theorem exists_closed {waits : P → P → Prop} {p : P} (h : Relation.TransGen waits p p) :
    ∃ l : Set P, p ∈ l ∧ ∀ q ∈ l, ∃ q' ∈ l, waits q q' := by
  refine ⟨{q | Relation.TransGen waits p q ∧ Relation.TransGen waits q p}, ⟨h, h⟩, ?_⟩
  rintro q ⟨hpq, hqp⟩
  obtain ⟨q', hqq', hq'p⟩ := Relation.TransGen.head'_iff.1 hqp
  rcases Relation.reflTransGen_iff_eq_or_transGen.1 hq'p with rfl | hq'p
  · exact ⟨p, ⟨h, h⟩, hqq'⟩
  · exact ⟨q', ⟨hpq.tail hqq', hq'p⟩, hqq'⟩

end Slots
