import Mathlib.Data.List.Pairwise
import Mathlib.Logic.Function.Basic

/-!
# Flows through single-packet places

Places that hold at most one packet each, and packets that belong to flows. Each flow has one way
through the places, along which a place is known by its distance from the exit. `InOrder` says that
the packets of a flow that entered are those that left and those on the way, nearest to the exit
first. It is kept when a packet hops to the free place in front of it (`InOrder.hop`), leaves from
the end of its way (`InOrder.leave`) or enters at the start (`InOrder.enter`), so the packets that
left a flow are always the first ones that entered it (`InOrder.prefix_of`).
-/

namespace Flow

variable {P X K : Type*}

/-- The places on the way of each flow, with their distances from the exit. -/
structure Ways (P K : Type*) where
  on : K → P → Prop
  dist : K → P → Nat
  inj : ∀ {k p q}, on k p → on k q → dist k p = dist k q → p = q

/-- The packets of a flow, in the order of the list. -/
def ofFlow [DecidableEq K] (flow : X → K) (k : K) (l : List X) : List X :=
  l.filter fun x => flow x = k

/-- The packets inside, `inside`, are those of flow `k` that the places hold, nearest to the exit
first. -/
structure Inside (w : Ways P K) (flow : X → K) (held : P → Option X) (k : K)
    (inside : List (P × X)) : Prop where
  sorted : inside.Pairwise fun a b => w.dist k a.1 < w.dist k b.1
  mem : ∀ p x, (p, x) ∈ inside ↔ held p = some x ∧ flow x = k

/-- Every packet is on the way of its flow, and no packet overtook another one of its flow.
`entered` and `left` are the packets that entered and left so far, oldest first. -/
structure InOrder [DecidableEq K] (w : Ways P K) (flow : X → K) (held : P → Option X)
    (entered left : List X) : Prop where
  on : ∀ p x, held p = some x → w.on (flow x) p
  order : ∀ k, ∃ inside, Inside w flow held k inside ∧
    ofFlow flow k entered = ofFlow flow k left ++ inside.map Prod.snd

/-! ## The packets on one way -/

variable {w : Ways P K} {flow : X → K} {held : P → Option X} {entered left : List X}

/-- The packets inside around one of them. -/
theorem Inside.split {k : K} {inside : List (P × X)} (h : Inside w flow held k inside) {p : P}
    {x : X}
    (hp : held p = some x) (hk : flow x = k) :
    ∃ before after, inside = before ++ (p, x) :: after ∧
      (∀ a ∈ before, w.dist k a.1 < w.dist k p) ∧ (∀ a ∈ after, w.dist k p < w.dist k a.1) := by
  obtain ⟨before, after, heq⟩ := List.append_of_mem ((h.mem p x).2 ⟨hp, hk⟩)
  have hsorted := h.sorted
  rw [heq] at hsorted
  obtain ⟨-, htail, hcross⟩ := List.pairwise_append.1 hsorted
  exact ⟨before, after, heq, fun a ha => hcross a ha (p, x) (by simp),
    (List.pairwise_cons.1 htail).1⟩

/-- Around one of the packets inside there are no others in its place. -/
theorem Inside.ne {k : K} {inside : List (P × X)} (h : Inside w flow held k inside) {p : P} {x : X}
    {before after : List (P × X)} (heq : inside = before ++ (p, x) :: after) {a : P × X}
    (ha : a ∈ before ++ after) : a.1 ≠ p := by
  have hsorted := h.sorted
  rw [heq] at hsorted
  obtain ⟨-, htail, hcross⟩ := List.pairwise_append.1 hsorted
  rintro rfl
  rcases List.mem_append.1 ha with ha | ha
  · exact absurd (hcross a ha (a.1, x) (by simp)) (Nat.lt_irrefl _)
  · exact absurd ((List.pairwise_cons.1 htail).1 a ha) (Nat.lt_irrefl _)

variable [DecidableEq P]

/-- The packets inside when one place changed, in a flow that has nothing to do with it. -/
theorem Inside.other {k : K} {inside : List (P × X)} (h : Inside w flow held k inside) {p : P}
    {v : Option X} (hold : ∀ x, held p = some x → flow x ≠ k)
    (hnew : ∀ x, v = some x → flow x ≠ k) :
    Inside w flow (Function.update held p v) k inside where
  sorted := h.sorted
  mem q x := by
    rw [h.mem q x]
    by_cases hq : q = p
    · subst hq
      rw [Function.update_self]
      exact ⟨fun ⟨hx, hk⟩ => absurd hk (hold x hx), fun ⟨hx, hk⟩ => absurd hk (hnew x hx)⟩
    · rw [Function.update_of_ne hq]

/-- A packet leaves its place. -/
theorem Inside.remove {k : K} {before after : List (P × X)} {p : P} {x : X}
    (h : Inside w flow held k (before ++ (p, x) :: after)) :
    Inside w flow (Function.update held p none) k (before ++ after) where
  sorted := h.sorted.sublist (by simp)
  mem q y := by
    by_cases hq : q = p
    · subst hq
      rw [Function.update_self]
      exact ⟨fun hmem => absurd rfl (h.ne rfl hmem), fun hheld => nomatch hheld.1⟩
    · rw [Function.update_of_ne hq, ← h.mem q y]
      simp [hq]

/-- A packet comes to a free place between the others. -/
theorem Inside.insert {k : K} {before after : List (P × X)}
    (h : Inside w flow held k (before ++ after))
    {p : P} {x : X} (hp : held p = none) (hk : flow x = k)
    (hbefore : ∀ a ∈ before, w.dist k a.1 < w.dist k p)
    (hafter : ∀ a ∈ after, w.dist k p < w.dist k a.1) :
    Inside w flow (Function.update held p (some x)) k (before ++ (p, x) :: after) where
  sorted := by
    obtain ⟨hb, ha, hcross⟩ := List.pairwise_append.1 h.sorted
    refine List.pairwise_append.2 ⟨hb, List.pairwise_cons.2 ⟨hafter, ha⟩, fun a hmem b hb' => ?_⟩
    rcases List.mem_cons.1 hb' with rfl | hb'
    · exact hbefore a hmem
    · exact hcross a hmem b hb'
  mem q y := by
    have hmem := h.mem q y
    by_cases hq : q = p
    · subst hq
      rw [hp] at hmem
      have hnot : (q, y) ∉ before ++ after := fun hin => nomatch (hmem.1 hin).1
      rw [Function.update_self]
      simp only [List.mem_append, not_or] at hnot
      simp only [List.mem_append, List.mem_cons, hnot.1, hnot.2, Prod.mk.injEq, true_and, or_false,
        false_or, Option.some.injEq]
      exact ⟨fun hy => ⟨hy.symm, hy ▸ hk⟩, fun hy => hy.1.symm⟩
    · rw [Function.update_of_ne hq, ← hmem]
      simp [hq]

/-! ## What keeps the order -/

variable [DecidableEq K]

omit [DecidableEq P] in
theorem inOrder_empty : InOrder w flow (fun _ => none) [] [] where
  on _ _ h := nomatch h
  order _ := ⟨[], ⟨List.Pairwise.nil, fun _ _ => by simp⟩, rfl⟩

omit [DecidableEq P] in
/-- What left is a prefix of what entered, in each flow. -/
theorem InOrder.prefix_of (h : InOrder w flow held entered left) (k : K) :
    ofFlow flow k left <+: ofFlow flow k entered := by
  obtain ⟨inside, -, heq⟩ := h.order k
  exact heq ▸ List.prefix_append _ _

omit [DecidableEq P] in
/-- What left had entered. -/
theorem InOrder.mem_entered (h : InOrder w flow held entered left) {x : X} (hx : x ∈ left) :
    x ∈ entered := by
  have hflow : x ∈ ofFlow flow (flow x) left := List.mem_filter.2 ⟨hx, decide_eq_true rfl⟩
  exact (List.mem_filter.1 ((h.prefix_of (flow x)).subset hflow)).1

/-- A packet enters at the start of its way. -/
theorem InOrder.enter (h : InOrder w flow held entered left) {p : P} {x : X} (hp : held p = none)
    (hon : w.on (flow x) p) (hfar : ∀ q, w.on (flow x) q → w.dist (flow x) q ≤ w.dist (flow x) p) :
    InOrder w flow (Function.update held p (some x)) (entered ++ [x]) left where
  on q y hq := by
    by_cases hqp : q = p
    · subst hqp
      rw [Function.update_self, Option.some.injEq] at hq
      exact hq ▸ hon
    · rw [Function.update_of_ne hqp] at hq
      exact h.on q y hq
  order k := by
    obtain ⟨inside, hinside, heq⟩ := h.order k
    by_cases hk : flow x = k
    · subst hk
      refine ⟨inside ++ [(p, x)], Inside.insert (by rwa [List.append_nil]) hp rfl
        (fun a ha => ?_) (fun a ha => nomatch ha), ?_⟩
      · -- a packet inside is not farther than the start, and not there
        obtain ⟨hheld, hflow⟩ := (hinside.mem a.1 a.2).1 ha
        have hona := h.on a.1 a.2 hheld
        rw [hflow] at hona
        refine Nat.lt_of_le_of_ne (hfar a.1 hona) fun hdist => ?_
        rw [w.inj hona hon hdist, hp] at hheld
        cases hheld
      · simp only [ofFlow] at heq
        simp [ofFlow, List.filter_append, heq]
    · refine ⟨inside, hinside.other (fun y hy => ?_) fun y hy => ?_, ?_⟩
      · rw [hp] at hy
        cases hy
      · rwa [← Option.some.inj hy]
      · simp only [ofFlow] at heq
        simp [ofFlow, List.filter_append, heq, hk]

/-- A packet leaves from the end of its way. -/
theorem InOrder.leave (h : InOrder w flow held entered left) {p : P} {x : X} (hp : held p = some x)
    (hnear : ∀ q, w.on (flow x) q → w.dist (flow x) p ≤ w.dist (flow x) q) :
    InOrder w flow (Function.update held p none) entered (left ++ [x]) where
  on q y hq := by
    by_cases hqp : q = p
    · subst hqp
      rw [Function.update_self] at hq
      cases hq
    · rw [Function.update_of_ne hqp] at hq
      exact h.on q y hq
  order k := by
    obtain ⟨inside, hinside, heq⟩ := h.order k
    by_cases hk : flow x = k
    · subst hk
      obtain ⟨before, after, rfl, hbefore, -⟩ := hinside.split hp rfl
      -- nothing is in front of it
      have hnil : before = [] := by
        refine List.eq_nil_iff_forall_not_mem.2 fun a ha => ?_
        obtain ⟨hheld, hflow⟩ := (hinside.mem a.1 a.2).1 (by simp [ha])
        have hona := h.on a.1 a.2 hheld
        rw [hflow] at hona
        exact absurd (hbefore a ha) (Nat.not_lt.2 (hnear a.1 hona))
      subst hnil
      refine ⟨after, hinside.remove, ?_⟩
      simp only [ofFlow] at heq
      simp [ofFlow, List.filter_append, heq]
    · refine ⟨inside, hinside.other (fun y hy => ?_) (fun y hy => nomatch hy), ?_⟩
      · rw [hp, Option.some.injEq] at hy
        rwa [← hy]
      · simp only [ofFlow] at heq
        simp [ofFlow, List.filter_append, heq, hk]

/-- A packet hops to the free place in front of it. -/
theorem InOrder.hop (h : InOrder w flow held entered left) {p q : P} {x : X} (hp : held p = some x)
    (hq : held q = none) (hon : w.on (flow x) q)
    (hdist : w.dist (flow x) q + 1 = w.dist (flow x) p) :
    InOrder w flow (Function.update (Function.update held p none) q (some x)) entered left where
  on r y hr := by
    by_cases hrq : r = q
    · subst hrq
      rw [Function.update_self, Option.some.injEq] at hr
      exact hr ▸ hon
    · rw [Function.update_of_ne hrq] at hr
      by_cases hrp : r = p
      · subst hrp
        rw [Function.update_self] at hr
        cases hr
      · rw [Function.update_of_ne hrp] at hr
        exact h.on r y hr
  order k := by
    have hqp : q ≠ p := by
      rintro rfl
      rw [hp] at hq
      cases hq
    have hq' : Function.update held p none q = none := by rwa [Function.update_of_ne hqp]
    obtain ⟨inside, hinside, heq⟩ := h.order k
    by_cases hk : flow x = k
    · subst hk
      obtain ⟨before, after, rfl, hbefore, hafter⟩ := hinside.split hp rfl
      refine ⟨before ++ (q, x) :: after, hinside.remove.insert hq' rfl (fun a ha => ?_)
        (fun a ha => ?_), by simpa using heq⟩
      · -- the place in front is free, so the packets there are farther ahead
        obtain ⟨hheld, hflow⟩ := (hinside.mem a.1 a.2).1 (by simp [ha])
        have hona := h.on a.1 a.2 hheld
        rw [hflow] at hona
        have hne : w.dist (flow x) a.1 ≠ w.dist (flow x) q := fun hd => by
          rw [w.inj hona hon hd, hq] at hheld
          cases hheld
        have hlt := hbefore a ha
        omega
      · have hlt := hafter a ha
        omega
    · refine ⟨inside, (hinside.other (v := none) (fun y hy => ?_) (fun y hy => nomatch hy)).other
        (fun y hy => ?_) fun y hy => ?_, heq⟩
      · rw [hp, Option.some.injEq] at hy
        rwa [← hy]
      · rw [hq'] at hy
        cases hy
      · rwa [← Option.some.inj hy]

end Flow
