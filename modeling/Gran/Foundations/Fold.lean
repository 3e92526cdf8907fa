import Mathlib.Logic.Relation

/-!
# Loops that may abort

A loop over a list whose body may abort is `List.foldlM` in `Option`. The lemmas turn a fact about
one iteration into one about the loop: a preorder the body respects (`foldlM_rel`), an invariant
that keeps the body from aborting (`foldlM_some`) or makes two bodies agree (`foldlM_congr`), two
loops in lockstep (`foldlM_commute`), and the states around one chosen iteration (`foldlM_mid`).
`Along` is a condition on every iteration of a loop, and `foldlM_along` traces a property to the
iterations that break it.
-/

namespace Fold

variable {S A : Type*} {f : S → A → Option S}

/-- A reflexive and transitive relation between the states before and after each iteration holds
between the states before and after the loop. -/
theorem foldlM_rel (R : S → S → Prop) (hrefl : ∀ s, R s s)
    (htrans : ∀ a b c, R a b → R b c → R a c) {l : List A}
    (hf : ∀ s a s', a ∈ l → f s a = some s' → R s s') {s s' : S}
    (h : l.foldlM f s = some s') : R s s' := by
  induction l generalizing s with
  | nil => cases h; exact hrefl _
  | cons a l ih =>
      simp only [List.foldlM_cons, Option.bind_eq_bind, Option.bind_eq_some_iff] at h
      obtain ⟨t, ha, hl⟩ := h
      exact htrans _ t _ (hf _ a t (by simp) ha)
        (ih (fun s b s' hb => hf s b s' (by simp [hb])) hl)

/-- A loop whose body keeps an invariant and does not abort under it does not abort. -/
theorem foldlM_some (I : S → Prop) {l : List A}
    (hf : ∀ s a, a ∈ l → I s → ∃ s', f s a = some s' ∧ I s') {s : S} (hs : I s) :
    ∃ s', l.foldlM f s = some s' ∧ I s' := by
  induction l generalizing s with
  | nil => exact ⟨s, rfl, hs⟩
  | cons a l ih =>
      obtain ⟨t, ha, ht⟩ := hf s a (by simp) hs
      obtain ⟨s', hl, hs'⟩ := ih (fun s b hb => hf s b (by simp [hb])) ht
      exact ⟨s', by simp [ha, hl], hs'⟩

/-- Loops whose bodies agree under an invariant agree. -/
theorem foldlM_congr {g : S → A → Option S} (I : S → Prop) {l : List A}
    (hf : ∀ s a, a ∈ l → I s → f s a = g s a ∧ ∀ s', g s a = some s' → I s') {s : S} (hs : I s) :
    l.foldlM f s = l.foldlM g s := by
  induction l generalizing s with
  | nil => rfl
  | cons a l ih =>
      obtain ⟨hbody, hkeep⟩ := hf s a (by simp) hs
      rw [List.foldlM_cons, List.foldlM_cons, hbody]
      exact Option.bind_congr fun t ht => ih (fun s b hb => hf s b (by simp [hb])) (hkeep t ht)

/-- Loops in lockstep: if each iteration commutes with a map of the states, so does the loop. -/
theorem foldlM_commute {T B : Type*} {g : T → B → Option T} (I : S → Prop) (φ : S → T) (ψ : A → B)
    {l : List A} (hf : ∀ s a, a ∈ l → I s → g (φ s) (ψ a) = (f s a).map φ ∧
      ∀ s', f s a = some s' → I s') {s : S} (hs : I s) :
    (l.map ψ).foldlM g (φ s) = (l.foldlM f s).map φ := by
  induction l generalizing s with
  | nil => rfl
  | cons a l ih =>
      obtain ⟨hbody, hkeep⟩ := hf s a (by simp) hs
      rw [List.map_cons, List.foldlM_cons, List.foldlM_cons, hbody]
      cases ha : f s a with
      | none => rfl
      | some t => exact ih (fun s b hb => hf s b (by simp [hb])) (hkeep t ha)

/-- Two loops over one list, whose bodies succeed and keep a relation between the states. -/
theorem foldlM_both {T : Type*} {g : T → A → Option T} (R : S → T → Prop) {l : List A}
    (hf : ∀ s t a, a ∈ l → R s t → ∃ s' t', f s a = some s' ∧ g t a = some t' ∧ R s' t')
    {s : S} {t : T} (h : R s t) :
    ∃ s' t', l.foldlM f s = some s' ∧ l.foldlM g t = some t' ∧ R s' t' := by
  induction l generalizing s t with
  | nil => exact ⟨s, t, rfl, rfl, h⟩
  | cons a l ih =>
      obtain ⟨u, v, hu, hv, huv⟩ := hf s t a (by simp) h
      obtain ⟨s', t', hs', ht', h'⟩ := ih (fun s t b hb => hf s t b (by simp [hb])) huv
      exact ⟨s', t', by simp [hu, hs'], by simp [hv, ht'], h'⟩

/-- A loop simulates another one over the same list if its body does. -/
theorem foldlM_sim {T : Type*} {g : T → A → Option T} (R : S → T → Prop) {l : List A}
    (hf : ∀ s t a s', a ∈ l → R s t → f s a = some s' → ∃ t', g t a = some t' ∧ R s' t')
    {s s' : S} {t : T} (h : R s t) (hs : l.foldlM f s = some s') :
    ∃ t', l.foldlM g t = some t' ∧ R s' t' := by
  induction l generalizing s t with
  | nil => cases hs; exact ⟨t, rfl, h⟩
  | cons a l ih =>
      simp only [List.foldlM_cons, Option.bind_eq_bind, Option.bind_eq_some_iff] at hs
      obtain ⟨u, ha, hl⟩ := hs
      obtain ⟨v, hv, huv⟩ := hf s t a u (by simp) h ha
      obtain ⟨t', ht', h'⟩ := ih (fun s t b s' hb => hf s t b s' (by simp [hb])) huv hl
      exact ⟨t', by simp [hv, ht'], h'⟩

/-- An invariant that the body keeps holds after the loop. -/
theorem foldlM_keep (I : S → Prop) {l : List A}
    (hf : ∀ s a s', a ∈ l → I s → f s a = some s' → I s') {s s' : S} (hs : I s)
    (h : l.foldlM f s = some s') : I s' :=
  foldlM_rel (fun a b => I a → I b) (fun _ h => h) (fun _ _ _ hab hbc h => hbc (hab h))
    (fun s a s' ha hfa hs => hf s a s' ha hs hfa) h hs

/-- Both at once: such a loop ends in a state that the preorder relates to the first one. -/
theorem foldlM_total (I : S → Prop) (R : S → S → Prop) (hrefl : ∀ s, R s s)
    (htrans : ∀ a b c, R a b → R b c → R a c) {l : List A}
    (hf : ∀ s a, a ∈ l → I s → ∃ s', f s a = some s' ∧ I s' ∧ R s s') {s : S} (hs : I s) :
    ∃ s', l.foldlM f s = some s' ∧ I s' ∧ R s s' := by
  refine foldlM_some (fun t => I t ∧ R s t) ?_ ⟨hs, hrefl s⟩
  intro t a ha ht
  obtain ⟨t', hft, hit, hrt⟩ := hf t a ha ht.1
  exact ⟨t', hft, hit, htrans s t t' ht.2 hrt⟩

/-- The states before and after the iteration for one element of the list, with what relates them
to the ends of the loop. -/
theorem foldlM_mid (R : S → S → Prop) (hrefl : ∀ s, R s s)
    (htrans : ∀ a b c, R a b → R b c → R a c) {l : List A}
    (hf : ∀ s a s', a ∈ l → f s a = some s' → R s s') {s s' : S}
    (h : l.foldlM f s = some s') {a : A} (ha : a ∈ l) :
    ∃ t t', R s t ∧ f t a = some t' ∧ R t t' ∧ R t' s' := by
  induction l generalizing s with
  | nil => simp at ha
  | cons b l ih =>
      simp only [List.foldlM_cons, Option.bind_eq_bind, Option.bind_eq_some_iff] at h
      obtain ⟨u, hb, hl⟩ := h
      have hbody : ∀ s a s', a ∈ l → f s a = some s' → R s s' :=
        fun s c s' hc => hf s c s' (by simp [hc])
      have hsu : R s u := hf s b u (by simp) hb
      rcases List.mem_cons.1 ha with rfl | ha
      · exact ⟨s, u, hrefl s, hb, hsu, foldlM_rel R hrefl htrans hbody hl⟩
      · obtain ⟨t, t', h1, h2, h3, h4⟩ := ih hbody hl ha
        exact ⟨t, t', htrans s u t hsu h1, h2, h3, h4⟩

/-- A loop over distinct elements of which only one changes a view of the state changes that view
once. -/
theorem foldlM_focus {V : Type*} [DecidableEq A] (I : S → Prop) (view : S → V) (g : V → V) (a₀ : A)
    {l : List A} (hnodup : l.Nodup)
    (hf : ∀ s a s', a ∈ l → I s → f s a = some s' →
      I s' ∧ view s' = if a = a₀ then g (view s) else view s)
    {s s' : S} (hs : I s) (h : l.foldlM f s = some s') :
    view s' = if a₀ ∈ l then g (view s) else view s := by
  induction l generalizing s with
  | nil => cases h; rfl
  | cons a l ih =>
      simp only [List.foldlM_cons, Option.bind_eq_bind, Option.bind_eq_some_iff] at h
      obtain ⟨t, ha, hl⟩ := h
      obtain ⟨hmem, hnodup⟩ := List.nodup_cons.1 hnodup
      obtain ⟨ht, hview⟩ := hf s a t (by simp) hs ha
      have hrest := ih hnodup (fun s b s' hb => hf s b s' (by simp [hb])) ht hl
      rw [hrest, hview]
      by_cases heq : a = a₀
      · subst heq
        simp [hmem]
      · simp [heq, Ne.symm heq]

/-- A condition on each iteration of a loop, in the state the iteration begins in. -/
def Along (f : S → A → Option S) (C : S → A → Prop) : List A → S → Prop
  | [], _ => True
  | a :: l, s => C s a ∧ ∀ t, f s a = some t → Along f C l t

instance decidableAlong (f : S → A → Option S) (C : S → A → Prop) [∀ s a, Decidable (C s a)] :
    (l : List A) → (s : S) → Decidable (Along f C l s)
  | [], _ => .isTrue trivial
  | a :: l, s =>
      match h : f s a with
      | none => decidable_of_iff (C s a) (by simp [Along, h])
      | some t =>
          have := decidableAlong f C l t
          decidable_of_iff (C s a ∧ Along f C l t) (by simp [Along, h])

theorem Along.mono {C C' : S → A → Prop} (h : ∀ s a, C s a → C' s a) {l : List A} {s : S}
    (hl : Along f C l s) : Along f C' l s := by
  induction l generalizing s with
  | nil => trivial
  | cons a l ih => exact ⟨h s a hl.1, fun t ht => ih (hl.2 t ht)⟩

theorem along_true (l : List A) (s : S) : Along f (fun _ _ => True) l s := by
  induction l generalizing s with
  | nil => trivial
  | cons a l ih => exact ⟨trivial, fun t _ => ih t⟩

/-- A condition that is one on the view of each element of the list, which no iteration for another
element changes, may be read off before the loop. -/
theorem along_iff {C : S → A → Prop} (D : A → S → Prop) {l : List A}
    (hC : ∀ s a, C s a ↔ D a s) (hkeep : ∀ s a s' b, f s a = some s' → D b s → D b s')
    (hback : ∀ s a s' b, b ≠ a → f s a = some s' → D b s' → D b s) {s s' : S}
    (h : l.foldlM f s = some s') : Along f C l s ↔ ∀ a ∈ l, D a s := by
  induction l generalizing s with
  | nil => simp [Along]
  | cons a l ih =>
      simp only [List.foldlM_cons, Option.bind_eq_bind, Option.bind_eq_some_iff] at h
      obtain ⟨t, ha, hl⟩ := h
      rw [Along, hC]
      simp only [ha, Option.some.injEq, forall_eq', ih hl, List.forall_mem_cons]
      refine and_congr_right fun hnow => ?_
      constructor
      · intro hrest b hb
        by_cases hba : b = a
        · exact hba ▸ hnow
        · exact hback s a t b hba ha (hrest b hb)
      · exact fun hrest b hb => hkeep s a t b ha (hrest b hb)

/-- Conditions that agree at every iteration that does not abort agree along a loop. -/
theorem along_congr {C C' : S → A → Prop} {l : List A}
    (h : ∀ s a s', f s a = some s' → (C s a ↔ C' s a)) {s s' : S} (hl : l.foldlM f s = some s') :
    Along f C l s ↔ Along f C' l s := by
  induction l generalizing s with
  | nil => exact Iff.rfl
  | cons a l ih =>
      simp only [List.foldlM_cons, Option.bind_eq_bind, Option.bind_eq_some_iff] at hl
      obtain ⟨t, ha, hl⟩ := hl
      simp only [Along, ha, Option.some.injEq, forall_eq', ih hl, h s a t ha]

/-- If each iteration keeps the invariant, keeps the property and brings it about exactly when it
breaks the condition, then the property holds after the loop exactly if it held before or some
iteration broke the condition. -/
theorem foldlM_along (I P : S → Prop) (C : S → A → Prop) {l : List A}
    (hf : ∀ s a, a ∈ l → I s → ∃ s', f s a = some s' ∧ I s' ∧ (P s' ↔ P s ∨ ¬ C s a))
    {s : S} (hs : I s) :
    ∃ s', l.foldlM f s = some s' ∧ I s' ∧ (P s' ↔ P s ∨ ¬ Along f C l s) := by
  induction l generalizing s with
  | nil => exact ⟨s, rfl, hs, by simp [Along]⟩
  | cons a l ih =>
      obtain ⟨t, ha, ht, hPt⟩ := hf s a (by simp) hs
      obtain ⟨s', hl, hs', hPs'⟩ := ih (fun s b hb => hf s b (by simp [hb])) ht
      refine ⟨s', by simp [ha, hl], hs', hPs'.trans ?_⟩
      rw [hPt]
      simp only [Along, ha, Option.some.injEq, forall_eq', Classical.not_and_iff_not_or_not,
        or_assoc]

end Fold
