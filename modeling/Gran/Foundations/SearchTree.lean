import Mathlib.Data.List.Nodup
import Mathlib.Data.List.Pairwise

/-!
# Search trees with a comparison of stored and sought values

A descent compares each stored value with what is sought and stops at the first match. The
comparison need not order the stored values: `Directed` asks only that for the value sought its sign
does not decrease along the tree. Then a descent finds a match if there is one, the one that is
above all the others (`descend_above`). `Store` is an implementation of such a tree that may
rebalance it in every operation, with the laws that its operations keep.
-/

namespace SearchTree

variable {A B : Type*}

/-- A binary tree. -/
inductive Tree (A : Type*) where
  | nil
  | node (left : Tree A) (value : A) (right : Tree A)

/-- The values from left to right. -/
def Tree.inorder : Tree A → List A
  | .nil => []
  | .node left value right => left.inorder ++ value :: right.inorder

@[simp] theorem inorder_nil : (Tree.nil : Tree A).inorder = [] := rfl

@[simp] theorem inorder_node (left : Tree A) (value : A) (right : Tree A) :
    (Tree.node left value right).inorder = left.inorder ++ value :: right.inorder := rfl

/-- One value is in the subtree under another one. -/
def Tree.Above : Tree A → A → A → Prop
  | .nil, _, _ => False
  | .node left value right, a, b =>
      a = value ∧ (b ∈ left.inorder ∨ b ∈ right.inorder) ∨ left.Above a b ∨ right.Above a b

variable (cmp : A → B → Int)

/-- Search from the root: a stored value that is greater than the one sought sends the search to its
left, a smaller one to its right. -/
def descend : Tree A → B → Option A
  | .nil, _ => none
  | .node left value right, b =>
      if cmp value b = 0 then some value
      else if 0 < cmp value b then descend left b else descend right b

/-- Put a value where a search for it ends. -/
def insertLeaf (cmp : A → A → Int) : Tree A → A → Tree A
  | .nil, a => .node .nil a .nil
  | .node left value right, a =>
      if 0 < cmp value a then .node (insertLeaf cmp left a) value right
      else .node left value (insertLeaf cmp right a)

/-- The sign of the comparison does not decrease along the values. -/
def Directed (l : List A) (b : B) : Prop :=
  l.Pairwise fun x y => (0 ≤ cmp x b → 0 ≤ cmp y b) ∧ (0 < cmp x b → 0 < cmp y b)

variable {cmp}

/-! ## What is above what -/

theorem Tree.Above.mem {t : Tree A} {a b : A} (h : t.Above a b) :
    a ∈ t.inorder ∧ b ∈ t.inorder := by
  induction t with
  | nil => exact h.elim
  | node left value right ihl ihr =>
      rw [inorder_node, List.mem_append, List.mem_append, List.mem_cons, List.mem_cons]
      rcases h with ⟨rfl, hb | hb⟩ | h | h
      · exact ⟨Or.inr (Or.inl rfl), Or.inl hb⟩
      · exact ⟨Or.inr (Or.inl rfl), Or.inr (Or.inr hb)⟩
      · exact ⟨Or.inl (ihl h).1, Or.inl (ihl h).2⟩
      · exact ⟨Or.inr (Or.inr (ihr h).1), Or.inr (Or.inr (ihr h).2)⟩

/-- No two values of a tree without repetitions are above each other. -/
theorem Tree.Above.asymm {t : Tree A} (hnodup : t.inorder.Nodup) {a b : A} (hab : t.Above a b)
    (hba : t.Above b a) : False := by
  induction t with
  | nil => exact hab
  | node left value right ihl ihr =>
      rw [inorder_node, List.nodup_middle, List.nodup_cons, List.nodup_append] at hnodup
      obtain ⟨hvalue, hl, hr, hdisj⟩ := hnodup
      have hnot : ∀ {x}, x ∈ left.inorder ∨ x ∈ right.inorder → x ≠ value := by
        rintro x hx rfl
        exact hvalue (List.mem_append.2 hx)
      have hne : ∀ {x}, x ∈ left.inorder → x ∈ right.inorder → False := fun hx hx' =>
        hdisj _ hx _ hx' rfl
      rcases hab with ⟨rfl, hb⟩ | hab | hab
      · rcases hba with ⟨rfl, -⟩ | hba | hba
        · exact hnot hb rfl
        · exact hnot (Or.inl hba.mem.2) rfl
        · exact hnot (Or.inr hba.mem.2) rfl
      · rcases hba with ⟨rfl, -⟩ | hba | hba
        · exact hnot (Or.inl hab.mem.2) rfl
        · exact ihl hl hab hba
        · exact hne hab.mem.1 hba.mem.2
      · rcases hba with ⟨rfl, -⟩ | hba | hba
        · exact hnot (Or.inr hab.mem.2) rfl
        · exact hne hba.mem.2 hab.mem.1
        · exact ihr hr hab hba

/-! ## Searching -/

/-- What a search finds is a match in the tree. -/
theorem descend_some {t : Tree A} {b : B} {a : A} (h : descend cmp t b = some a) :
    a ∈ t.inorder ∧ cmp a b = 0 := by
  induction t with
  | nil => cases h
  | node left value right ihl ihr =>
      rw [inorder_node, List.mem_append, List.mem_cons]
      unfold descend at h
      split at h
      · obtain rfl := Option.some.inj h
        exact ⟨Or.inr (Or.inl rfl), by assumption⟩
      · split at h
        · exact ⟨Or.inl (ihl h).1, (ihl h).2⟩
        · exact ⟨Or.inr (Or.inr (ihr h).1), (ihr h).2⟩

/-- In a directed tree the matches are all on the side a search turns to. -/
theorem Directed.side {left right : Tree A} {value : A} {b : B}
    (h : Directed cmp (Tree.node left value right).inorder b) {a : A} (hmatch : cmp a b = 0)
    (ha : a ∈ (Tree.node left value right).inorder) :
    a = value ∨ a ∈ left.inorder ∧ 0 ≤ cmp value b ∨ a ∈ right.inorder ∧ cmp value b ≤ 0 := by
  rw [Directed, inorder_node, List.pairwise_append, List.pairwise_cons] at h
  obtain ⟨-, ⟨hright, -⟩, hcross⟩ := h
  rw [inorder_node, List.mem_append, List.mem_cons] at ha
  rcases ha with ha | rfl | ha
  · exact Or.inr (Or.inl ⟨ha, (hcross a ha value (by simp)).1 (Int.le_of_eq hmatch.symm)⟩)
  · exact Or.inl rfl
  · refine Or.inr (Or.inr ⟨ha, Int.not_lt.1 fun hpos => ?_⟩)
    have := (hright a ha).2 hpos
    omega

theorem Directed.left {left right : Tree A} {value : A} {b : B}
    (h : Directed cmp (Tree.node left value right).inorder b) : Directed cmp left.inorder b :=
  (List.pairwise_append.1 h).1

theorem Directed.right {left right : Tree A} {value : A} {b : B}
    (h : Directed cmp (Tree.node left value right).inorder b) : Directed cmp right.inorder b :=
  (List.pairwise_cons.1 (List.pairwise_append.1 h).2.1).2

/-- If a directed tree holds a match, a search finds one, and every other match is under it. -/
theorem descend_above {t : Tree A} {b : B} (h : Directed cmp t.inorder b)
    (hmatch : ∃ a ∈ t.inorder, cmp a b = 0) :
    ∃ a, descend cmp t b = some a ∧
      ∀ a' ∈ t.inorder, cmp a' b = 0 → a' = a ∨ t.Above a a' := by
  induction t with
  | nil => obtain ⟨a, ha, -⟩ := hmatch; cases ha
  | node left value right ihl ihr =>
      by_cases hzero : cmp value b = 0
      · refine ⟨value, by rw [descend, if_pos hzero], fun a' ha' _ => ?_⟩
        rw [inorder_node, List.mem_append, List.mem_cons] at ha'
        rcases ha' with ha' | rfl | ha'
        · exact Or.inr (Or.inl ⟨rfl, Or.inl ha'⟩)
        · exact Or.inl rfl
        · exact Or.inr (Or.inl ⟨rfl, Or.inr ha'⟩)
      · -- no match is here, so they are all on one side
        have hside : ∀ a ∈ (Tree.node left value right).inorder, cmp a b = 0 →
            a ∈ left.inorder ∧ 0 < cmp value b ∨ a ∈ right.inorder ∧ ¬ 0 < cmp value b := by
          intro a ha hab
          rcases h.side hab ha with rfl | ⟨ha, hle⟩ | ⟨ha, hle⟩
          · exact absurd hab hzero
          · exact Or.inl ⟨ha, by omega⟩
          · exact Or.inr ⟨ha, by omega⟩
        obtain ⟨a, ha, hab⟩ := hmatch
        by_cases hpos : 0 < cmp value b
        · have hleft : ∀ a ∈ (Tree.node left value right).inorder, cmp a b = 0 →
              a ∈ left.inorder := fun a ha hab =>
            ((hside a ha hab).resolve_right fun h => h.2 hpos).1
          obtain ⟨v, hv, hall⟩ := ihl h.left ⟨a, hleft a ha hab, hab⟩
          refine ⟨v, by rw [descend, if_neg hzero, if_pos hpos, hv], fun a' ha' hab' => ?_⟩
          exact (hall a' (hleft a' ha' hab') hab').imp_right fun h => Or.inr (Or.inl h)
        · have hright : ∀ a ∈ (Tree.node left value right).inorder, cmp a b = 0 →
              a ∈ right.inorder := fun a ha hab =>
            ((hside a ha hab).resolve_left fun h => hpos h.2).1
          obtain ⟨v, hv, hall⟩ := ihr h.right ⟨a, hright a ha hab, hab⟩
          refine ⟨v, by rw [descend, if_neg hzero, if_neg hpos, hv], fun a' ha' hab' => ?_⟩
          exact (hall a' (hright a' ha' hab') hab').imp_right fun h => Or.inr (Or.inr h)

/-- A search in a directed tree finds nothing exactly if nothing matches. -/
theorem descend_eq_none {t : Tree A} {b : B} (h : Directed cmp t.inorder b) :
    descend cmp t b = none ↔ ∀ a ∈ t.inorder, cmp a b ≠ 0 := by
  constructor
  · intro hnone a ha hab
    obtain ⟨v, hv, -⟩ := descend_above h ⟨a, ha, hab⟩
    rw [hnone] at hv
    cases hv
  · intro hall
    cases hv : descend cmp t b with
    | none => rfl
    | some v => exact absurd (descend_some hv).2 (hall v (descend_some hv).1)

/-- A search in a directed tree without repetitions finds a match exactly if it is above all the
others. -/
theorem descend_eq_some {t : Tree A} {b : B} (h : Directed cmp t.inorder b)
    (hnodup : t.inorder.Nodup) {a : A} (ha : a ∈ t.inorder) (hab : cmp a b = 0) :
    descend cmp t b = some a ↔ ∀ a' ∈ t.inorder, cmp a' b = 0 → a' = a ∨ t.Above a a' := by
  obtain ⟨v, hv, hall⟩ := descend_above h ⟨a, ha, hab⟩
  constructor
  · intro hdesc
    obtain rfl := Option.some.inj (hv.symm.trans hdesc)
    exact hall
  · intro habove
    obtain ⟨hmem, hmatch⟩ := descend_some hv
    rcases hall a ha hab with rfl | hva
    · exact hv
    · rcases habove v hmem hmatch with rfl | hav
      · exact hv
      · exact (hav.asymm hnodup hva).elim

/-! ## Inserting -/

/-- Inserting adds the value. -/
theorem insertLeaf_perm {cmp : A → A → Int} (t : Tree A) (a : A) :
    (insertLeaf cmp t a).inorder.Perm (a :: t.inorder) := by
  induction t with
  | nil => exact List.Perm.refl _
  | node left value right ihl ihr =>
      unfold insertLeaf
      split
      · exact ihl.append_right _
      · refine (List.Perm.append_left left.inorder (ihr.cons value)).trans ?_
        refine (List.Perm.append_left left.inorder (List.Perm.swap a value _)).trans ?_
        exact List.perm_middle

/-- Inserting a value that the comparison directs keeps the values of a tree in order. -/
theorem insertLeaf_pairwise {cmp : A → A → Int} {before : A → A → Prop} {t : Tree A} {a : A}
    (hbefore : t.inorder.Pairwise before) (h : Directed cmp t.inorder a)
    (hgreater : ∀ x ∈ t.inorder, 0 < cmp x a → before a x)
    (hless : ∀ x ∈ t.inorder, ¬ 0 < cmp x a → before x a) :
    (insertLeaf cmp t a).inorder.Pairwise before := by
  induction t with
  | nil => exact List.pairwise_singleton _ _
  | node left value right ihl ihr =>
      have hdir := h
      rw [Directed, inorder_node, List.pairwise_append, List.pairwise_cons] at hdir
      obtain ⟨-, ⟨hright, -⟩, hcross⟩ := hdir
      rw [inorder_node, List.pairwise_append, List.pairwise_cons] at hbefore
      obtain ⟨hbl, ⟨hbv, hbr⟩, hbcross⟩ := hbefore
      have hmem : ∀ x, x ∈ (Tree.node left value right).inorder ↔
          x ∈ left.inorder ∨ x = value ∨ x ∈ right.inorder := by simp
      unfold insertLeaf
      split
      case isTrue hpos =>
          rw [inorder_node, List.pairwise_append, List.pairwise_cons]
          refine ⟨ihl hbl h.left (fun x hx => hgreater x ((hmem x).2 (Or.inl hx)))
            (fun x hx => hless x ((hmem x).2 (Or.inl hx))), ⟨hbv, hbr⟩, ?_⟩
          intro x hx y hy
          rcases List.mem_cons.1 ((insertLeaf_perm left a).mem_iff.1 hx) with rfl | hx
          · rcases List.mem_cons.1 hy with rfl | hy
            · exact hgreater _ ((hmem _).2 (Or.inr (Or.inl rfl))) hpos
            · exact hgreater y ((hmem y).2 (Or.inr (Or.inr hy))) ((hright y hy).2 hpos)
          · exact hbcross x hx y hy
      case isFalse hpos =>
          have hva : before value a := hless _ ((hmem _).2 (Or.inr (Or.inl rfl))) hpos
          rw [inorder_node, List.pairwise_append, List.pairwise_cons]
          refine ⟨hbl, ⟨?_, ihr hbr h.right
            (fun x hx => hgreater x ((hmem x).2 (Or.inr (Or.inr hx))))
            (fun x hx => hless x ((hmem x).2 (Or.inr (Or.inr hx))))⟩, ?_⟩
          · intro y hy
            rcases List.mem_cons.1 ((insertLeaf_perm right a).mem_iff.1 hy) with rfl | hy
            · exact hva
            · exact hbv y hy
          · intro x hx y hy
            rcases List.mem_cons.1 hy with rfl | hy
            · exact hbcross x hx _ (by simp)
            · rcases List.mem_cons.1 ((insertLeaf_perm right a).mem_iff.1 hy) with rfl | hy
              · refine hless x ((hmem x).2 (Or.inl hx)) fun hx0 => hpos ?_
                exact (hcross x hx value (by simp)).2 hx0
              · exact hbcross x hx y (by simp [hy])

/-! ## Implementations -/

/-- A tree whose operations descend by `cmp` and may rebalance it. `insert` says whether it inserted
the value, which it does unless the search for it ends at a match; `find` returns what the search
ends at, and `remove` takes out a value that was found. -/
structure Store (A : Type) [DecidableEq A] (cmp : A → A → Int) where
  T : Type
  shape : T → Tree A
  create : T
  insert : T → A → Bool × T
  find : T → A → Option A × T
  remove : T → A → T
  shape_create : (shape create).inorder = []
  insert_fst : ∀ t a, (insert t a).1 = (descend cmp (shape t) a).isNone
  insert_match : ∀ t a, (insert t a).1 = false → (shape (insert t a).2).inorder = (shape t).inorder
  insert_new : ∀ t a, (insert t a).1 = true →
    (shape (insert t a).2).inorder = (insertLeaf cmp (shape t) a).inorder
  find_fst : ∀ t a, (find t a).1 = descend cmp (shape t) a
  find_snd : ∀ t a, (shape (find t a).2).inorder = (shape t).inorder
  remove_inorder : ∀ t a, a ∈ (shape t).inorder →
    (shape (remove t a)).inorder = (shape t).inorder.erase a

/-- A tree that leans to the right. -/
def ofList : List A → Tree A
  | [] => .nil
  | a :: l => .node .nil a (ofList l)

theorem inorder_ofList (l : List A) : (ofList l).inorder = l := by
  induction l with
  | nil => rfl
  | cons a l ih =>
      show a :: (ofList l).inorder = a :: l
      rw [ih]

/-- The tree that only rebalances when it removes. -/
def Store.plain (A : Type) [DecidableEq A] (cmp : A → A → Int) : Store A cmp where
  T := Tree A
  shape t := t
  create := .nil
  insert t a := if (descend cmp t a).isNone then (true, insertLeaf cmp t a) else (false, t)
  find t a := (descend cmp t a, t)
  remove t a := ofList (t.inorder.erase a)
  shape_create := rfl
  insert_fst t a := by cases h : (descend cmp t a).isNone <;> simp
  insert_match t a := by cases h : (descend cmp t a).isNone <;> simp
  insert_new t a := by cases h : (descend cmp t a).isNone <;> simp
  find_fst _ _ := rfl
  find_snd _ _ := rfl
  remove_inorder _ _ _ := inorder_ofList _

end SearchTree
