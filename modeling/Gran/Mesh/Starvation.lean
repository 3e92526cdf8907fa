import Gran.Mesh.Cycles
import Gran.Mesh.Rivals

/-!
# Freedom from starvation

While packets are injected without end, no packet of a mesh waits forever. A packet that waits in an
input is passed by older packets only, of which there is a bounded number, and each of them waits
for the register in front: `Lively.leaves` says of every register that it does not stay busy for
longer than its `patience`, by induction from the registers of highest rank downwards, and
`Lively.starvation_free` that every packet accepted is delivered by a deadline.
-/

namespace Gran.Mesh

open PacketNet Relation

variable {N D : Type} [DecidableEq N] [DecidableEq D] {m : Mesh N D} {w : Wiring m}
  {ok : Place m → Packet → Prop} {addressed : Packet → Prop} {r r' : Run m}
  {ds : List (Drive N)} {c : N} {p : Place m} {T n : Nat}

/-! ## Patience -/

/-- What keeps the packets of a mesh moving: how long a register of each rank stays busy at most, in
cycles. A packet in an output waits for the register that it faces. One in an input waits for the
output it wants, for each of its `rivals` that an older packet may come from; an element input waits
for the other element inputs of the node as well, `step` for each. -/
structure Lively (w : Wiring m) (ok : Place m → Packet → Prop) (addressed : Packet → Prop) where
  admits : Admits w ok addressed
  inputs : ∀ d d', d' ≠ d → d' ∈ m.inputs d
  dirs : m.dirs.Nodup
  ranking : Ranking w ok
  top : Nat
  rank_le : ∀ p, ranking.rank p ≤ top
  rivals : (c : N) → Port D (m.elems c) → Port D (m.elems c) → Finset (Place m)
  closed : ∀ c q e, Closed w ok (rivals c q e)
  rivals_out : ∀ c q e, outAt c e ∉ rivals c q e
  rivals_inp : ∀ {c q q' e x y}, q' ≠ q → ok (inpAt c q) x → m.wants c e x = true →
    ok (inpAt c q') y → m.wants c e y = true → inpAt c q' ∈ rivals c q e
  patience : Nat → Nat
  step : Nat
  patience_pos : ∀ h, 0 < patience h
  patience_out : ∀ {c d c' x}, ok (outAt c (.dir d)) x → w.link c d = some c' →
    patience (ranking.rank (inpAt c' (.dir (w.opp d)))) < patience (ranking.rank (outAt c (.dir d)))
  patience_inp : ∀ {c d e x}, ok (inpAt c (.dir d)) x → m.wants c e x = true →
    ((rivals c (.dir d) e).card + 1) * patience (ranking.rank (outAt c e)) <
      patience (ranking.rank (inpAt c (.dir d)))
  step_le : ∀ {c i e x}, ok (inpAt c (.elem i)) x → m.wants c e x = true →
    ((rivals c (.elem i) e).card + 1) * patience (ranking.rank (outAt c e)) ≤ step
  patience_elem : ∀ c, m.elems c * step < patience 0

namespace Lively

variable (l : Lively w ok addressed)

include l in
/-- If every window of so many cycles in which something goes on makes a number less, then as many
windows make it less by their number. -/
theorem descends [Fintype D] {span : Nat} {μ : MeshState m → Nat}
    {G : List (Drive N) → Run m → Prop}
    (hG : ∀ {a b r r₁}, G (a ++ b) r → Run.Reachable addressed r →
      (∀ d ∈ a, Accepting m addressed d) → a.foldlM Run.drive r = some r₁ → G a r ∧ G b r₁)
    (hstep : ∀ {n ds} {r r' : Run m}, AtTime n r → T < n → r.Reachable addressed →
      Cycles (Accepting m addressed) span ds → n + span < 2 ^ 64 →
      ds.foldlM Run.drive r = some r' → G ds r → μ r'.state < μ r.state) :
    ∀ {k n ds} {r r' : Run m}, AtTime n r → T < n → r.Reachable addressed →
      Cycles (Accepting m addressed) (k * span) ds → n + k * span < 2 ^ 64 →
      ds.foldlM Run.drive r = some r' → G ds r → μ r'.state + k ≤ μ r.state := by
  intro k
  induction k with
  | zero =>
      intro n ds r r' _ _ _ hcycles _ hrun _
      rw [Nat.zero_mul] at hcycles
      cases hcycles
      cases hrun
      exact Nat.le_refl _
  | succ k ih =>
      intro n ds r r' htime hT hr hcycles hword hrun hgo
      rw [Nat.succ_mul, Nat.add_comm] at hcycles hword
      obtain ⟨a, b, rfl, ha, hb⟩ := hcycles.split
      rw [List.foldlM_append] at hrun
      obtain ⟨r₁, hrun₁, hrun₂⟩ := Option.bind_eq_some_iff.1 hrun
      obtain ⟨hgo₁, hgo₂⟩ := hG hgo hr ha.all hrun₁
      obtain ⟨htime₁, -⟩ := htime.cycles ha (by omega) hrun₁
      obtain ⟨r₁', hsome, hr₁⟩ := window_some l.admits hr ha.all
      obtain rfl := Option.some.inj (hrun₁.symm.trans hsome)
      have hrest := ih htime₁ (by omega) hr₁ hb (by omega) hrun₂ hgo₂
      have hfirst := hstep htime hT hr ha (by omega) hrun₁ hgo₁
      omega

variable [Fintype D] {l}

section Leaves

variable {q e : Port D (m.elems c)} {x : Packet} {P : Nat}

/-- A packet that the output it wants could take at every clock leaves when all rivals may have gone
on. -/
theorem candidate_leaves (hP : 0 < P) (hT : T < n) (hr : r.Reachable addressed)
    (htime : AtTime n r)
    (hcycles : Cycles (Accepting m addressed) (((l.rivals c q e).card + 1) * P) ds)
    (hword : n + ((l.rivals c q e).card + 1) * P < 2 ^ 64)
    (hx : held r.state (inpAt c q) = some x) (hold : Old T x) (hwants : m.wants c e x = true)
    (hcand : ∀ v, Mid c ds r v → some q ∈ m.candidates c (eldestElem (v.nodes c)) e)
    (hahead : ∀ {n ds} {r : Run m}, AtTime n r → r.Reachable addressed →
      Cycles (Accepting m addressed) P ds → n + P < 2 ^ 64 → ¬ Waits ds r (outAt c e)) :
    ¬ Waits ds r (inpAt c q) := by
  intro hwaits
  have hok := (reachable_routed l.admits hr).held (inpAt c q) x hx
  obtain ⟨r', hrun, -⟩ := window_some l.admits hr hcycles.all
  have hcount := descends l (T := T) (μ := fun s => (oldIn T (l.rivals c q e) s).card)
    (G := fun ds r => Waits ds r (inpAt c q) ∧ held r.state (inpAt c q) = some x ∧
      ∀ v, Mid c ds r v → some q ∈ m.candidates c (eldestElem (v.nodes c)) e)
    (fun ⟨hwaits, hx, hcand⟩ hr hall hrun =>
      ⟨⟨hwaits.left, hx, fun v hmid => hcand v (hmid.append _)⟩, hwaits.right hrun,
        waits_same l.admits l.dirs hr hall hwaits.left hx (Sees.last hrun),
        fun v hmid => hcand v (Mid.after hrun hmid)⟩)
    (fun {n ds r r'} htime hT hr hcycles hword hrun ⟨hwaits, hx, hcand⟩ => by
      by_contra hkept
      obtain ⟨P', rfl⟩ := Nat.exists_eq_succ_of_ne_zero hP.ne'
      obtain ⟨answer, hclock⟩ := hcycles.clock c
      exact hahead htime hr hcycles hword (candidate_stuck l.admits l.dirs hr hcycles.all
        ((htime.cycles hcycles hword hrun).2 T hT) hrun hclock (l.closed c q e) (l.rivals_out c q e)
        (fun q' y hq hy hwants' => l.rivals_inp hq hok hwants hy hwants') hwaits hx hold hwants
        hcand (Nat.not_lt.1 hkept)))
    htime hT hr hcycles hword hrun ⟨hwaits, hx, hcand⟩
  have hle := Finset.card_le_card (oldIn_subset (T := T) (F := l.rivals c q e) (s := r.state))
  omega

end Leaves

variable [Fintype N]

include l in
/-- A packet held was accepted. -/
theorem held_old (hr : r.Reachable addressed) (htime : AtTime n r) {x : Packet}
    (hx : held r.state p = some x) : Old n x := by
  refine htime.stamp x ?_
  rw [reachable_conserved l.admits hr]
  refine Multiset.mem_add.2 (.inl (Multiset.mem_sum.2 ⟨p, Finset.mem_univ p, ?_⟩))
  rw [hx]
  exact Multiset.mem_singleton_self x

section Inputs

variable (hr : r.Reachable addressed) (htime : AtTime n r)
  (hahead : ∀ {n ds} {r : Run m} {e}, AtTime n r → r.Reachable addressed →
    Cycles (Accepting m addressed) (l.patience (l.ranking.rank (outAt c e))) ds →
    n + l.patience (l.ranking.rank (outAt c e)) < 2 ^ 64 →
    l.ranking.rank p < l.ranking.rank (outAt c e) → ¬ Waits ds r (outAt c e))
include hr htime hahead

theorem dir_leaves {d : D} (hp : p = inpAt c (.dir d))
    (hcycles : Cycles (Accepting m addressed) (l.patience (l.ranking.rank p)) ds)
    (hword : n + l.patience (l.ranking.rank p) < 2 ^ 64) : ¬ Waits ds r p := by
  subst hp
  intro hwaits
  obtain ⟨x, hx⟩ := Option.ne_none_iff_exists'.1 (hwaits r.state .here)
  have hok := (reachable_routed l.admits hr).held (inpAt c (.dir d)) x hx
  obtain ⟨e, hwants, -, hturn⟩ := l.admits.spec.route hok
  have hrank := l.ranking.lt _ _ x hok (next_inp l.admits.spec hwants)
  obtain ⟨j, hj⟩ := Nat.exists_eq_add_of_lt (l.patience_inp hok hwants)
  rw [hj, Nat.add_comm] at hcycles hword
  obtain ⟨a, b, rfl, hacycles, hb⟩ := hcycles.split
  obtain ⟨b, b', rfl, hb, -⟩ := hb.split
  obtain ⟨r₁, hrun, hr₁⟩ := window_some l.admits hr hacycles.all
  obtain ⟨htime₁, -⟩ := htime.cycles hacycles (by omega) hrun
  have hx₁ := waits_same l.admits l.dirs hr hacycles.all hwaits.left hx (Sees.last hrun)
  refine candidate_leaves (l := l) (l.patience_pos _) (Nat.lt_succ_self n) hr₁ htime₁ hb (by omega)
    hx₁ (held_old (l := l) hr htime hx) hwants (fun v _ => ?_)
    (fun htime hr hcycles hword => hahead htime hr hcycles hword hrank) (hwaits.right hrun).left
  cases e with
  | elem i => exact List.mem_cons_of_mem _ (List.mem_map.2 ⟨d, w.mem_dirs d, rfl⟩)
  | dir d' =>
      have hne : d ≠ d' := fun h => hturn rfl (h ▸ rfl)
      exact List.mem_cons_of_mem _ (List.mem_map.2 ⟨d, l.inputs d' d hne, rfl⟩)

theorem elem_leaves {i : Fin (m.elems c)} (hp : p = inpAt c (.elem i))
    (hcycles : Cycles (Accepting m addressed) (l.patience (l.ranking.rank p)) ds)
    (hword : n + l.patience (l.ranking.rank p) < 2 ^ 64) : ¬ Waits ds r p := by
  subst hp
  intro hwaits
  obtain ⟨x, hx⟩ := Option.ne_none_iff_exists'.1 (hwaits r.state .here)
  have hold := held_old (l := l) hr htime hx
  obtain ⟨j, hj⟩ := Nat.exists_eq_add_of_lt (l.patience_elem c)
  rw [l.ranking.elem, hj, Nat.add_comm] at hcycles hword
  obtain ⟨a, b, rfl, hacycles, hb⟩ := hcycles.split
  obtain ⟨b, b', rfl, hb, -⟩ := hb.split
  obtain ⟨r₁, hrun, hr₁⟩ := window_some l.admits hr hacycles.all
  obtain ⟨r₂, hrun', hr₂⟩ := window_some l.admits hr₁ hb.all
  obtain ⟨htime₁, -⟩ := htime.cycles hacycles (by omega) hrun
  have hx₁ := waits_same l.admits l.dirs hr hacycles.all hwaits.left hx (Sees.last hrun)
  have hwaits₁ := (hwaits.right hrun).left
  have hx₂ := waits_same l.admits l.dirs hr₁ hb.all hwaits₁ hx₁ (Sees.last hrun')
  have hcount := descends l (T := n) (μ := fun s => (oldIn n (elemInputs m c) s).card)
    (G := fun ds r => Waits ds r (inpAt c (.elem i)) ∧ held r.state (inpAt c (.elem i)) = some x)
    (fun ⟨hwaits, hx⟩ hr hall hrun => ⟨⟨hwaits.left, hx⟩, hwaits.right hrun,
      waits_same l.admits l.dirs hr hall hwaits.left hx (Sees.last hrun)⟩)
    (fun {n' ds r r'} htime hT hr hcycles hword hrun ⟨hwaits, hx⟩ => by
      by_contra hkept
      have hlate := (htime.cycles hcycles hword hrun).2 n hT
      have hsame := fun u hu => elem_same l.admits l.dirs hr hcycles.all hlate hrun
        (Nat.not_lt.1 hkept) (u := u) hu
      -- the eldest packet of the element inputs waits as well, and it is a candidate at every clock
      obtain ⟨k, y, hy, hage, heldest⟩ := exists_eldest hx
      have hyold : Old n y := hage.trans hold
      have hok := (reachable_routed l.admits hr).held (inpAt c (.elem k)) y hy
      obtain ⟨e, hwants, -⟩ := l.admits.spec.route hok
      have hrank := l.ranking.lt _ _ y hok (next_inp l.admits.spec hwants)
      rw [l.ranking.elem, ← l.ranking.elem c i] at hrank
      obtain ⟨j', hj'⟩ := Nat.exists_eq_add_of_le (l.step_le hok hwants)
      rw [hj'] at hcycles hword
      obtain ⟨a, b, rfl, hacycles, -⟩ := hcycles.split
      refine candidate_leaves (l := l) (l.patience_pos _) hT hr htime hacycles (by omega) hy hyold
        hwants (fun v hmid => ?_)
        (fun htime hr hcycles hword => hahead htime hr hcycles hword hrank) (fun u hu => ?_)
      · have hchoice := eldestElem_eq (hsame v (hmid.append b).sees) hx hold
        rw [hchoice, heldest]
        cases e <;> exact List.mem_cons_self
      · rw [(hsame u (hu.append b) k y hyold).2 hy]
        exact Option.some_ne_none y)
    htime₁ (Nat.lt_succ_self n) hr₁ hb (by omega) hrun' ⟨hwaits₁, hx₁⟩
  have hle : (oldIn n (elemInputs m c) r₁.state).card ≤ m.elems c := by
    refine (Finset.card_le_card oldIn_subset).trans ?_
    exact Finset.card_image_le.trans_eq (Finset.card_fin _)
  have hpos : 0 < (oldIn n (elemInputs m c) r₂.state).card :=
    Finset.card_pos.2 ⟨_, mem_oldIn.2 ⟨mem_elemInputs.2 ⟨i, rfl⟩, x, hx₂, hold⟩⟩
  omega

end Inputs

/-- A register leaves in time if all those of higher rank do. -/
theorem leaves_step (hr : r.Reachable addressed) (htime : AtTime n r)
    (hcycles : Cycles (Accepting m addressed) (l.patience (l.ranking.rank p)) ds)
    (hword : n + l.patience (l.ranking.rank p) < 2 ^ 64)
    (hahead : ∀ {n ds} {r : Run m} {p'}, AtTime n r → r.Reachable addressed →
      Cycles (Accepting m addressed) (l.patience (l.ranking.rank p')) ds →
      n + l.patience (l.ranking.rank p') < 2 ^ 64 → l.ranking.rank p < l.ranking.rank p' →
      ¬ Waits ds r p') : ¬ Waits ds r p := by
  rcases p with ⟨c, i | d⟩ | ⟨c, i | d⟩
  · exact elem_leaves hr htime hahead rfl hcycles hword
  · exact dir_leaves hr htime hahead rfl hcycles hword
  · obtain ⟨k, hk⟩ := Nat.exists_eq_succ_of_ne_zero (l.patience_pos _).ne'
    rw [hk] at hcycles
    obtain ⟨answer, hclock⟩ := hcycles.clock c
    exact elem_frees l.admits l.dirs hr hcycles.all hclock i
  · intro hwaits
    obtain ⟨x, hx⟩ := Option.ne_none_iff_exists'.1 (hwaits r.state .here)
    have hok := (reachable_routed l.admits hr).held (outAt c (.dir d)) x hx
    obtain ⟨c', hlink, -⟩ := l.admits.spec.depart hok
    have hrank := l.ranking.lt (outAt c (.dir d)) (inpAt c' (.dir (w.opp d))) x hok
      (by simp [next, hlink])
    obtain ⟨j, hj⟩ := Nat.exists_eq_add_of_lt (l.patience_out hok hlink)
    rw [hj, Nat.add_assoc] at hcycles hword
    obtain ⟨a, b, rfl, ha, hb⟩ := hcycles.split
    obtain ⟨answer, hclock⟩ := hb.clock c
    exact dir_frees l.admits l.dirs hr hcycles.all hlink
      (hahead htime hr ha (by omega) hrank) hclock hwaits

/-- No register stays busy for longer than its patience. -/
theorem leaves (h : Nat) : ∀ {n ds} {r : Run m} {p}, l.top ≤ l.ranking.rank p + h → AtTime n r →
    r.Reachable addressed → Cycles (Accepting m addressed) (l.patience (l.ranking.rank p)) ds →
    n + l.patience (l.ranking.rank p) < 2 ^ 64 → ¬ Waits ds r p := by
  induction h with
  | zero =>
      intro n ds r p hp htime hr hcycles hword
      refine leaves_step hr htime hcycles hword fun {_ _ _ p'} _ _ _ _ hlt => ?_
      have hle := l.rank_le p'
      omega
  | succ h ih =>
      intro n ds r p hp htime hr hcycles hword
      exact leaves_step hr htime hcycles hword fun htime hr hcycles hword hlt =>
        ih (by omega) htime hr hcycles hword

/-! ## The deadline -/

variable (l)

/-- The registers below a rank. -/
def below (h : Nat) : Finset (Place m) := Finset.univ.filter fun p => l.ranking.rank p < h

omit [DecidableEq D] in
theorem mem_below {h : Nat} : p ∈ l.below h ↔ l.ranking.rank p < h := by
  simp [below]

omit [DecidableEq D] in
theorem closed_below (h : Nat) : Closed w ok (l.below h) := fun p q x hok hnext hq =>
  l.mem_below.2 ((l.ranking.lt p q x hok hnext).trans (l.mem_below.1 hq))

/-- How many cycles it takes at most until a packet accepted has been delivered. -/
def deadline : Nat := 1 + ∑ h ∈ Finset.range (l.top + 1), l.patience h

variable {l}

/-- The old packets leave the registers in the order of the ranks. -/
theorem cleared (h : Nat) : ∀ {n ds} {r r' : Run m}, T < n → AtTime n r → r.Reachable addressed →
    Cycles (Accepting m addressed) (∑ h' ∈ Finset.range h, l.patience h') ds →
    n + ∑ h' ∈ Finset.range h, l.patience h' < 2 ^ 64 → ds.foldlM Run.drive r = some r' →
    oldIn T (l.below h) r'.state = ∅ := by
  induction h with
  | zero =>
      intro n ds r r' _ _ _ _ _ _
      refine Finset.subset_empty.1 fun p hp => ?_
      exact absurd (l.mem_below.1 (oldIn_subset hp)) (Nat.not_lt_zero _)
  | succ h ih =>
      intro n ds r r' hT htime hr hcycles hword hrun
      rw [Finset.sum_range_succ] at hcycles hword
      obtain ⟨a, b, rfl, ha, hb⟩ := hcycles.split
      rw [List.foldlM_append] at hrun
      obtain ⟨r₁, hrun₁, hrun₂⟩ := Option.bind_eq_some_iff.1 hrun
      obtain ⟨r₁', hsome, hr₁⟩ := window_some l.admits hr ha.all
      obtain rfl := Option.some.inj (hrun₁.symm.trans hsome)
      obtain ⟨htime₁, -⟩ := htime.cycles ha (by omega) hrun₁
      have hlate := (htime₁.cycles hb (by omega) hrun₂).2 T (by omega)
      have hlower : ∀ u, Sees b r₁ u → oldIn T (l.below h) u = ∅ := fun u hu => by
        have hle := sees_oldIn l.admits l.dirs (l.closed_below h) hr₁ hb.all hlate hu
        rw [ih hT htime hr ha (by omega) hrun₁, Finset.card_empty] at hle
        exact Finset.card_eq_zero.1 (Nat.le_zero.1 hle)
      refine Finset.subset_empty.1 fun p hp => ?_
      obtain ⟨hmem, x, hx, hold⟩ := mem_oldIn.1 hp
      have hrank := l.mem_below.1 hmem
      have hne : ¬ l.ranking.rank p < h := fun hlt => by
        have hnone := hlower _ (Sees.last hrun₂)
        exact Finset.notMem_empty p (hnone ▸ mem_oldIn.2 ⟨l.mem_below.2 hlt, x, hx, hold⟩)
      -- an old packet that is still there has been there all the time
      have hclosed : Closed w ok (insert p (l.below h)) := by
        intro q q' y hok hnext hq'
        refine Finset.mem_insert_of_mem (l.mem_below.2 ?_)
        have hlt := l.ranking.lt q q' y hok hnext
        rcases Finset.mem_insert.1 hq' with rfl | hq'
        · omega
        · exact hlt.trans (l.mem_below.1 hq')
      have hwaits : Waits b r₁ p := by
        intro u hu
        have hle := last_oldIn l.admits l.dirs hclosed hr₁ hb.all hlate hu hrun₂
        have hpos : 0 < (oldIn T (insert p (l.below h)) r'.state).card :=
          Finset.card_pos.2 ⟨p, mem_oldIn.2 ⟨Finset.mem_insert_self _ _, x, hx, hold⟩⟩
        obtain ⟨q, hq⟩ := Finset.card_pos.1 (hpos.trans_le hle)
        obtain ⟨hqmem, y, hy, hyold⟩ := mem_oldIn.1 hq
        rcases Finset.mem_insert.1 hqmem with rfl | hqmem
        · rw [hy]
          exact Option.some_ne_none y
        · exact absurd (hlower u hu ▸ mem_oldIn.2 ⟨hqmem, y, hy, hyold⟩) (Finset.notMem_empty q)
      obtain rfl : l.ranking.rank p = h := by omega
      exact absurd hwaits (leaves l.top (Nat.le_add_left _ _) htime₁ hr₁ hb (by omega))

/-- No old packet is left after the deadline. -/
theorem old_gone {k : Nat} (htime : AtTime n r) (hr : r.Reachable addressed)
    (hcycles : Cycles (Accepting m addressed) k ds) (hk : l.deadline ≤ k) (hword : n + k < 2 ^ 64)
    (hrun : ds.foldlM Run.drive r = some r') :
    oldIn n (l.below (l.top + 1)) r'.state = ∅ := by
  obtain ⟨j, rfl⟩ := Nat.exists_eq_add_of_le hk
  rw [deadline] at hcycles hword
  obtain ⟨ab, b', rfl, hab, hb'⟩ := hcycles.split
  obtain ⟨a, b, rfl, ha, hb⟩ := hab.split
  obtain ⟨r₁, hrun₁, hr₁⟩ := window_some l.admits hr ha.all
  obtain ⟨r₂, hrun₂, hr₂⟩ := window_some l.admits hr₁ hb.all
  have hrun₃ : b'.foldlM Run.drive r₂ = some r' := by
    rw [List.foldlM_append, List.foldlM_append, hrun₁] at hrun
    simpa [hrun₂] using hrun
  obtain ⟨htime₁, -⟩ := htime.cycles ha (by omega) hrun₁
  obtain ⟨htime₂, -⟩ := htime₁.cycles hb (by omega) hrun₂
  have hdone := cleared (l := l) (T := n) (l.top + 1) (Nat.lt_succ_self n) htime₁ hr₁ hb (by omega)
    hrun₂
  have hlate := (htime₂.cycles hb' (by omega) hrun₃).2 n (by omega)
  have hle := sees_oldIn l.admits l.dirs (l.closed_below (l.top + 1)) hr₂ hb'.all hlate
    (Sees.last hrun₃)
  rw [hdone, Finset.card_empty] at hle
  exact Finset.card_eq_zero.1 (Nat.le_zero.1 hle)

/-- Freedom from starvation. Whatever is injected and whatever the elements answer in the first
cycles: a packet accepted in them has been delivered by the deadline, whatever is injected until
then, when the elements accept what they are sent. -/
theorem starvation_free {before after : List (Drive N)} {k : Nat}
    (hbefore : Cycles (Proper m addressed) n before)
    (hafter : Cycles (Accepting m addressed) k after) (hk : l.deadline ≤ k)
    (hword : n + k < 2 ^ 64) (hr : Run.ofDrives m before = some r) :
    ∃ r', after.foldlM Run.drive r = some r' ∧ r.stamped ≤
      ((r'.state.delivered.map Delivery.pkt : List Packet) : Multiset Packet) := by
  have hreach : r.Reachable addressed := ofDrives_reachable hbefore.all hr
  obtain ⟨htime, -⟩ := atTime_init.cycles hbefore (by omega) hr
  rw [Nat.zero_add] at htime
  obtain ⟨r', hrun, hr'⟩ := window_some l.admits hreach hafter.all
  refine ⟨r', hrun, ?_⟩
  have hgone := old_gone htime hreach hafter hk hword hrun
  have hempty : (registers r'.state).filter (Old n) = 0 := by
    refine Multiset.filter_eq_nil.2 fun x hx hold => ?_
    obtain ⟨p, -, hp⟩ := Multiset.mem_sum.1 hx
    have hheld : held r'.state p = some x := by
      cases hy : held r'.state p with
      | none =>
          rw [hy] at hp
          cases Multiset.notMem_zero x hp
      | some y =>
          rw [hy] at hp
          rw [Multiset.mem_singleton.1 hp]
    exact Finset.notMem_empty p (hgone ▸ mem_oldIn.2
      ⟨l.mem_below.2 (Nat.lt_succ_of_le (l.rank_le p)), x, hheld, hold⟩)
  calc r.stamped = r.stamped.filter (Old n) := (Multiset.filter_eq_self.2 htime.stamp).symm
    _ ≤ r'.stamped.filter (Old n) := Multiset.filter_le_filter _ (stamped_le hrun)
    _ = ((r'.state.delivered.map Delivery.pkt : List Packet) : Multiset Packet).filter (Old n) := by
        rw [reachable_conserved l.admits hr', Multiset.filter_add, hempty, zero_add]
    _ ≤ _ := Multiset.filter_le _ _

end Lively

end Gran.Mesh
