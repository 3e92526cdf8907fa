import Gran.Mesh.Waiting

/-!
# What a packet waits for

No packet for an element waits through a clock of its node, one for a neighbour waits for the input
there, and one in an input for the output that it wants. If an input is a candidate of that output
at every clock and the output is free at one of them, then the packet goes on or is passed by an
older one, which comes from an input of the same node: `candidate_stuck`.
-/

namespace Gran.Mesh

open PacketNet Relation

variable {N D : Type} [DecidableEq N] [DecidableEq D] {m : Mesh N D} {w : Wiring m}
  {ok : Place m → Packet → Prop} {addressed : Packet → Prop} {s t u v : MeshState m}
  {r r' : Run m} {d : Drive N} {ds ds' : List (Drive N)} {c : N} {p : Place m} {T : Nat}
  {F : Finset (Place m)}

/-! ## The eldest element input -/

/-- The first of the least elements of a list is the first of the least ones up to a bound, if there
are any of these. -/
theorem argmin_filter_le {α : Type} (f : α → Nat) (T : Nat) {l : List α} (h : ∃ a ∈ l, f a ≤ T) :
    l.argmin f = (l.filter fun a => f a ≤ T).argmin f := by
  induction l with
  | nil =>
      obtain ⟨a, ha, -⟩ := h
      cases ha
  | cons a l ih =>
      rw [List.argmin_cons]
      by_cases hl : ∃ b ∈ l, f b ≤ T
      · obtain ⟨c, hc⟩ : ∃ c, l.argmin f = some c := by
          refine Option.ne_none_iff_exists'.1 fun hnone => ?_
          obtain ⟨b, hb, -⟩ := hl
          rw [List.argmin_eq_none.1 hnone] at hb
          cases hb
        have hcT : f c ≤ T := by
          obtain ⟨b, hb, hle⟩ := hl
          exact (List.le_of_mem_argmin hb hc).trans hle
        by_cases ha : f a ≤ T
        · rw [List.filter_cons_of_pos (by simpa using ha), List.argmin_cons, ih hl]
        · rw [List.filter_cons_of_neg (by simpa using ha), ← ih hl, hc]
          exact if_pos (by omega)
      · have hnil : l.filter (fun a => f a ≤ T) = [] := by
          refine List.filter_eq_nil_iff.2 fun b hb => ?_
          simpa using fun hle => hl ⟨b, hb, hle⟩
        have ha : f a ≤ T := by
          obtain ⟨b, hb, hle⟩ := h
          rcases List.mem_cons.1 hb with rfl | hb
          · exact hle
          · exact absurd ⟨b, hb, hle⟩ hl
        rw [List.filter_cons_of_pos (by simpa using ha), hnil]
        cases hc : l.argmin f with
        | none => rfl
        | some c =>
            have hcT : ¬ f c ≤ T := fun hle => hl ⟨c, List.argmin_mem hc, hle⟩
            exact if_neg (by omega)

theorem argmin_congr {α : Type} {f g : α → Nat} {l : List α} (h : ∀ a ∈ l, f a = g a) :
    l.argmin f = l.argmin g := by
  induction l with
  | nil => rfl
  | cons a l ih =>
      rw [List.argmin_cons, List.argmin_cons, ih fun b hb => h b (List.mem_cons_of_mem _ hb)]
      cases hc : l.argmin g with
      | none => rfl
      | some c =>
          show (if f c < f a then some c else some a) = if g c < g a then some c else some a
          rw [h a List.mem_cons_self, h c (List.mem_cons_of_mem _ (List.argmin_mem hc))]

omit [DecidableEq N] [DecidableEq D] in
/-- The choice of an element input depends on the old packets only, if there are any. -/
theorem eldestElem_eq (hsame : ∀ i y, Old T y → (held t (inpAt c (.elem i)) = some y ↔
      held s (inpAt c (.elem i)) = some y))
    {i : Fin (m.elems c)} {x : Packet} (hx : held s (inpAt c (.elem i)) = some x) (hold : Old T x) :
    eldestElem (t.nodes c) = eldestElem (s.nodes c) := by
  have hholds : ∀ q, q ∈ (List.finRange (m.elems c)).map (Port.elem (D := D)) → ∀ y, Old T y →
      (held t (inpAt c q) = some y ↔ held s (inpAt c q) = some y) := by
    intro q hq y hy
    obtain ⟨j, -, rfl⟩ := List.mem_map.1 hq
    exact hsame j y hy
  have hchoice : ∀ u : MeshState m, (∃ y, held u (inpAt c (.elem i)) = some y ∧ Old T y) →
      eldestElem (u.nodes c) = (((List.finRange (m.elems c)).map Port.elem).filter fun q =>
        ((u.nodes c).inp q).busy && decide (age (u.nodes c) q ≤ T)).argmin (age (u.nodes c)) := by
    rintro u ⟨y, hy, hyold⟩
    obtain ⟨hbusy, rfl⟩ := Reg.held_eq_some.1 hy
    have hmem : Port.elem i ∈ (((List.finRange (m.elems c)).map Port.elem).filter fun q =>
        ((u.nodes c).inp q).busy) :=
      List.mem_filter.2 ⟨List.mem_map.2 ⟨i, List.mem_finRange i, rfl⟩, hbusy⟩
    rw [eldestElem, argmin_filter_le (age (u.nodes c)) T ⟨_, hmem, hyold⟩, List.filter_filter]
    simp only [Bool.and_comm]
  rw [hchoice t ⟨x, (hsame i x hold).2 hx, hold⟩, hchoice s ⟨x, hx, hold⟩]
  have hfilter : ∀ q ∈ (List.finRange (m.elems c)).map (Port.elem (D := D)),
      (((t.nodes c).inp q).busy && decide (age (t.nodes c) q ≤ T)) =
        (((s.nodes c).inp q).busy && decide (age (s.nodes c) q ≤ T)) := by
    intro q hq
    rw [Bool.eq_iff_iff, Bool.and_eq_true, Bool.and_eq_true, decide_eq_true_iff,
      decide_eq_true_iff]
    constructor
    · rintro ⟨hbusy, hage⟩
      have hs := (hholds q hq _ hage).1 (Reg.held_eq_some.2 ⟨hbusy, rfl⟩)
      obtain ⟨hbusy', heq⟩ := Reg.held_eq_some.1 hs
      exact ⟨hbusy', by rwa [age, heq]⟩
    · rintro ⟨hbusy, hage⟩
      have ht := (hholds q hq _ hage).2 (Reg.held_eq_some.2 ⟨hbusy, rfl⟩)
      obtain ⟨hbusy', heq⟩ := Reg.held_eq_some.1 ht
      exact ⟨hbusy', by rwa [age, heq]⟩
  rw [List.filter_congr hfilter]
  refine argmin_congr fun q hq => ?_
  obtain ⟨hmem, hwilling⟩ := List.mem_filter.1 hq
  rw [Bool.and_eq_true, decide_eq_true_iff] at hwilling
  have ht := (hholds q hmem _ hwilling.2).2 (Reg.held_eq_some.2 ⟨hwilling.1, rfl⟩)
  obtain ⟨-, heq⟩ := Reg.held_eq_some.1 ht
  rw [age, heq]
  rfl

omit [DecidableEq N] [DecidableEq D] in
/-- A busy element input is chosen, and no younger one than any other. -/
theorem exists_eldest {i : Fin (m.elems c)} {x : Packet}
    (hx : held s (inpAt c (.elem i)) = some x) :
    ∃ j y, held s (inpAt c (.elem j)) = some y ∧ y.timestamp.toNat ≤ x.timestamp.toNat ∧
      eldestElem (s.nodes c) = some (.elem j) := by
  obtain ⟨hbusy, rfl⟩ := Reg.held_eq_some.1 hx
  have hmem : Port.elem i ∈ ((List.finRange (m.elems c)).map (Port.elem (D := D))).filter
      fun q => ((s.nodes c).inp q).busy :=
    List.mem_filter.2 ⟨List.mem_map.2 ⟨i, List.mem_finRange i, rfl⟩, hbusy⟩
  obtain ⟨q, hq⟩ : ∃ q, eldestElem (s.nodes c) = some q := by
    refine Option.ne_none_iff_exists'.1 fun hnone => ?_
    rw [List.argmin_eq_none.1 hnone] at hmem
    cases hmem
  obtain ⟨hqmem, hqbusy⟩ := List.mem_filter.1 (List.argmin_mem hq)
  obtain ⟨j, -, rfl⟩ := List.mem_map.1 hqmem
  exact ⟨j, _, Reg.held_eq_some.2 ⟨hqbusy, rfl⟩,
    List.le_of_mem_argmin (f := age (s.nodes c)) hmem hq, hq⟩

/-- The element inputs of a node. -/
def elemInputs (m : Mesh N D) (c : N) : Finset (Place m) :=
  Finset.univ.image fun i : Fin (m.elems c) => inpAt c (.elem i)

theorem mem_elemInputs : p ∈ elemInputs m c ↔ ∃ i, p = inpAt c (.elem i) := by
  simp [elemInputs, eq_comm]

theorem closed_elemInputs : Closed w ok (elemInputs m c) := by
  intro p q x _ hnext hq
  obtain ⟨i, rfl⟩ := mem_elemInputs.1 hq
  exact (next_ne_elem hnext).elim

/-! ## What waits for what -/

section Waiting

variable [Fintype D] (ha : Admits w ok addressed) (hdirs : m.dirs.Nodup)

section Registers

variable (hr : r.Reachable addressed) (hds : ∀ d ∈ ds, Accepting m addressed d)
include ha hdirs hr hds

/-- The packet that waits in a register is one and the same. -/
theorem waits_same {x : Packet} (hwaits : Waits ds r p) (hx : held r.state p = some x)
    (hu : Sees ds r u) : held u p = some x := by
  refine sees_induct ha hdirs (P := fun u => held u p = some x) hr hds (Fold.along_true ds r) hx
    ?_ ?_ ?_ hu
  · intro c s v hmid hs hserved
    exact hserved.keeps hs (hwaits v hmid.sees)
  · intro c v hmid hseen hv
    exact held_arbitrateAt_keeps hv (hwaits _ hseen)
  · intro r c i pkt i' _ hfree hs
    have hne : p ≠ inpAt c (.elem i') := by
      rintro rfl
      rw [hfree] at hs
      cases hs
    rw [held_setInp, Function.update_of_ne hne, hs]

/-- While the packet of an output waits, the input that it faces is not filled. -/
theorem free_stays {c' : N} {d : D} (hlink : w.link c d = some c')
    (hwaits : Waits ds r (outAt c (.dir d)))
    (hfree : held r.state (inpAt c' (.dir (w.opp d))) = none) (hu : Sees ds r u) :
    held u (inpAt c' (.dir (w.opp d))) = none := by
  refine sees_induct ha hdirs (P := fun u => held u (inpAt c' (.dir (w.opp d))) = none) hr hds
    (Fold.along_true ds r) hfree ?_ ?_ ?_ hu
  · intro c₁ s v hmid hs hserved
    exact (hserved.fed hlink hs).resolve_right (hwaits v hmid.sees)
  · intro c₁ v _ _ hv
    exact held_arbitrateAt_inp_none hv
  · intro r c₁ i pkt i' _ _ hs
    have hne : (inpAt c' (.dir (w.opp d)) : Place m) ≠ inpAt c₁ (.elem i') := by
      intro he
      cases he
    rw [held_setInp, Function.update_of_ne hne, hs]

/-- An input that was free while the packet of the output it faces waits is free at the end. -/
theorem free_last {c' : N} {d : D} (hlink : w.link c d = some c')
    (hwaits : Waits ds r (outAt c (.dir d))) (hu : Sees ds r u)
    (hfree : held u (inpAt c' (.dir (w.opp d))) = none)
    (hrun : ds.foldlM Run.drive r = some r') :
    held r'.state (inpAt c' (.dir (w.opp d))) = none := by
  induction hu with
  | here => exact free_stays ha hdirs hr hds hlink hwaits hfree (Sees.last hrun)
  | @between c₁ answer ds r v h =>
      obtain ⟨r₁, hdrive, hrest⟩ := Option.bind_eq_some_iff.1 hrun
      have hd := hds _ List.mem_cons_self
      obtain ⟨v', hv', rfl, -⟩ := drive_clock ha hdirs hr hd hdrive
      obtain rfl := Option.some.inj (h.symm.trans hv')
      exact free_stays ha hdirs (drive_reachable hr hd hdrive)
        (fun d hd => hds d (List.mem_cons_of_mem _ hd)) hlink
        (fun u hu => hwaits u (.later hdrive hu)) (held_arbitrateAt_inp_none hfree)
        (Sees.last hrest)
  | @later d ds r r₁ u h hu ih =>
      obtain ⟨r₁', hdrive, hrest⟩ := Option.bind_eq_some_iff.1 hrun
      obtain rfl := Option.some.inj (h.symm.trans hdrive)
      exact ih (drive_reachable hr (hds d List.mem_cons_self) h)
        (fun d hd => hds d (List.mem_cons_of_mem _ hd)) (fun u hu => hwaits u (.later h hu)) hfree
        hrest

/-- What the first phase of a clock of a window does. -/
theorem exists_mid {answer : Comp N → Stat} (hclock : .clock c answer ∈ ds) :
    ∃ (a b : List (Drive N)) (r₁ : Run m) (v : MeshState m), ds = a ++ .clock c answer :: b ∧
      .clock c answer ∉ a ∧ a.foldlM Run.drive r = some r₁ ∧ Mid c ds r v ∧
      Served w c r₁.state v ∧ (∀ i, held v (outAt c (.elem i)) = none) ∧
      ∀ d c', w.link c d = some c' → held r₁.state (inpAt c' (.dir (w.opp d))) = none →
        held v (outAt c (.dir d)) = none := by
  obtain ⟨a, b, rfl, hfirst⟩ := List.eq_append_cons_of_mem hclock
  have hans := hds (.clock c answer) (by simp)
  obtain ⟨r₁, hrun, hr₁⟩ := window_some ha hr fun d hd => hds d (List.mem_append_left _ hd)
  obtain ⟨r₂, hdrive, -⟩ := drive_some ha hr₁ hans
  obtain ⟨v, hv, -, hserved, -⟩ := drive_clock ha hdirs hr₁ hans hdrive
  have hn : Routed (next w) ok (network (tick r₁.state c) r₁.stamped) :=
    Moves.routed (ok_next ha.spec) ((Shift.stays (held_tick c) rfl).moves r₁.stamped)
      (reachable_routed ha hr₁)
  refine ⟨a, b, r₁, v, rfl, hfirst, hrun, Mid.after hrun (.here hv), hserved,
    served_elem ha.stamps ha.spec hans hn hv, fun d c' hlink hfree => ?_⟩
  exact served_dir ha.stamps ha.spec hans hn hv hlink
    ((congrFun (held_tick c) _).trans hfree)

/-- No packet for an element waits through a clock of its node. -/
theorem elem_frees {answer : Comp N → Stat} (hclock : .clock c answer ∈ ds) (i : Fin (m.elems c)) :
    ¬ Waits ds r (outAt c (.elem i)) := by
  intro hwaits
  obtain ⟨a, b, r₁, v, -, -, -, hmid, -, hfree, -⟩ := exists_mid ha hdirs hr hds hclock
  exact hwaits v hmid.sees (hfree i)

end Registers

include ha hdirs

/-- No packet for a neighbour waits through a clock of its node after the input there was free. -/
theorem dir_frees (hr : r.Reachable addressed) (hds : ∀ d ∈ ds ++ ds', Accepting m addressed d)
    {c' : N} {d : D} (hlink : w.link c d = some c')
    (hfree : ¬ Waits ds r (inpAt c' (.dir (w.opp d)))) {answer : Comp N → Stat}
    (hclock : .clock c answer ∈ ds') : ¬ Waits (ds ++ ds') r (outAt c (.dir d)) := by
  intro hwaits
  have hfirst : ∀ d ∈ ds, Accepting m addressed d := fun d hd => hds d (List.mem_append_left _ hd)
  have hsecond : ∀ d ∈ ds', Accepting m addressed d :=
    fun d hd => hds d (List.mem_append_right _ hd)
  obtain ⟨u, hu, hnone⟩ : ∃ u, Sees ds r u ∧ held u (inpAt c' (.dir (w.opp d))) = none := by
    simpa only [Waits, not_forall, not_not, exists_prop] using hfree
  obtain ⟨r₁, hrun, hr₁⟩ := window_some ha hr hfirst
  have hlast := free_last ha hdirs hr hfirst hlink hwaits.left hu hnone hrun
  have hwaits' := hwaits.right hrun
  obtain ⟨a, b, r₂, v, rfl, -, hrun', hmid, -, -, hserved⟩ := exists_mid ha hdirs hr₁ hsecond hclock
  have hthere := free_stays ha hdirs hr₁ (fun d hd => hsecond d (List.mem_append_left _ hd)) hlink
    hwaits'.left hlast (Sees.last hrun')
  exact hwaits' v hmid.sees (hserved d c' hlink hthere)

/-- An output that is busy whenever its node arbitrates is busy all the time. -/
theorem out_waits (hr : r.Reachable addressed) (hds : ∀ d ∈ ds, Accepting m addressed d)
    {answer : Comp N → Stat} (hclock : .clock c answer ∈ ds) {e : Port D (m.elems c)}
    (hbusy : ∀ v, Mid c ds r v → held v (outAt c e) ≠ none) : Waits ds r (outAt c e) := by
  by_cases hfree : held r.state (outAt c e) = none
  · -- nothing fills the output before the first clock of its node
    obtain ⟨a, b, r₁, v, rfl, hfirst, hrun, hmid, hserved, -⟩ := exists_mid ha hdirs hr hds hclock
    have hthere : held r₁.state (outAt c e) = none := by
      refine sees_induct ha hdirs (P := fun u => held u (outAt c e) = none) hr
        (fun d hd => hds d (List.mem_append_left _ hd)) (Fold.along_true a r) hfree ?_ ?_ ?_
        (Sees.last hrun)
      · exact fun c₁ s v' _ hs hserved' => hserved'.out_none hs
      · intro c₁ v' hmid' _ hv'
        have hc : c ≠ c₁ := by
          rintro rfl
          obtain ⟨answer', hmem⟩ := hmid'.mem
          have hsame : answer' = answer := by
            funext comp
            rw [hds (.clock c answer') (List.mem_append_left _ hmem) comp,
              hds (.clock c answer) (by simp) comp]
          exact hfirst (hsame ▸ hmem)
        rw [(held_arbitrateAt_other hc e).1, hv']
      · intro r c₁ i pkt i' _ _ hs
        rw [held_setInp, Function.update_of_ne (by simp), hs]
    exact absurd (hserved.out_none hthere) (hbusy v hmid)
  · intro u hu
    refine sees_induct ha hdirs (P := fun u => held u (outAt c e) ≠ none) hr hds
      (Fold.along_true ds r) hfree ?_ ?_ ?_ hu
    · intro c₁ s v hmid hs hserved
      by_cases hc : c = c₁
      · subst hc
        exact hbusy v hmid
      · rwa [hserved.other c e hc]
    · intro c₁ v _ _ hv
      by_cases hc : c = c₁
      · subst hc
        obtain ⟨x, hx⟩ := Option.ne_none_iff_exists'.1 hv
        rw [held_arbitrateAt_out hx]
        exact Option.some_ne_none x
      · rwa [(held_arbitrateAt_other hc e).1]
    · intro r c₁ i pkt i' _ _ hs
      rwa [held_setInp, Function.update_of_ne (by simp)]

section Rivals

variable (hr : r.Reachable addressed) (hds : ∀ d ∈ ds, Accepting m addressed d)
include hr hds

/-- Between the phases of a clock the packets are well placed, and the window passes the state after
the second one. -/
theorem mid_spec (hmid : Mid c ds r v) :
    Sees ds r (arbitrateAt c v) ∧ ∃ injected, Routed (next w) ok (network v injected) := by
  induction hmid with
  | @here answer ds r v h =>
      have hd := hds (.clock c answer) List.mem_cons_self
      obtain ⟨r₁, hdrive, -⟩ := drive_some ha hr hd
      obtain ⟨v', hv', rfl, -, hshifts, -⟩ := drive_clock ha hdirs hr hd hdrive
      obtain rfl := Option.some.inj (h.symm.trans hv')
      exact ⟨.later hdrive .here, r.stamped, Moves.routed (ok_next ha.spec)
        (Shifts.moves r.stamped hshifts) (reachable_routed ha hr)⟩
  | later h hv ih =>
      obtain ⟨hsees, hn⟩ := ih (drive_reachable hr (hds _ List.mem_cons_self) h)
        fun d hd => hds d (List.mem_cons_of_mem _ hd)
      exact ⟨.later h hsees, hn⟩

variable (hlate : Late T ds r) (hrun : ds.foldlM Run.drive r = some r')
include hlate hrun

/-- If a packet waits that an output could take at every clock, and no old packet goes on from where
its rivals are, then the output is busy all the time. -/
theorem candidate_stuck {answer : Comp N → Stat} (hclock : .clock c answer ∈ ds)
    (hclosed : Closed w ok F) {q e : Port D (m.elems c)} (hout : outAt c e ∉ F)
    (hrivals : ∀ q' y, q' ≠ q → ok (inpAt c q') y → m.wants c e y = true → inpAt c q' ∈ F)
    {x : Packet} (hwaits : Waits ds r (inpAt c q)) (hx : held r.state (inpAt c q) = some x)
    (hold : Old T x) (hwants : m.wants c e x = true)
    (hcand : ∀ v, Mid c ds r v → some q ∈ m.candidates c (eldestElem (v.nodes c)) e)
    (hkept : (oldIn T F r.state).card ≤ (oldIn T F r'.state).card) : Waits ds r (outAt c e) := by
  refine out_waits ha hdirs hr hds hclock fun v hmid hfree => ?_
  obtain ⟨hsees, injected, hn⟩ := mid_spec ha hdirs hr hds hmid
  have hxv := waits_same ha hdirs hr hds hwaits hx hmid.sees
  obtain ⟨q', y, hwon, hy, hage, hwants'⟩ := exists_winner hfree hxv hwants (hcand v hmid)
  by_cases hq : q' = q
  · subst hq
    exact hwaits _ hsees (held_arbitrateAt_freed hwon)
  · have hq' := hrivals q' y hq (hn.held (inpAt c q') y hy) hwants'
    have hless := arbitrate_oldIn ha.spec hclosed hn hwon hy (hage.trans hold) hq' hout
    have hfirst := sees_oldIn ha hdirs hclosed hr hds hlate hmid.sees
    have hlast := last_oldIn ha hdirs hclosed hr hds hlate hsees hrun
    omega

/-- If no old packet leaves the element inputs of a node, they hold the same ones all the time. -/
theorem elem_same (hkept : (oldIn T (elemInputs m c) r.state).card ≤
      (oldIn T (elemInputs m c) r'.state).card) (hu : Sees ds r u) (i : Fin (m.elems c))
    (y : Packet) (hold : Old T y) :
    held u (inpAt c (.elem i)) = some y ↔ held r.state (inpAt c (.elem i)) = some y := by
  have hback : ∀ i y, held u (inpAt c (.elem i)) = some y → Old T y →
      held r.state (inpAt c (.elem i)) = some y := by
    refine sees_induct ha hdirs (P := fun u => ∀ i y, held u (inpAt c (.elem i)) = some y →
      Old T y → held r.state (inpAt c (.elem i)) = some y) hr hds hlate (fun i y hy _ => hy)
      ?_ ?_ ?_ hu
    · intro c₁ s v _ hs hserved i y hy hold
      exact hs i y ((hserved.elem c i).symm.trans hy) hold
    · intro c₁ v _ _ hv i y hy hold
      refine hv i y ?_ hold
      by_cases hc : c = c₁
      · subst hc
        rcases held_arbitrateAt_inp (v := v) (.elem i) with hsame | hnone
        · rw [← hsame, hy]
        · rw [hnone] at hy
          cases hy
      · rw [← (held_arbitrateAt_other hc (.elem i)).2, hy]
    · intro r₁ c₁ i₁ pkt i' hyoung _ hs i y hy hold
      rw [held_setInp] at hy
      by_cases hp : (inpAt c (.elem i) : Place m) = inpAt c₁ (.elem i')
      · rw [hp, Function.update_self] at hy
        cases hy
        exact absurd hold (Nat.not_le.2 hyoung)
      · rw [Function.update_of_ne hp] at hy
        exact hs i y hy hold
  refine ⟨fun hy => hback i y hy hold, fun hy => ?_⟩
  -- as many old packets as at the beginning, and no others
  have hsub : oldIn T (elemInputs m c) u ⊆ oldIn T (elemInputs m c) r.state := by
    intro p hp
    obtain ⟨hmem, z, hz, hzold⟩ := mem_oldIn.1 hp
    obtain ⟨j, rfl⟩ := mem_elemInputs.1 hmem
    exact mem_oldIn.2 ⟨hmem, z, hback j z hz hzold, hzold⟩
  have hlast := last_oldIn ha hdirs (closed_elemInputs (c := c)) hr hds hlate hu hrun
  have heq := Finset.eq_of_subset_of_card_le hsub (hkept.trans hlast)
  have hmem : inpAt c (.elem i) ∈ oldIn T (elemInputs m c) r.state :=
    mem_oldIn.2 ⟨mem_elemInputs.2 ⟨i, rfl⟩, y, hy, hold⟩
  obtain ⟨-, z, hz, hzold⟩ := mem_oldIn.1 (heq ▸ hmem)
  rw [hz, ← hback i z hz hzold, hy]

end Rivals

end Waiting

end Gran.Mesh
