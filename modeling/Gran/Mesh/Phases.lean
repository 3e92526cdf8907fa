import Gran.Mesh.Arbitration
import Gran.Mesh.Order

/-!
# The two phases of a clock

A clock first serves the outputs of its node, which frees outputs and fills inputs of the neighbours
(`Served`), and then arbitrates, which frees inputs and fills outputs of the node
(`clock_phases`). Where a packet waits through a clock, what it waits for was busy in between:
`served_dir` says so of an output whose neighbour is free, and `exists_winner` of a candidate whose
output is.
-/

namespace Gran.Mesh

open PacketNet

variable {N D : Type} [DecidableEq N] [DecidableEq D] {m : Mesh N D} {w : Wiring m}
  {ok : Place m → Packet → Prop} {s t u v : MeshState m} {injected : Multiset Packet}
  {answer : Comp N → Stat} {c : N}

/-! ## Serving the outputs -/

/-- What serving outputs of a node does to the registers. -/
structure Served (w : Wiring m) (c : N) (s t : MeshState m) : Prop where
  other : ∀ c' p, c' ≠ c → held t (outAt c' p) = held s (outAt c' p)
  out : ∀ p, held t (outAt c p) = held s (outAt c p) ∨ held t (outAt c p) = none
  inp : ∀ c' p x, held s (inpAt c' p) = some x → held t (inpAt c' p) = some x
  elem : ∀ c' i, held t (inpAt c' (.elem i)) = held s (inpAt c' (.elem i))
  fed : ∀ {c' d c''}, w.link c' d = some c'' → held s (inpAt c'' (.dir (w.opp d))) = none →
    held t (inpAt c'' (.dir (w.opp d))) = none ∨ held t (outAt c' (.dir d)) = none

omit [DecidableEq N] [DecidableEq D] in
theorem Served.refl : Served w c s s :=
  ⟨fun _ _ _ => rfl, fun _ => .inl rfl, fun _ _ _ h => h, fun _ _ => rfl, fun _ h => .inl h⟩

omit [DecidableEq D] in
/-- No output is filled. -/
theorem Served.out_none (h : Served w c s t) {c' : N} {p : Port D (m.elems c')}
    (hp : held s (outAt c' p) = none) : held t (outAt c' p) = none := by
  by_cases hc : c' = c
  · subst hc
    rcases h.out p with hsame | hnone
    · rw [hsame, hp]
    · exact hnone
  · rw [h.other c' p hc, hp]

omit [DecidableEq D] in
/-- A register that stays busy keeps its packet. -/
theorem Served.keeps (h : Served w c s t) {p : Place m} {x : Packet} (hx : held s p = some x)
    (hbusy : held t p ≠ none) : held t p = some x := by
  rcases p with ⟨c', p⟩ | ⟨c', p⟩
  · exact h.inp c' p x hx
  · by_cases hc : c' = c
    · subst hc
      rw [(h.out p).resolve_right hbusy, hx]
    · rw [h.other c' p hc, hx]

omit [DecidableEq D] in
theorem Served.trans (h : Served w c s t) (h' : Served w c t u) : Served w c s u where
  other c' p hc := (h'.other c' p hc).trans (h.other c' p hc)
  out p := by
    rcases h'.out p with hsame | hnone
    · rw [hsame]
      exact h.out p
    · exact .inr hnone
  inp c' p x hx := h'.inp c' p x (h.inp c' p x hx)
  elem c' i := (h'.elem c' i).trans (h.elem c' i)
  fed hlink hfree := by
    rcases h.fed hlink hfree with hnone | hnone
    · exact h'.fed hlink hnone
    · exact .inr (h'.out_none hnone)

omit [DecidableEq N] [DecidableEq D] in
/-- Only the output that faces an input feeds it. -/
theorem feeds (w : Wiring m) {c c' c'' : N} {d d' : D} (hlink : w.link c d = some c'')
    (hlink' : w.link c' d' = some c'') (hopp : w.opp d = w.opp d') : c = c' ∧ d = d' := by
  have hback := w.link_opp hlink
  have hback' := w.link_opp hlink'
  rw [hopp, hback'] at hback
  obtain rfl := Option.some.inj hback
  exact ⟨rfl, w.link_inj hlink hlink'⟩

theorem Serves.served {p : Port D (m.elems c)} (h : Serves w answer c p s t) :
    Served w c s t := by
  cases h with
  | idle => exact .refl
  | waits => exact .refl
  | refused => exact .refl
  | @hops d c' _ y hlink hy hfree =>
      have hheld := held_hop s (p := outAt c (.dir d)) (q := inpAt c' (.dir (w.opp d))) (by simp) y
      refine ⟨fun c'' p hc => ?_, fun p => ?_, fun c'' p x hx => ?_, fun c'' i => ?_,
        fun {c₁ d₁ c₂} hlink' hfree' => ?_⟩
      · have hne : outAt c'' p ≠ outAt c (.dir d) := by
          intro he
          cases he
          exact hc rfl
        rw [hheld, Function.update_of_ne (by simp), Function.update_of_ne hne]
      · rw [hheld, Function.update_of_ne (by simp)]
        by_cases hp : p = .dir d
        · subst hp
          exact .inr (Function.update_self ..)
        · exact .inl (Function.update_of_ne (by simpa using hp) ..)
      · have hne : inpAt c'' p ≠ inpAt c' (.dir (w.opp d)) := by
          intro he
          rw [he, hfree] at hx
          cases hx
        rw [hheld, Function.update_of_ne hne, Function.update_of_ne (by simp), hx]
      · have hne : (inpAt c'' (.elem i) : Place m) ≠ inpAt c' (.dir (w.opp d)) := by
          intro he
          cases he
        rw [hheld, Function.update_of_ne hne, Function.update_of_ne (by simp)]
      · by_cases heq : (inpAt c₂ (.dir (w.opp d₁)) : Place m) = inpAt c' (.dir (w.opp d))
        · obtain ⟨rfl, hdir⟩ : c₂ = c' ∧ w.opp d₁ = w.opp d := by
            obtain ⟨hnode, hport⟩ := Sigma.mk.inj (Sum.inl.inj heq)
            subst hnode
            exact ⟨rfl, Port.dir.inj (eq_of_heq hport)⟩
          obtain ⟨rfl, rfl⟩ := feeds w hlink' hlink hdir
          right
          rw [hheld, Function.update_of_ne (by simp), Function.update_self]
        · left
          rw [hheld, Function.update_of_ne heq, Function.update_of_ne (by simp), hfree']
  | @taken i _ y hy =>
      have hheld := held_handOver s c (.elem i) (.elem c i) y
      refine ⟨fun c'' p hc => ?_, fun p => ?_, fun c'' p x hx => ?_, fun c'' i => ?_,
        fun hlink' hfree' => .inl ?_⟩
      · have hne : outAt c'' p ≠ outAt c (.elem i) := by
          intro he
          cases he
          exact hc rfl
        rw [hheld, Function.update_of_ne hne]
      · rw [hheld]
        by_cases hp : p = .elem i
        · subst hp
          exact .inr (Function.update_self ..)
        · exact .inl (Function.update_of_ne (by simpa using hp) ..)
      · rw [hheld, Function.update_of_ne (by simp), hx]
      · rw [hheld, Function.update_of_ne (by simp)]
      · rw [hheld, Function.update_of_ne (by simp), hfree']

section Outputs

variable (hstamp : StampsAtElements m.toNodeKind) (hspec : RoutingSpec w ok)
  (hanswer : ∀ comp, answer comp = .OK)
  (hn : Routed (next w) ok (network s injected))
include hstamp hspec hanswer hn

/-- The states around the service of one output. -/
theorem clockOutputs_mid (h : clockOutputs answer c s = some t) (p : Port D (m.elems c)) :
    ∃ u v, Served w c s u ∧ Serves w answer c p u v ∧ Served w c v t := by
  have hans : ∀ comp, answer comp = .OK ∨ answer comp = .EBUSY := fun comp => .inl (hanswer comp)
  have hgoes := Fold.foldlM_mid
    (fun s t => Routed (next w) ok (network s injected) →
      Shifts w s t ∧ Served w c s t)
    (fun _ _ => ⟨.refl, .refl⟩)
    (fun _ _ _ hab hbc ha => by
      obtain ⟨hshift, hserved⟩ := hab ha
      obtain ⟨hshift', hserved'⟩ :=
        hbc (Moves.routed (ok_next hspec) (Shifts.moves injected hshift) ha)
      exact ⟨hshift.trans hshift', hserved.trans hserved'⟩)
    (fun _ _ _ _ hstep ha => by
      have hserves := clockOutput_serves hstamp hspec hans ha hstep
      exact ⟨.single hserves.shift, hserves.served⟩) h (mem_portList w c p)
  obtain ⟨u, v, h1, h2, h3, h4⟩ := hgoes
  obtain ⟨hsu, hserved⟩ := h1 hn
  have hu := Moves.routed (ok_next hspec) (Shifts.moves injected hsu) hn
  have hserves := clockOutput_serves hstamp hspec hans hu h2
  have hv := Moves.routed (ok_next hspec) (hserves.shift.moves injected) hu
  exact ⟨u, v, hserved, hserves, (h4 hv).2⟩

theorem clockOutputs_served (h : clockOutputs answer c s = some t) :
    Shifts w s t ∧ Served w c s t := by
  have hans : ∀ comp, answer comp = .OK ∨ answer comp = .EBUSY := fun comp => .inl (hanswer comp)
  exact Fold.foldlM_rel
    (fun s t => Routed (next w) ok (network s injected) →
      Shifts w s t ∧ Served w c s t)
    (fun _ _ => ⟨.refl, .refl⟩)
    (fun _ _ _ hab hbc ha => by
      obtain ⟨hshift, hserved⟩ := hab ha
      obtain ⟨hshift', hserved'⟩ :=
        hbc (Moves.routed (ok_next hspec) (Shifts.moves injected hshift) ha)
      exact ⟨hshift.trans hshift', hserved.trans hserved'⟩)
    (fun _ _ _ _ hstep ha => by
      have hserves := clockOutput_serves hstamp hspec hans ha hstep
      exact ⟨.single hserves.shift, hserves.served⟩) h hn

/-- An element takes what is for it. -/
theorem served_elem (h : clockOutputs answer c s = some t) (i : Fin (m.elems c)) :
    held t (outAt c (.elem i)) = none := by
  obtain ⟨u, v, -, hserves, hserved⟩ := clockOutputs_mid hstamp hspec hanswer hn h (.elem i)
  refine hserved.out_none ?_
  cases hserves with
  | idle hfree => exact hfree
  | refused hans =>
      rw [hanswer] at hans
      cases hans
  | taken hy =>
      rw [held_handOver]
      exact Function.update_self ..

/-- A packet goes to a neighbour whose input is free. -/
theorem served_dir (h : clockOutputs answer c s = some t) {d : D} {c' : N}
    (hlink : w.link c d = some c') (hfree : held s (inpAt c' (.dir (w.opp d))) = none) :
    held t (outAt c (.dir d)) = none := by
  obtain ⟨u, v, hbefore, hserves, hserved⟩ := clockOutputs_mid hstamp hspec hanswer hn h (.dir d)
  refine hserved.out_none ?_
  cases hserves with
  | idle hfree => exact hfree
  | waits hlink' hfull =>
      obtain rfl := Option.some.inj (hlink.symm.trans hlink')
      exact (hbefore.fed hlink hfree).resolve_left hfull
  | hops hlink' hy hfree' =>
      rw [held_hop _ (by simp), Function.update_of_ne (by simp), Function.update_self]

end Outputs

/-! ## Arbitration -/

variable [Fintype D]

/-- A mesh in which one node arbitrated. -/
def arbitrateAt (c : N) (v : MeshState m) : MeshState m := setNode v c (arbitrate (v.nodes c))

omit [DecidableEq N] [DecidableEq D] [Fintype D] in
/-- A packet is wanted by one output at most. -/
theorem RoutingSpec.exclusive (hspec : RoutingSpec w ok) (c : N) : Exclusive m c :=
  fun _ _ _ => hspec.unique

omit [DecidableEq N] [DecidableEq D] [Fintype D] in
theorem propagateOrder_nodup (hdirs : m.dirs.Nodup) (c : N) : (m.propagateOrder c).Nodup := by
  refine List.nodup_append'.2 ⟨hdirs.map fun _ _ h => by cases h; rfl,
    (List.nodup_finRange _).map fun _ _ h => by cases h; rfl, fun p hp hp' => ?_⟩
  obtain ⟨d, -, rfl⟩ := List.mem_map.1 hp
  obtain ⟨i, -, hi⟩ := List.mem_map.1 hp'
  cases hi

/-- A clock serves the outputs and arbitrates. -/
theorem clock_phases (hspec : RoutingSpec w ok) (hdirs : m.dirs.Nodup)
    (h : clock answer c s = some t) :
    ∃ v, clockOutputs answer c (tick s c) = some v ∧ t = arbitrateAt c v := by
  obtain ⟨v, hout, hprop⟩ := Option.bind_eq_some_iff.1 h
  rw [propagate_eq_arbitrate (hspec.exclusive c) (propagateOrder_nodup hdirs c)
    (mem_propagateOrder w c)] at hprop
  exact ⟨v, hout, (Option.some.inj hprop).symm⟩

theorem held_arbitrateAt_other {c' : N} (hc : c' ≠ c) (p : Port D (m.elems c')) :
    held (arbitrateAt c v) (outAt c' p) = held v (outAt c' p) ∧
      held (arbitrateAt c v) (inpAt c' p) = held v (inpAt c' p) := by
  simp [arbitrateAt, setNode, held, hc]

/-- An input that wins is freed. -/
theorem held_arbitrateAt_freed {p q : Port D (m.elems c)} (h : winner (v.nodes c) p = some q) :
    held (arbitrateAt c v) (inpAt c q) = none := by
  rw [held_inpAt]
  simp only [arbitrateAt, setNode, Function.update_self, arbitrate, granted,
    if_pos (show ∃ p, winner (v.nodes c) p = some q from ⟨p, h⟩)]
  exact Reg.held_eq_none.2 rfl

/-- An output that is won holds the packet of the winner. -/
theorem held_arbitrateAt_won {p q : Port D (m.elems c)} (h : winner (v.nodes c) p = some q) :
    held (arbitrateAt c v) (outAt c p) = held v (inpAt c q) := by
  have hbusy := (winner_wants h).2.1
  rw [held_outAt, held_inpAt]
  simp only [arbitrateAt, setNode, Function.update_self, arbitrate, filled, h, Reg.held, hbusy]

/-- An output that nobody wins stays as it is. -/
theorem held_arbitrateAt_none {p : Port D (m.elems c)} (h : winner (v.nodes c) p = none) :
    held (arbitrateAt c v) (outAt c p) = held v (outAt c p) := by
  rw [held_outAt, held_outAt]
  simp only [arbitrateAt, setNode, Function.update_self, arbitrate, filled, h]

/-- A busy output keeps its packet, and an output is not freed. -/
theorem held_arbitrateAt_out {p : Port D (m.elems c)} {x : Packet}
    (hx : held v (outAt c p) = some x) : held (arbitrateAt c v) (outAt c p) = some x := by
  have hbusy : ((v.nodes c).out p).busy = true := (Reg.held_eq_some.1 hx).1
  rw [held_arbitrateAt_none (if_pos hbusy), hx]

/-- An input keeps its packet or is freed. -/
theorem held_arbitrateAt_inp (p : Port D (m.elems c)) :
    held (arbitrateAt c v) (inpAt c p) = held v (inpAt c p) ∨
      held (arbitrateAt c v) (inpAt c p) = none := by
  simp only [held_inpAt, arbitrateAt, setNode, Function.update_self, arbitrate, granted]
  split
  · exact .inr (Reg.held_eq_none.2 rfl)
  · exact .inl rfl

/-- An input is not filled. -/
theorem held_arbitrateAt_inp_none {c' : N} {p : Port D (m.elems c')}
    (hfree : held v (inpAt c' p) = none) : held (arbitrateAt c v) (inpAt c' p) = none := by
  by_cases hc : c' = c
  · subst hc
    rcases held_arbitrateAt_inp (v := v) p with h | h
    · rw [h, hfree]
    · exact h
  · rw [(held_arbitrateAt_other hc p).2, hfree]

/-- A register that stays busy keeps its packet. -/
theorem held_arbitrateAt_keeps {p : Place m} {x : Packet} (hx : held v p = some x)
    (hbusy : held (arbitrateAt c v) p ≠ none) : held (arbitrateAt c v) p = some x := by
  rcases p with ⟨c', p⟩ | ⟨c', p⟩ <;> by_cases hc : c' = c
  · subst hc
    rw [(held_arbitrateAt_inp p).resolve_right hbusy, hx]
  · rw [(held_arbitrateAt_other hc p).2, hx]
  · subst hc
    exact held_arbitrateAt_out hx
  · rw [(held_arbitrateAt_other hc p).1, hx]

omit [DecidableEq N] [DecidableEq D] [Fintype D] in
/-- A free output with a willing candidate is won by a packet that is not younger. -/
theorem exists_winner {p q : Port D (m.elems c)} {x : Packet} (hfree : held v (outAt c p) = none)
    (hx : held v (inpAt c q) = some x) (hwants : m.wants c p x = true)
    (hmem : some q ∈ m.candidates c (eldestElem (v.nodes c)) p) :
    ∃ q' y, winner (v.nodes c) p = some q' ∧ held v (inpAt c q') = some y ∧
      y.timestamp.toNat ≤ x.timestamp.toNat ∧ m.wants c p y = true := by
  obtain ⟨hbusy, rfl⟩ := Reg.held_eq_some.1 hx
  have hout : ((v.nodes c).out p).busy = false := Reg.held_eq_none.1 hfree
  have hcontends : q ∈ contenders (v.nodes c) p := by
    refine List.mem_filter.2 ⟨List.reduceOption_mem_iff.2 hmem, ?_⟩
    rw [hbusy, hwants]
    rfl
  obtain ⟨q', hq'⟩ : ∃ q', (contenders (v.nodes c) p).argmin (age (v.nodes c)) = some q' := by
    refine Option.ne_none_iff_exists'.1 fun hnone => ?_
    rw [List.argmin_eq_none.1 hnone] at hcontends
    cases hcontends
  have hwinner : winner (v.nodes c) p = some q' := by
    rw [winner, hout]
    exact hq'
  obtain ⟨-, hbusy', hwants'⟩ := winner_wants hwinner
  exact ⟨q', ((v.nodes c).inp q').pkt, hwinner, Reg.held_eq_some.2 ⟨hbusy', rfl⟩,
    List.le_of_mem_argmin (f := age (v.nodes c)) hcontends hq', hwants'⟩

end Gran.Mesh
