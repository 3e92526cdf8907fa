import Gran.Mesh.Chain1dClock

/-!
# When a chain stands still

Every packet of a chain that stands still is held up by another one, so some packets wait for each
other in a circle. Such a circle stays, and without new requests the other packets move until
nothing does: a run leads to a standstill exactly when it leads to a circular wait.
-/

namespace Gran.Chain1d

open Mesh Layout

variable {ch : Chain1d} {s s' t : State ch}

/-- Slots that all wait for slots among themselves. -/
def Locked (s : State ch) (l : Set (Slot ch)) : Prop := ∀ p ∈ l, ∃ q ∈ l, Waits s p q

/-- The moves owed by the packets of a chain. -/
def owed (s : State ch) : Nat := Slots.load ch.routes (net s)

/-- What the steps of a tick without new requests do: packets only move closer to where they go, and
no locked slot changes. -/
def Goes (s s' : State ch) : Prop :=
  Inv s → Inv s' ∧ (net s' = net s ∨ owed s' < owed s) ∧
    ∀ l, Locked s l → Locked s' l ∧ ∀ p ∈ l, held s' p = held s p

/-- Doing nothing changes no locked slot. -/
theorem goes_refl (s : State ch) : Goes s s :=
  fun h => ⟨h, Or.inl rfl, fun _ hl => ⟨hl, fun _ _ => rfl⟩⟩

/-- Two such steps, one after the other. -/
theorem goes_trans (a b c : State ch) (hab : Goes a b) (hbc : Goes b c) : Goes a c := by
  intro ha
  obtain ⟨hb, hload, hlocked⟩ := hab ha
  obtain ⟨hc, hload', hlocked'⟩ := hbc hb
  refine ⟨hc, ?_, fun l hl => ?_⟩
  case refine_2 =>
    obtain ⟨hbl, hbheld⟩ := hlocked l hl
    obtain ⟨hcl, hcheld⟩ := hlocked' l hbl
    exact ⟨hcl, fun p hp => (hcheld p hp).trans (hbheld p hp)⟩
  rcases hload' with hnet' | hlt'
  · rcases hload with hnet | hlt
    · exact Or.inl (hnet'.trans hnet)
    · exact Or.inr (by rw [owed, hnet']; exact hlt)
  · rcases hload with hnet | hlt
    · exact Or.inr (by rw [owed.eq_1 a, ← hnet]; exact hlt')
    · exact Or.inr (hlt'.trans hlt)

/-- Whether a slot waits for another one only depends on what the two hold. -/
theorem waits_congr {p q : Slot ch} (hp : held s' p = held s p) (hq : held s' q = held s q)
    (h : Waits s p q) : Waits s' p q := by
  obtain ⟨hblocks, hsomep, hsomeq⟩ := h
  refine ⟨?_, hp ▸ hsomep, hq ▸ hsomeq⟩
  cases hblocks with
  | link hlink => exact .link hlink
  | mem hmem => exact .mem hmem
  | wanted hx hwants => exact .wanted (hp.trans hx) hwants
  | older hx hy hold => exact .older (hp.trans hx) (hq.trans hy) hold
  | elem e => exact .elem e

/-- Whether a slot is held up only depends on the packets. -/
theorem heldUp_congr {p : Slot ch} (hheld : held s' = held s) (h : HeldUp s p) : HeldUp s' p := by
  rcases h with hnone | ⟨q, hblocks, hq⟩
  · exact Or.inl (hheld ▸ hnone)
  · by_cases hnone : held s p = none
    · exact Or.inl (hheld ▸ hnone)
    · obtain ⟨hblocks', -, hq'⟩ :=
        waits_congr (congrFun hheld p) (congrFun hheld q) ⟨hblocks, hnone, hq⟩
      exact Or.inr ⟨q, hblocks', hq'⟩

/-- The slots of states with one network hold the same. -/
theorem held_of_net (hnet : net s' = net s) : held s' = held s := by
  rw [← net_held, ← net_held, hnet]

/-- A state with the same network has the same locked slots. -/
theorem goes_of_net (hnet : net s' = net s) (h' : Inv s → Inv s') : Goes s s' := by
  intro h
  have hheld := held_of_net hnet
  refine ⟨h' h, Or.inl hnet, fun l hl => ⟨fun p hp => ?_, fun p _ => congrFun hheld p⟩⟩
  obtain ⟨q, hq, hwaits⟩ := hl p hp
  exact ⟨q, hq, waits_congr (congrFun hheld p) (congrFun hheld q) hwaits⟩

/-- A packet that nothing blocks is in no locked slot. -/
theorem goes_of_moved (h' : Inv s') (hmoved : Moved s s') : Goes s s' := by
  intro h
  obtain ⟨p, hfree, hp, hp', hmove⟩ := hmoved
  refine ⟨h', Or.inr (hmove.load_lt h.owned), fun l hl => ?_⟩
  have hnot : p ∉ l := by
    intro hpl
    obtain ⟨q, -, hblocks, -, hq⟩ := hl p hpl
    exact hq (hfree q hblocks)
  have hsame : ∀ u ∈ l, held s' u = held s u := by
    intro u hu
    have hup : u ≠ p := fun he => hnot (he ▸ hu)
    obtain ⟨-, -, -, hsome, -⟩ := hl u hu
    rw [← net_held, ← net_held] at *
    exact hmove.held_of_ne hp hp' hup hsome
  refine ⟨fun u hu => ?_, hsame⟩
  obtain ⟨q, hq, hwaits⟩ := hl u hu
  exact ⟨q, hq, waits_congr (hsame u hu) (hsame q hq) hwaits⟩

/-- Between two states that owe the same nothing moved. -/
theorem net_eq_of_owed (h : Inv s) (hst : Goes s t) (hts' : Goes t s') (howed : owed s ≤ owed s') :
    net t = net s := by
  obtain ⟨ht, hload, -⟩ := hst h
  obtain ⟨-, hload', -⟩ := hts' ht
  rcases hload with hnet | hlt
  · exact hnet
  · rcases hload' with hnet' | hlt'
    · rw [owed, owed, hnet'] at howed
      exact absurd (howed.trans_lt hlt) (lt_irrefl _)
    · exact absurd ((howed.trans_lt hlt').trans hlt) (lt_irrefl _)

/-! ## The clock of a node -/

/-- Serving an output only moves packets closer, and none out of a locked slot. -/
theorem clockOutput_goes {c : ch.Node} {p : Port Dir1 (ch.mesh.elems c)}
    (hclock : clockOutput c s p = some s') : Goes s s' := by
  intro h
  obtain ⟨u, hu, hinv, ⟨rfl, -⟩ | hmoved⟩ := clockOutput_spec h c p
  all_goals obtain rfl := Option.some.inj (hu.symm.trans hclock)
  · exact goes_refl u h
  · exact goes_of_moved hinv hmoved h

/-- The states between the `propagate` calls of a clock, whose element candidate is `r`. -/
def Propagates (c : ch.Node) (r : Option (Port Dir1 (ch.mesh.elems c)))
    (elements : ch.Elem → Element ch.Node) (mesh mesh' : MeshState ch.mesh) : Prop :=
  (∀ q, r = some q → ∃ i, q = .elem i ∧ Eldest mesh c i) → Inv ⟨mesh, elements⟩ →
    Goes ⟨mesh, elements⟩ ⟨mesh', elements⟩ ∧ ∀ q, r = some q → ∃ i, q = .elem i ∧ Eldest mesh' c i

/-- Filling outputs, one after the other. -/
theorem propagates_trans {c : ch.Node} {r : Option (Port Dir1 (ch.mesh.elems c))}
    {elements : ch.Elem → Element ch.Node} (m₁ m₂ m₃ : MeshState ch.mesh)
    (h : Propagates c r elements m₁ m₂) (h' : Propagates c r elements m₂ m₃) :
    Propagates c r elements m₁ m₃ := by
  intro hr hinv
  obtain ⟨hgoes, hr'⟩ := h hr hinv
  obtain ⟨hgoes', hr''⟩ := h' hr' (hgoes hinv).1
  exact ⟨goes_trans _ _ _ hgoes hgoes', hr''⟩

/-- Filling one output. -/
theorem propagateTo_propagates {c : ch.Node} {r : Option (Port Dir1 (ch.mesh.elems c))}
    {p : Port Dir1 (ch.mesh.elems c)} {elements : ch.Elem → Element ch.Node}
    {mesh mesh' : MeshState ch.mesh} (hprop : propagateTo c r mesh p = some mesh') :
    Propagates c r elements mesh mesh' := by
  intro hr hinv
  obtain ⟨u, hu, hinv', hshrinks, hcase⟩ := propagateTo_step hinv c r hr p
  obtain rfl := Option.some.inj (hu.symm.trans hprop)
  refine ⟨?_, fun q hq => ?_⟩
  · rcases hcase with ⟨rfl, -⟩ | hmoved
    · exact goes_refl _
    · exact goes_of_moved hinv' hmoved
  · obtain ⟨i, hi, heldest⟩ := hr q hq
    exact ⟨i, hi, heldest.shrinks hshrinks⟩

/-- A packet from a neighbour is a candidate for every output but the one back. -/
theorem dir_mem_candidates {c : ch.Node} {r : Option (Port Dir1 (ch.mesh.elems c))}
    {p : Port Dir1 (ch.mesh.elems c)} {d : Dir1} (h : p ≠ .dir d) :
    some (.dir d) ∈ ch.mesh.candidates c r p := by
  cases p with
  | elem i =>
      show some (Port.dir d) ∈ r :: [some (.dir .north), some (.dir .south)]
      cases d <;> simp
  | dir d' =>
      cases d' with
      | north =>
          show some (Port.dir d) ∈ r :: [some (.dir .south)]
          cases d
          · exact absurd rfl h
          · simp
      | south =>
          show some (Port.dir d) ∈ r :: [some (.dir .north)]
          cases d
          · simp
          · exact absurd rfl h

/-- If no `propagate` call of a clock can move anything, every packet in an input is held up. -/
theorem heldUp_inp (h : Inv s) {c : ch.Node} {r : Option (Port Dir1 (ch.mesh.elems c))}
    (hr : (∃ i, r = some (.elem i) ∧ Mesh.held s.mesh (inpAt c (.elem i)) ≠ none ∧
        Eldest s.mesh c i) ∨ r = none ∧ ∀ i, Mesh.held s.mesh (inpAt c (.elem i)) = none)
    (hstay : ∀ p, Mesh.held s.mesh (outAt c p) ≠ none ∨
      ∀ q, some q ∈ ch.mesh.candidates c r p → ∀ x, Mesh.held s.mesh (inpAt c q) = some x →
        ch.mesh.wants c p x = false) (q : Port Dir1 (ch.mesh.elems c)) :
    HeldUp s (.inl (inpAt c q)) := by
  cases hx : Mesh.held s.mesh (inpAt c q) with
  | none => exact Or.inl hx
  | some x =>
      obtain ⟨p, hwants, hturn⟩ := exists_wants (h.placed (p := .inl (inpAt c q)) hx)
      rcases hstay p with hbusy | hnone
      · exact Or.inr ⟨.inl (outAt c p), .wanted hx hwants, hbusy⟩
      · -- the output is free, so the packet is no candidate for it
        have hnot : some q ∉ ch.mesh.candidates c r p := by
          intro hmem
          have := hnone q hmem x hx
          rw [hwants] at this
          cases this
        cases q with
        | dir d => exact absurd (dir_mem_candidates (hturn rfl)) hnot
        | elem i =>
            rcases hr with ⟨j, rfl, hj, heldest⟩ | ⟨-, hall⟩
            · have hij : i ≠ j := by
                rintro rfl
                refine hnot ?_
                cases p <;> simp [candidates]
              obtain ⟨y, hy⟩ := Option.ne_none_iff_exists'.1 hj
              refine Or.inr ⟨.inl (inpAt c (.elem j)), .older hx hy ?_, hj⟩
              have hno := heldest y hy i x hx
              rcases lt_trichotomy i j with hlt | he | hlt
              · refine Or.inl ?_
                by_contra hge
                by_cases heq : x.timestamp = y.timestamp
                · exact hno (Or.inr ⟨heq, hlt⟩)
                · exact hno (Or.inl (by bv_omega))
              · exact absurd he hij
              · by_cases heq : y.timestamp = x.timestamp
                · exact Or.inr ⟨heq, hlt⟩
                · refine Or.inl ?_
                  by_contra hge
                  exact hno (Or.inl (by bv_omega))
            · rw [hall i] at hx
              cases hx

/-- The element input chosen in a clock is eldest. -/
theorem eldest_of_oldestElem {mesh : MeshState ch.mesh} {c : ch.Node}
    {q : Port Dir1 (ch.mesh.elems c)} (hq : oldestElem (mesh.nodes c) = some q) :
    ∃ i, q = .elem i ∧ Eldest mesh c i := by
  rcases oldestElem_eldest mesh c with ⟨i, hi, -, heldest⟩ | ⟨hnone, -⟩
  · exact ⟨i, Option.some.inj (hq.symm.trans hi), heldest⟩
  · rw [hnone] at hq
    cases hq

/-- Counting a clock moves nothing. -/
theorem goes_tick (s : State ch) (c : ch.Node) : Goes s { s with mesh := Mesh.tick s.mesh c } := by
  refine goes_of_net (congrArg₂ Layout.net (held_tick c) rfl) fun h => ?_
  show Carried _ _ _ (Mesh.held (Mesh.tick s.mesh c)) _
  rw [held_tick]
  exact h

/-- A clock of a node never aborts: its two loops end, and packets only move forward in them. -/
theorem nodeClock_loops (h : Inv s) (c : ch.Node) : ∃ s₁ mesh,
    (ch.mesh.portList c).foldlM (clockOutput c) { s with mesh := Mesh.tick s.mesh c } = some s₁ ∧
    (ch.mesh.propagateOrder c).foldlM (propagateTo c (oldestElem (s₁.mesh.nodes c))) s₁.mesh =
      some mesh ∧
    nodeClock s c = some { s₁ with mesh } ∧
    Goes { s with mesh := Mesh.tick s.mesh c } s₁ ∧ Goes s₁ { s₁ with mesh } := by
  obtain ⟨s₁, hout, hinv₁⟩ := Fold.foldlM_some Inv (l := ch.mesh.portList c) (f := clockOutput c)
    (fun u p _ hu => by
      obtain ⟨u', hu', hinv, -⟩ := clockOutput_spec hu c p
      exact ⟨u', hu', hinv⟩) (goes_tick s c h).1
  obtain ⟨mesh, hprop, -⟩ := Fold.foldlM_some
    (fun mesh => Inv ⟨mesh, s₁.elements⟩ ∧
      ∀ q, oldestElem (s₁.mesh.nodes c) = some q → ∃ i, q = .elem i ∧ Eldest mesh c i)
    (l := ch.mesh.propagateOrder c) (f := propagateTo c (oldestElem (s₁.mesh.nodes c)))
    (fun mesh p _ hm => by
      obtain ⟨mesh', hmesh', -⟩ := propagateTo_step hm.1 c _ hm.2 p
      obtain ⟨hgoes, hr⟩ := propagateTo_propagates hmesh' hm.2 hm.1
      exact ⟨mesh', hmesh', (hgoes hm.1).1, hr⟩) ⟨hinv₁, fun _ => eldest_of_oldestElem⟩
  have hprops : Propagates c (oldestElem (s₁.mesh.nodes c)) s₁.elements s₁.mesh mesh :=
    Fold.foldlM_rel _ (fun m hr _ => ⟨goes_refl _, hr⟩) propagates_trans
      (fun _ _ _ _ => propagateTo_propagates) hprop
  refine ⟨s₁, mesh, hout, hprop, ?_, ?_, fun h₁ => (hprops (fun _ => eldest_of_oldestElem) h₁).1 h₁⟩
  · simp [nodeClock, hout, hprop]
  · exact Fold.foldlM_rel Goes goes_refl goes_trans (fun _ _ _ _ => clockOutput_goes) hout

/-- A clock of a node that moves nothing found every packet of the node held up. -/
theorem nodeClock_heldUp (h : Inv s) {c : ch.Node} (hclock : nodeClock s c = some s')
    (howed : owed s ≤ owed s') (p : Port Dir1 (ch.mesh.elems c)) :
    HeldUp s (.inl (outAt c p)) ∧ HeldUp s (.inl (inpAt c p)) := by
  obtain ⟨s₁, mesh, hout, hprop, hclock', hgoes₁, hgoes₂⟩ := nodeClock_loops h c
  obtain rfl := Option.some.inj (hclock'.symm.trans hclock)
  have hgoes₀ := goes_tick s c
  have hinv₀ := (hgoes₀ h).1
  have hinv₁ := (hgoes₁ hinv₀).1
  have hnet₁ : net s₁ = net s :=
    net_eq_of_owed h (goes_trans _ _ _ hgoes₀ hgoes₁) hgoes₂ howed
  constructor
  · -- the iteration for this output found what `s` holds
    obtain ⟨u, u', h1, h2, h3, h4⟩ := Fold.foldlM_mid Goes goes_refl goes_trans
      (fun _ _ _ _ => clockOutput_goes) hout (mem_portList ch.wiring c p)
    have hsu := goes_trans _ _ _ hgoes₀ h1
    have hus' := goes_trans _ _ _ h3 (goes_trans _ _ _ h4 hgoes₂)
    have hu := net_eq_of_owed h hsu hus' howed
    have hu' := net_eq_of_owed h (goes_trans _ _ _ hsu h3) (goes_trans _ _ _ h4 hgoes₂) howed
    obtain ⟨u'', hu'', -, ⟨-, hheld⟩ | ⟨q, -, -, -, hmove⟩⟩ := clockOutput_spec (hsu h).1 c p
    · exact heldUp_congr (held_of_net hu).symm hheld
    · obtain rfl := Option.some.inj (hu''.symm.trans h2)
      have hlt := hmove.load_lt (hsu h).1.owned
      rw [hu, hu'] at hlt
      exact absurd hlt (lt_irrefl _)
  · -- so did the `propagate` call for every output
    have hstay : ∀ q, Mesh.held s₁.mesh (outAt c q) ≠ none ∨
        ∀ i, some i ∈ ch.mesh.candidates c (oldestElem (s₁.mesh.nodes c)) q →
          ∀ x, Mesh.held s₁.mesh (inpAt c i) = some x → ch.mesh.wants c q x = false := by
      intro q
      obtain ⟨m, m', h1, h2, h3, h4⟩ := Fold.foldlM_mid
        (Propagates c (oldestElem (s₁.mesh.nodes c)) s₁.elements)
        (fun m hr _ => ⟨goes_refl _, hr⟩) propagates_trans
        (fun _ _ _ _ => propagateTo_propagates) hprop (mem_propagateOrder ch.wiring c q)
      obtain ⟨hg1, hr1⟩ := h1 (fun _ => eldest_of_oldestElem) hinv₁
      have hm := (hg1 hinv₁).1
      obtain ⟨hg3, hr3⟩ := h3 hr1 hm
      obtain ⟨hg4, -⟩ := h4 hr3 (hg3 hm).1
      have hs1 := goes_trans _ _ _ hgoes₀ hgoes₁
      have hnet := net_eq_of_owed h (goes_trans _ _ _ hs1 hg1) (goes_trans _ _ _ hg3 hg4) howed
      have hnet' := net_eq_of_owed h (goes_trans _ _ _ hs1 (goes_trans _ _ _ hg1 hg3)) hg4 howed
      have hheld : Mesh.held m = Mesh.held s₁.mesh := by
        funext r
        exact congrFun (held_of_net (hnet.trans hnet₁.symm)) (.inl r)
      obtain ⟨m'', hm'', -, -, ⟨-, hcase⟩ | ⟨r, -, -, -, hmove⟩⟩ := propagateTo_step hm c _ hr1 q
      · simpa only [hheld] using hcase
      · obtain rfl := Option.some.inj (hm''.symm.trans h2)
        have hlt := hmove.load_lt hm.owned
        rw [hnet, hnet'] at hlt
        exact absurd hlt (lt_irrefl _)
    exact heldUp_congr (held_of_net hnet₁).symm
      (heldUp_inp hinv₁ (oldestElem_eldest s₁.mesh c) hstay p)

/-! ## Ticks -/

/-- With no new requests, a clock only moves packets forward. -/
theorem clock_goes (h : Inv s) (a : ch.Node ⊕ ch.Elem) :
    ∃ s', clock (fun _ => none) s a = some s' ∧ Goes s s' := by
  cases a with
  | inl c =>
      obtain ⟨s₁, mesh, -, -, hclock, hgoes₁, hgoes₂⟩ := nodeClock_loops h c
      exact ⟨_, hclock, goes_trans _ _ _ (goes_tick s c) (goes_trans _ _ _ hgoes₁ hgoes₂)⟩
  | inr e =>
      obtain ⟨s', hclock, hinv, ⟨rfl, -⟩ | hmoved⟩ := elemClock_spec h e none fun _ => rfl
      · exact ⟨s', hclock, goes_refl s'⟩
      · exact ⟨s', hclock, goes_of_moved hinv hmoved⟩

/-- With requests that are valid a clock keeps the invariant. -/
theorem clock_inv {new : ch.Elem → Option Packet} (hnew : Valid new) (h : Inv s)
    (a : ch.Node ⊕ ch.Elem) : ∃ s', clock new s a = some s' ∧ Inv s' := by
  cases a with
  | inl c =>
      obtain ⟨s', hclock, hgoes⟩ := clock_goes h (.inl c)
      exact ⟨s', hclock, (hgoes h).1⟩
  | inr e =>
      by_cases hidle : s.elements e = .requester .idle ∧ new e ≠ none
      · -- a request made is sent like one that was refused before
        obtain ⟨hidle, hsome⟩ := hidle
        obtain ⟨pkt, hpkt⟩ := Option.ne_none_iff_exists'.1 hsome
        obtain ⟨hreq, hmapped⟩ := hnew e pkt hpkt
        have hok : ch.routes.ok (.inr e) pkt := by
          simpa [routes, Placed, hreq.isMem] using ⟨hreq, hmapped⟩
        let u : State ch :=
          ⟨s.mesh, Function.update s.elements e (.requester (.refused pkt))⟩
        have hu : Inv u := Carried.refused h hidle hok (hreq.owner : ch.routes.owner pkt = some e)
        have hue : u.elements e = .requester (.refused pkt) := Function.update_self _ _ _
        obtain ⟨s', hclock, hinv, -⟩ := elemClock_spec hu e (new e) (by simp [hue])
        refine ⟨s', ?_, hinv⟩
        rw [← hclock]
        simp [clock, elemClock, hidle, hpkt, Element.clock, Requester.clock, u]
      · have hnone : s.elements e = .requester .idle → new e = none :=
          fun hi => not_not.1 fun hne => hidle ⟨hi, hne⟩
        obtain ⟨s', hclock, hinv, -⟩ := elemClock_spec h e (new e) hnone
        exact ⟨s', hclock, hinv⟩

/-- A run never aborts. -/
theorem run_inv {news : List (ch.Elem → Option Packet)} (hnews : ∀ new ∈ news, Valid new)
    (h : Inv s) : ∃ s', news.foldlM tick s = some s' ∧ Inv s' :=
  Fold.foldlM_some Inv (fun _ new hmem ht => Fold.foldlM_some Inv
    (fun _ a _ hu => clock_inv (hnews new hmem) hu a) ht) h

/-- A tick without new requests only moves packets closer, and none out of a locked slot. -/
theorem tick_goes (h : Inv s) : ∃ s', tick s (fun _ => none) = some s' ∧ Goes s s' := by
  obtain ⟨s', htick, -, hgoes⟩ := Fold.foldlM_total Inv Goes goes_refl goes_trans
    (fun u a _ hu => by
      obtain ⟨u', hclock, hgoes⟩ := clock_goes hu a
      exact ⟨u', hclock, (hgoes hu).1, hgoes⟩) h
  exact ⟨s', htick, hgoes⟩

/-- A tick without new requests that owes no less than before found every packet held up. -/
theorem tick_heldUp (h : Inv s) (htick : tick s (fun _ => none) = some s')
    (howed : owed s ≤ owed s') (p : Slot ch) : HeldUp s p := by
  have hclocks : ∀ u a u', a ∈ ch.order → clock (fun _ => none) u a = some u' → Goes u u' := by
    intro u a u' _ hclock hu
    obtain ⟨v, hv, hgoes⟩ := clock_goes hu a
    obtain rfl := Option.some.inj (hv.symm.trans hclock)
    exact hgoes hu
  -- the clock of the slot's component found what `s` holds
  have hmid : ∀ a, ∃ u u', clock (fun _ => none) u a = some u' ∧ Inv u ∧ net u = net s ∧
      owed u ≤ owed u' := by
    intro a
    obtain ⟨u, u', h1, h2, h3, h4⟩ := Fold.foldlM_mid Goes goes_refl goes_trans hclocks htick
      (ch.complete a)
    have hu := net_eq_of_owed h h1 (goes_trans _ _ _ h3 h4) howed
    have hu' := net_eq_of_owed h (goes_trans _ _ _ h1 h3) h4 howed
    exact ⟨u, u', h2, (h1 h).1, hu, by rw [owed, owed, hu, hu']⟩
  match p with
  | .inl (.inl ⟨c, p⟩) =>
      obtain ⟨u, u', hclock, hinv, hnet, hle⟩ := hmid (.inl c)
      exact heldUp_congr (held_of_net hnet).symm (nodeClock_heldUp hinv hclock hle p).2
  | .inl (.inr ⟨c, p⟩) =>
      obtain ⟨u, u', hclock, hinv, hnet, hle⟩ := hmid (.inl c)
      exact heldUp_congr (held_of_net hnet).symm (nodeClock_heldUp hinv hclock hle p).1
  | .inr e =>
      obtain ⟨u, u', hclock, hinv, hnet, hle⟩ := hmid (.inr e)
      obtain ⟨v, hv, -, ⟨-, hheld⟩ | ⟨q, -, -, -, hmove⟩⟩ := elemClock_spec hinv e none fun _ => rfl
      · exact heldUp_congr (held_of_net hnet).symm hheld
      · obtain rfl := Option.some.inj (hv.symm.trans hclock)
        exact absurd ((hmove.load_lt hinv.owned).trans_le hle) (lt_irrefl _)

/-! ## Standing still -/

/-- Where an unanswered request is left and nothing moves, packets wait for each other in a
circle. -/
theorem cyclicWait_of_standstill (h : Inv s) (hstill : Standstill s) : CyclicWait s := by
  obtain ⟨⟨e, he⟩, s', htick, hheld⟩ := hstill
  have howed : owed s ≤ owed s' := by
    refine le_of_eq ?_
    simp only [owed, Slots.load, net_held, hheld]
  have hup := tick_heldUp h htick howed
  have hwaits : ∀ p, (net s).held p ≠ none → ∃ q, Waits s p q ∧ (net s).held q ≠ none := by
    intro p hp
    rw [net_held] at hp ⊢
    rcases hup p with hnone | ⟨q, hblocks, hq⟩
    · exact absurd hnone hp
    · exact ⟨q, ⟨hblocks, hp, hq⟩, hq⟩
  obtain ⟨p, x, hp, -⟩ := h.owned.item (e := some e) ⟨e, rfl, he⟩
  exact Slots.exists_cycle (Waits s) hwaits ⟨p, by rw [hp]; simp⟩

/-- A circular wait stays, and without new requests all other packets come to rest. -/
theorem standstill_of_locked (h : Inv s) {l : Set (Slot ch)} (hne : l.Nonempty)
    (hl : Locked s l) :
    ∃ n s', (List.replicate n fun _ => none).foldlM tick s = some s' ∧ Standstill s' := by
  induction hn : owed s using Nat.strong_induction_on generalizing s with
  | h k ih =>
      obtain ⟨s', htick, hgoes⟩ := tick_goes h
      obtain ⟨hinv', hcase, hlocked⟩ := hgoes h
      rcases hcase with hnet | hlt
      · obtain ⟨p, hp⟩ := hne
        obtain ⟨q, -, -, hsome, -⟩ := hl p hp
        obtain ⟨x, hx⟩ := Option.ne_none_iff_exists'.1 hsome
        obtain ⟨e, -, he⟩ := h.owned.waiting (p := p) (by rw [net_held]; exact hx)
        exact ⟨0, s, rfl, ⟨e, he⟩, s', htick, held_of_net hnet⟩
      · obtain ⟨n, s'', hrun, hstill⟩ := ih (owed s') (hn ▸ hlt) hinv' (hlocked l hl).1 rfl
        exact ⟨n + 1, s'', by simp [List.replicate_succ, htick, hrun], hstill⟩

/-- Along every run, and on while no new requests are made, the chain never stands still with a
request unanswered exactly when no packets ever wait for each other in a circle. -/
theorem node1d_standstill {news : List (ch.Elem → Option Packet)}
    (hnews : ∀ new ∈ news, Valid new) :
    (∀ n, ∃ s, ch.run (news ++ List.replicate n fun _ => none) = some s) ∧
      ((∀ n s, ch.run (news ++ List.replicate n fun _ => none) = some s → ¬ Standstill s) ↔
        ∀ n s, ch.run (news ++ List.replicate n fun _ => none) = some s → ¬ CyclicWait s) := by
  have hvalid : ∀ n, ∀ new ∈ news ++ List.replicate n (fun _ => none), Valid new := by
    intro n new hmem
    rcases List.mem_append.1 hmem with hmem | hmem
    · exact hnews new hmem
    · obtain rfl := List.eq_of_mem_replicate hmem
      exact fun e pkt hpkt => by cases hpkt
  have hinv : ∀ n s, ch.run (news ++ List.replicate n fun _ => none) = some s → Inv s := by
    intro n s hs
    obtain ⟨s', hs', hinv⟩ := run_inv (hvalid n) inv_init
    exact Option.some.inj (hs'.symm.trans hs) ▸ hinv
  refine ⟨fun n => ?_, fun hnever n s hs hcycle => ?_, fun hnever n s hs hstill => ?_⟩
  · obtain ⟨s, hs, -⟩ := run_inv (hvalid n) inv_init
    exact ⟨s, hs⟩
  · obtain ⟨p, hp⟩ := hcycle
    obtain ⟨l, hpl, hl⟩ := Slots.exists_closed hp
    obtain ⟨k, s', hs', hstill⟩ := standstill_of_locked (hinv n s hs) ⟨p, hpl⟩ hl
    refine hnever (n + k) s' ?_ hstill
    rw [List.replicate_add, ← List.append_assoc, run, List.foldlM_append]
    have hs₀ : List.foldlM tick ch.init (news ++ List.replicate n fun _ => none) = some s := hs
    rw [hs₀]
    exact hs'
  · exact hnever n s hs (cyclicWait_of_standstill (hinv n s hs) hstill)

/-! ## Four requesters and one memory -/

/-- Where every packet is held up, nothing moves. -/
theorem net_of_heldUp (h : Inv s) (hup : ∀ p, HeldUp s p) (hgoes : Goes s s') : net s' = net s := by
  obtain ⟨-, hcase, hlocked⟩ := hgoes h
  rcases hcase with hnet | hlt
  · exact hnet
  · -- the occupied slots wait for each other, so they still owe what they did
    have hl : Locked s {p | held s p ≠ none} := by
      intro p hp
      rcases hup p with hnone | ⟨q, hblocks, hq⟩
      · exact absurd hnone hp
      · exact ⟨q, hq, hblocks, hp, hq⟩
    have hle : owed s ≤ owed s' := by
      refine Finset.sum_le_sum fun p _ => ?_
      rw [net_held, net_held]
      by_cases hp : held s p = none
      · rw [hp]
        exact Nat.zero_le _
      · rw [(hlocked _ hl).2 p hp]
    exact absurd (hle.trans_lt hlt) (lt_irrefl _)

/-- Where every packet is held up and no requester is free, no requests of any tick to come move
anything. -/
theorem still_forever (h : Inv s) (hup : ∀ p, HeldUp s p)
    (hbusy : ∀ e, (ch.layout.created e).isMem = true ∨ (s.elements e).Unanswered)
    (news : List (ch.Elem → Option Packet)) :
    ∃ s', news.foldlM tick s = some s' ∧ held s' = held s := by
  -- what stays the same: only the clock counts of the nodes change
  let Same : State ch → Prop := fun u => Inv u ∧ net u = net s
  have hclock : ∀ (new : ch.Elem → Option Packet) u a, a ∈ ch.order → Same u →
      ∃ u', clock new u a = some u' ∧ Same u' := by
    rintro new u a - ⟨hu, hnet⟩
    have hup' : ∀ p, HeldUp u p := fun p => heldUp_congr (held_of_net hnet) (hup p)
    cases a with
    | inl c =>
        obtain ⟨u', hclock, hgoes⟩ := clock_goes hu (.inl c)
        exact ⟨u', hclock, (hgoes hu).1, (net_of_heldUp hu hup' hgoes).trans hnet⟩
    | inr e =>
        have hidle : u.elements e ≠ .requester .idle := by
          intro hidle
          rcases hbusy e with hmem | hun
          · rw [← hu.isMem e, hidle] at hmem
            cases hmem
          · have hwaiting : some e ∈ (net u).waiting := hnet ▸ ⟨e, rfl, hun⟩
            obtain ⟨e', he', hun'⟩ := hwaiting
            obtain rfl := Option.some.inj he'
            rw [hidle] at hun'
            exact hun'
        obtain ⟨u', hclock, hinv, ⟨rfl, -⟩ | hmoved⟩ :=
          elemClock_spec hu e (new e) fun hi => absurd hi hidle
        · exact ⟨u', hclock, hu, hnet⟩
        · exact ⟨u', hclock, hinv,
            (net_of_heldUp hu hup' (goes_of_moved hinv hmoved)).trans hnet⟩
  obtain ⟨s', hrun, -, hnet⟩ := Fold.foldlM_some (f := tick) Same (l := news)
    (fun u new _ hu => Fold.foldlM_some (f := clock new) Same (hclock new) hu) ⟨h, rfl⟩
  exact ⟨s', hrun, held_of_net hnet⟩

/-- One node with four requesters at its element ports 0 to 3 and a memory at port 4. -/
def fourReaders : Chain1d where
  length := 1
  cluster _ := 0
  elems _ := 5
  created e := if e.2.val = 4 then .mem (createSimpleMem 64 fun _ => 0) else .requester .idle
  order := [.inr ⟨0, 0, by decide⟩, .inr ⟨0, 1, by decide⟩, .inr ⟨0, 2, by decide⟩,
    .inr ⟨0, 3, by decide⟩, .inl 0, .inr ⟨0, 4, by decide⟩]
  cluster_lt c c' h := by omega
  fresh e := by
    by_cases h : e.2.val = 4
    · simp [h, Element.Fresh, createSimpleMem]
    · simp [h, Element.Fresh]
  nodup := by decide
  complete a := by
    rcases a with c | ⟨c, i⟩
    · obtain rfl : c = 0 := Subsingleton.elim _ _
      simp
    · obtain rfl : c = 0 := Subsingleton.elim _ _
      obtain ⟨_ | _ | _ | _ | _ | i, hi⟩ := i
      case succ.succ.succ.succ.succ => exact absurd hi (by simp)
      all_goals simp

/-- Its node. -/
def hub : fourReaders.Node := (0 : Fin 1)

/-- The port of an element. -/
def hubPort (i : Fin 5) : Port Dir1 (fourReaders.mesh.elems hub) := .elem i

/-- Every requester reads the first byte of the memory. -/
def allRead (e : fourReaders.Elem) : Option Packet :=
  if e.2.val = 4 then none
  else some ⟨mesh1dAddr 0 (BitVec.ofNat 16 e.2) 0, mesh1dAddr 0 4 0, 1, 0, fun _ => 0, PACKET_READ⟩

/-- The chain of the example is valid. -/
theorem allRead_valid : Valid allRead := by
  intro e pkt h
  simp only [allRead, Option.ite_none_left_eq_some, Option.some.injEq] at h
  obtain ⟨hne, rfl⟩ := h
  have hmem : fourReaders.layout.region (mesh1dAddr 0 4 0) = some ⟨hub, (4 : Fin 5)⟩ :=
    region_eq_some.2 (by decide)
  refine ⟨⟨?_, ?_, fun b hb => ?_⟩, ?_⟩
  · simp [layout, fourReaders, hne, Element.role]
  · obtain ⟨c, i⟩ := e
    obtain rfl : c = hub := Subsingleton.elim (α := Fin 1) _ _
    have haddr : ∀ i : Fin 5,
        (0 : BitVec 16) = (addrMesh1d (mesh1dAddr 0 (BitVec.ofNat 16 i) 0)).cluster ∧
          (addrMesh1d (mesh1dAddr 0 (BitVec.ofNat 16 i) 0)).elem.toNat = i := by
      decide
    exact region_eq_some.2 (haddr i)
  · obtain rfl := Option.some.inj (hmem.symm.trans hb)
    refine ⟨64, rfl, by decide, Or.inl ?_, ?_⟩
    · show (PACKET_READ &&& PACKET_READ != 0) = true
      decide
    · show ∀ i : Fin 64, (1 : Word).getLsbD i = true →
        (mesh1dAddr 0 4 0 % 64).toNat + i < (64 : Word).toNat
      decide
  · show fourReaders.layout.region (mesh1dAddr 0 4 0) ≠ none
    rw [hmem]
    simp

/-- Three ticks after all requesters read at once, requester 3's request waits in the node for the
output to the memory, which holds requester 2's request, the memory holds the reply for requester 1,
and the memory's input holds the reply for requester 0, younger than requester 3's request. -/
theorem node1d_deadlocks : ∃ (news : List (fourReaders.Elem → Option Packet))
    (s : State fourReaders), (∀ new ∈ news, Valid new) ∧ fourReaders.run news = some s ∧
      (∃ e, (s.elements e).Unanswered) ∧
      ∀ more : List (fourReaders.Elem → Option Packet),
        ∃ s', more.foldlM tick s = some s' ∧ held s' = held s := by
  let news : List (fourReaders.Elem → Option Packet) := [allRead, fun _ => none, fun _ => none]
  have hvalid : ∀ new ∈ news, Valid new := by
    intro new hnew
    simp only [news, List.mem_cons, List.not_mem_nil, or_false] at hnew
    rcases hnew with rfl | rfl | rfl
    · exact allRead_valid
    · exact fun e pkt h => by cases h
    · exact fun e pkt h => by cases h
  obtain ⟨s, hs, hinv⟩ := run_inv hvalid inv_init
  let inp3 : Slot fourReaders := .inl (inpAt hub (hubPort 3))
  let inp4 : Slot fourReaders := .inl (inpAt hub (hubPort 4))
  let out4 : Slot fourReaders := .inl (outAt hub (hubPort 4))
  let mem : Slot fourReaders := .inr ⟨hub, (4 : Fin 5)⟩
  have hempty : ((fourReaders.run news).all fun s => decide (∀ p : Slot fourReaders,
      (decide (p = inp3) || decide (p = inp4) || decide (p = out4) || decide (p = mem) ||
        (held s p).isNone) = true)) = true := by
    decide +kernel
  have hfull : ((fourReaders.run news).all fun s =>
      (held s out4).isSome && (held s mem).isSome &&
      (held s inp3).any (fun x => fourReaders.mesh.wants hub (hubPort 4) x &&
        (held s inp4).any fun y => decide (x.timestamp < y.timestamp))) = true := by
    decide +kernel
  have hbusy : ((fourReaders.run news).all fun s => decide (∀ e : fourReaders.Elem,
      (fourReaders.layout.created e).isMem = true ∨ (s.elements e).Unanswered)) = true := by
    decide +kernel
  have hs' : fourReaders.run news = some s := hs
  rw [hs'] at hempty hfull hbusy
  simp only [Option.all_some, decide_eq_true_eq] at hempty hbusy
  simp only [Option.all_some, Bool.and_eq_true, Option.isSome_iff_ne_none, Option.any_eq_true,
    decide_eq_true_eq] at hfull
  obtain ⟨⟨hout, hmem⟩, x, hx, hwants, y, hy, hlt⟩ := hfull
  have hup : ∀ p, HeldUp s p := by
    intro p
    have hp := hempty p
    simp only [Bool.or_eq_true, decide_eq_true_eq] at hp
    rcases hp with (((rfl | rfl) | rfl) | rfl) | hnone
    · exact Or.inr ⟨out4, .wanted hx hwants, hout⟩
    · exact Or.inr ⟨inp3, .older hy hx (Or.inl hlt), by rw [hx]; simp⟩
    · exact Or.inr ⟨mem, .mem rfl, hmem⟩
    · exact Or.inr ⟨inp4, .elem _, by rw [hy]; simp⟩
    · exact Or.inl (Option.isNone_iff_eq_none.1 hnone)
  refine ⟨news, s, hvalid, hs', ?_, still_forever hinv hup hbusy⟩
  rcases hbusy ⟨hub, (0 : Fin 5)⟩ with hmem0 | hun
  · cases hmem0
  · exact ⟨_, hun⟩

/-- The run of one tick in which all four requesters read, and its continuations. -/
theorem node1d_standstill_allRead :
    (∀ n, ∃ s, fourReaders.run ([allRead] ++ List.replicate n fun _ => none) = some s) ∧
      ((∀ n s, fourReaders.run ([allRead] ++ List.replicate n fun _ => none) = some s →
          ¬ Standstill s) ↔
        ∀ n s, fourReaders.run ([allRead] ++ List.replicate n fun _ => none) = some s →
          ¬ CyclicWait s) :=
  node1d_standstill (by simpa using allRead_valid)

end Gran.Chain1d
