import Gran.Mesh.Network

/-!
# Progress of a mesh

A `Ranking` numbers the registers so that packets only move upwards, with the element inputs at
the bottom. `round_load_lt` says that one round, in which every node is clocked and every element
accepts, pays at least one of the moves a non-empty mesh owes: a round that paid none would have
found every register blocked, which the highest occupied register is not.
-/

namespace Gran.Mesh

open PacketNet

variable {N D : Type} [DecidableEq N] [DecidableEq D] {m : Mesh N D}
  {w : Wiring m} {ok : Place m → Packet → Prop} {s s' : MeshState m}
  {answer : Comp N → Stat} {injected : Multiset Packet}

/-- A numbering of the registers that every move increases. -/
structure Ranking (w : Wiring m) (ok : Place m → Packet → Prop) where
  rank : Place m → Nat
  lt : ∀ p q x, ok p x → next w p x = some q → rank p < rank q
  elem : ∀ c i, rank (inpAt c (.elem i)) = 0
  dir : ∀ c d, 0 < rank (inpAt c (.dir d))
  out : ∀ c p, 0 < rank (outAt c p)

omit [DecidableEq D] in
/-- The chosen element input is busy, and one is chosen as soon as any is busy. -/
theorem oldestElem_spec (node : MeshNode D n) {i : Fin n}
    (hbusy : (node.inp (.elem i)).busy = true) :
    ∃ j, oldestElem node = some (.elem j) ∧ (node.inp (.elem j)).busy = true := by
  cases hold : oldestElem node with
  | none =>
      have hnone := (oldest_none hold).2 (.elem i) (by simp) hbusy
      simp at hnone
  | some q =>
      obtain h | ⟨hmem, hq, -⟩ := oldest_some hold
      · cases h
      · obtain ⟨j, hj⟩ : ∃ j, q = .elem j := by
          simp only [List.mem_map, List.mem_finRange, true_and, Option.some.injEq] at hmem
          obtain ⟨j, rfl⟩ := hmem
          exact ⟨j, rfl⟩
        subst hj
        exact ⟨j, rfl, hq⟩

/-- Nothing at a node can move: its outputs wait for busy registers or were refused, and no
candidate is willing to go to an output that is free. -/
structure Blocked (w : Wiring m) (answer : Comp N → Stat) (s : MeshState m) (c : N) : Prop where
  out : ∀ p x, held s (outAt c p) = some x →
    (∃ q, next w (outAt c p) x = some q ∧ held s q ≠ none) ∨
      ∃ i, p = .elem i ∧ answer (.elem c i) = .EBUSY
  dir : ∀ p, held s (outAt c p) = none → ∀ d x, held s (inpAt c (.dir d)) = some x →
    some (.dir d) ∈ m.candidates c none p → m.wants c p x = false
  elem : ∀ i y, held s (inpAt c (.elem i)) = some y →
    ∃ j x, held s (inpAt c (.elem j)) = some x ∧
      ∀ p, held s (outAt c p) = none → m.wants c p x = false

variable [Fintype N] [Fintype D] {owed : Place m → Packet → Nat}

omit [DecidableEq N] [DecidableEq D] in
/-- A mesh counts all of its registers. -/
theorem everywhere (p : Place m) (x : Packet) (_ : ok p x) : p ∈ Finset.univ := Finset.mem_univ p

section Still

variable (hspec : RoutingSpec w ok) (hcount : Counts (next w) ok owed)
  (hn : Routed (next w) ok (network s injected))
include hspec hcount hn

/-- Between two states that owe the same, every state on the way has the same registers. -/
theorem network_eq_of_load {t : MeshState m} (h : Goes w ok injected s t)
    (h' : Goes w ok injected t s')
    (hload : (network s injected).load Finset.univ owed ≤
      (network s' injected).load Finset.univ owed) :
    network t injected = network s injected := by
  have hmoves := h hn
  have ht := Moves.routed (ok_next hspec) hmoves hn
  have hle := Moves.load_le (ok_next hspec) everywhere hcount ht (h' ht)
  exact Moves.eq_of_load_le (ok_next hspec) everywhere hcount hn hmoves (hload.trans hle)

/-- An output that was clocked to no effect waits for a busy register or was refused. -/
theorem clockOutput_stuck (hstamp : StampsAtElements m.toNodeKind)
    (hanswer : ∀ comp, answer comp = .OK ∨ answer comp = .EBUSY) {c : N}
    {p : Port D (m.elems c)} (hstep : clockOutput answer c s p = some s')
    (hsame : network s' injected = network s injected) {x : Packet}
    (hx : held s (outAt c p) = some x) :
    (∃ q, next w (outAt c p) x = some q ∧ held s q ≠ none) ∨
      ∃ i, p = .elem i ∧ answer (.elem c i) = .EBUSY := by
  obtain ⟨t, ht, hcase⟩ := clockOutput_spec hstamp hspec hanswer hn c p
  obtain rfl : t = s' := Option.some.inj (ht.symm.trans hstep)
  rcases hcase with ⟨-, hcase⟩ | hmove
  · exact hcase x hx
  · have hpaid := hmove.load (ok_next hspec) everywhere hcount hn
    rw [hsame] at hpaid
    omega

/-- A `propagate` call to no effect found its output busy or no candidate willing. -/
theorem propagateTo_stuck {c : N} {r : Option (Port D (m.elems c))} {p : Port D (m.elems c)}
    (hstep : propagateTo c r s p = some s')
    (hsame : network s' injected = network s injected) (hfree : held s (outAt c p) = none)
    {q : Port D (m.elems c)} (hq : some q ∈ m.candidates c r p) {x : Packet}
    (hx : held s (inpAt c q) = some x) : m.wants c p x = false := by
  obtain ⟨t, ht, hcase⟩ := propagateTo_spec (s := s) hspec injected c r p
  obtain rfl : t = s' := Option.some.inj (ht.symm.trans hstep)
  rcases hcase with ⟨-, hcase⟩ | hmove
  · rcases hcase with hcase | hcase
    · exact absurd hfree hcase
    · exact hcase q hq x hx
  · have hpaid := hmove.load (ok_next hspec) everywhere hcount hn
    rw [hsame] at hpaid
    omega

/-- A clock that pays nothing found its node blocked. -/
theorem clock_blocked (hstamp : StampsAtElements m.toNodeKind)
    (hanswer : ∀ comp, answer comp = .OK ∨ answer comp = .EBUSY) {c : N}
    (hclock : clock answer c s = some s')
    (hload : (network s injected).load Finset.univ owed ≤
      (network s' injected).load Finset.univ owed) :
    Blocked w answer s c := by
  simp only [clock, Option.bind_eq_bind, Option.bind_eq_some_iff] at hclock
  obtain ⟨t, hout, hprop⟩ := hclock
  have htrans : ∀ a b c : MeshState m, Goes w ok injected a b → Goes w ok injected b c →
      Goes w ok injected a c := fun _ _ _ => goes_trans hspec
  have htick : Goes w ok injected s (tick s c) := goes_of_held (held_tick c) rfl
  have hto : Goes w ok injected (tick s c) t := Fold.foldlM_rel _ goes_refl htrans
    (fun _ _ _ _ => clockOutput_goes hstamp hspec hanswer) hout
  have hts' : Goes w ok injected t s' := Fold.foldlM_rel _ goes_refl htrans
    (fun _ _ _ _ => propagateTo_goes hspec) hprop
  have hst := htrans _ _ _ htick hto
  -- the states around the two loops' iterations all have the registers of `s`
  have hsame : ∀ u, Goes w ok injected s u → Goes w ok injected u s' →
      network u injected = network s injected := fun u h h' =>
    network_eq_of_load hspec hcount hn h h' hload
  have hheld : ∀ u : MeshState m, network u injected = network s injected → held u = held s :=
    fun _ hu => congrArg Net.held hu
  have hidle : ∀ p, held s (outAt c p) = none →
      ∀ q, some q ∈ m.candidates c (oldestElem (t.nodes c)) p →
      ∀ x, held s (inpAt c q) = some x → m.wants c p x = false := by
    intro p hfree q hq x hx
    obtain ⟨u, u', h1, hstep, h3, h4⟩ := Fold.foldlM_mid _ goes_refl htrans
      (fun _ _ _ _ => propagateTo_goes hspec) hprop (mem_propagateOrder w c p)
    have hu := hsame u (htrans _ _ _ hst h1) (htrans _ _ _ h3 h4)
    have hu' := hsame u' (htrans _ _ _ hst (htrans _ _ _ h1 h3)) h4
    exact propagateTo_stuck hspec hcount (hu ▸ hn) hstep (hu'.trans hu.symm)
      (by rw [hheld u hu, hfree]) hq (by rw [hheld u hu, hx])
  have ht := hheld t (hsame t hst hts')
  refine ⟨fun p x hx => ?_, fun p hfree d x hx hmem => ?_, fun i y hy => ?_⟩
  · obtain ⟨u, u', h1, hstep, h3, h4⟩ := Fold.foldlM_mid _ goes_refl htrans
      (fun _ _ _ _ => clockOutput_goes hstamp hspec hanswer) hout (mem_portList w c p)
    have hu := hsame u (htrans _ _ _ htick h1) (htrans _ _ _ h3 (htrans _ _ _ h4 hts'))
    have hu' := hsame u' (htrans _ _ _ htick (htrans _ _ _ h1 h3)) (htrans _ _ _ h4 hts')
    have hstuck := clockOutput_stuck hspec hcount (hu ▸ hn) hstamp hanswer hstep
      (hu'.trans hu.symm) (by rw [hheld u hu, hx])
    simpa only [hheld u hu] using hstuck
  · refine hidle p hfree (.dir d) ?_ x hx
    cases p <;> simp_all [candidates]
  · have hbusy : ((t.nodes c).inp (.elem i)).busy = true := by
      have : held t (inpAt c (.elem i)) = some y := by rw [ht, hy]
      exact (Reg.held_eq_some.1 this).1
    obtain ⟨j, hj, hjbusy⟩ := oldestElem_spec (t.nodes c) hbusy
    have hjheld : held s (inpAt c (.elem j)) = some ((t.nodes c).inp (.elem j)).pkt := by
      rw [← ht, held_inpAt, Reg.held, if_pos hjbusy]
    refine ⟨j, _, hjheld, fun p hfree => hidle p hfree (.elem j) ?_ _ hjheld⟩
    cases p <;> simp [candidates, hj]

end Still

/-! ## Rounds -/

/-- One round: every node of the list is clocked once. -/
def round (answer : Comp N → Stat) (order : List N) (s : MeshState m) : Option (MeshState m) :=
  order.foldlM (fun s c => clock answer c s) s

section Round

variable (hspec : RoutingSpec w ok) (hcount : Counts (next w) ok owed)
  (hstamp : StampsAtElements m.toNodeKind)
  (hinputs : ∀ d d', d' ≠ d → d' ∈ m.inputs d)
include hspec

omit [Fintype N] [Fintype D] in
include hstamp in
theorem round_goes (hanswer : ∀ comp, answer comp = .OK ∨ answer comp = .EBUSY) {order : List N}
    (h : round answer order s = some s') : Goes w ok injected s s' :=
  Fold.foldlM_rel _ goes_refl (fun _ _ _ => goes_trans hspec)
    (fun _ _ _ _ => clock_goes hstamp hspec hanswer) h

omit [Fintype N] [Fintype D] in
include hstamp in
theorem round_some (hanswer : ∀ comp, answer comp = .OK ∨ answer comp = .EBUSY)
    (hn : Routed (next w) ok (network s injected)) (order : List N) :
    ∃ s', round answer order s = some s' ∧ Routed (next w) ok (network s' injected) :=
  Fold.foldlM_some _ (fun _ _ _ hs => clock_some hstamp hspec hanswer hs _) hn

include hcount hstamp hinputs in
/-- A round in which every node is clocked and every element accepts pays at least one of the
moves a mesh that is not empty owes. -/
theorem round_load_lt (hrank : Ranking w ok) (hn : Routed (next w) ok (network s injected))
    {order : List N} (hall : ∀ c, c ∈ order) (h : round (fun _ => .OK) order s = some s')
    (hbusy : ∃ p, held s p ≠ none) :
    (network s' injected).load Finset.univ owed < (network s injected).load Finset.univ owed := by
  by_contra hload
  rw [not_lt] at hload
  have hanswer : ∀ comp : Comp N,
      (fun _ => Stat.OK : Comp N → Stat) comp = .OK ∨
        (fun _ => Stat.OK : Comp N → Stat) comp = .EBUSY := fun _ => Or.inl rfl
  have hblocked : ∀ c, Blocked w (fun _ => .OK) s c := by
    intro c
    obtain ⟨t, t', h1, h2, h3, h4⟩ := Fold.foldlM_mid (Goes w ok injected) goes_refl
      (fun _ _ _ => goes_trans hspec) (fun _ _ _ _ => clock_goes hstamp hspec hanswer) h (hall c)
    have ht := network_eq_of_load hspec hcount hn h1 (goes_trans hspec h3 h4) hload
    have ht' := network_eq_of_load hspec hcount hn (goes_trans hspec h1 h3) h4 hload
    have hb := clock_blocked hspec hcount (ht ▸ hn) hstamp hanswer h2 (by rw [ht, ht'])
    have hheld : held t = held s := congrArg Net.held ht
    exact ⟨by simpa only [hheld] using hb.out, by simpa only [hheld] using hb.dir,
      by simpa only [hheld] using hb.elem⟩
  -- the highest occupied register is not blocked
  obtain ⟨p, x, hp, hmax, hfree⟩ := exists_unblocked everywhere hrank.rank hrank.lt hn hbusy
  have hplaced := hn.held p x hp
  match p, hp, hmax, hfree, hplaced with
  | .inr ⟨c, p⟩, hp, _, hfree, _ =>
      rcases (hblocked c).out p x hp with ⟨q, hq, hne⟩ | ⟨i, -, hrefused⟩
      · exact hne (hfree q hq)
      · simp at hrefused
  | .inl ⟨c, .dir d⟩, hp, _, hfree, hplaced =>
      obtain ⟨q, hwants, -, hturn⟩ := hspec.route hplaced
      have hq := hfree _ (next_inp hspec hwants)
      have hwant := (hblocked c).dir q hq d x hp (by
        cases q with
        | elem i => simpa [candidates] using w.mem_dirs d
        | dir d' =>
            have hne : d ≠ d' := fun he => hturn rfl (he ▸ rfl)
            simpa [candidates] using hinputs d' d hne)
      simp [hwants] at hwant
  | .inl ⟨c, .elem i⟩, hp, hmax, _, _ =>
      -- only element inputs are occupied, so the chosen one finds its output free
      have hlow : ∀ q, held s q ≠ none → hrank.rank q = 0 := by
        intro q hq
        have := hmax q hq
        rw [hrank.elem] at this
        omega
      obtain ⟨j, y, hj, hwill⟩ := (hblocked c).elem i x hp
      obtain ⟨q, hwants, -, -⟩ := hspec.route (hn.held _ _ hj)
      have hq : held s (outAt c q) = none := by
        by_contra hne
        have := hlow _ hne
        have := hrank.out c q
        omega
      have := hwill q hq
      simp [hwants] at this

end Round

end Gran.Mesh
