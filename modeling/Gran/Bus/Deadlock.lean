import Gran.Bus.BusInvariant

/-!
# When a simple bus stands still

With no new requests every clock that changes something takes from the load, so a tick that changes
nothing found every component held up. That is so exactly when the bus holds a request for a memory
that waits for the bus itself. Two masters and one memory come to that if the masters are clocked
between the bus and the memory.
-/

namespace Gran.BusSystem

variable {E : Type} {sys : BusSystem E} {s s' : BusState E} [DecidableEq E]
  [Fintype E]

/-- With no new requests, what a component does at its clock either changes nothing or takes from
the load. -/
theorem clock_load (h : sys.Inv s) {c : BusComp E}
    (hclock : sys.clock (fun _ => none) s c = some s') :
    sys.Inv s' ∧ (s' = s ∨ Slots.load sys.routes (net s') < Slots.load sys.routes (net s)) := by
  cases c with
  | bus =>
      obtain ⟨t, ht, hinv, ⟨rfl, -⟩ | ⟨-, -, hmove⟩⟩ := busClock_spec h
      all_goals obtain rfl := Option.some.inj (ht.symm.trans hclock)
      · exact ⟨hinv, Or.inl rfl⟩
      · exact ⟨hinv, Or.inr (hmove.load_lt h.owned)⟩
  | elem e =>
      obtain ⟨t, ht, hinv, ⟨rfl, -⟩ | ⟨-, hmove⟩, -⟩ :=
        elemClock_spec (fun _ => none) h e (fun _ => rfl)
      all_goals obtain rfl := Option.some.inj (ht.symm.trans hclock)
      · exact ⟨hinv, Or.inl rfl⟩
      · exact ⟨hinv, Or.inr (hmove.load_lt h.owned)⟩

/-- If a tick without new requests changes nothing, then no clock in it does. -/
theorem clock_eq_of_tick (h : sys.Inv s) (htick : sys.tick s (fun _ => none) = some s)
    (c : BusComp E) : sys.clock (fun _ => none) s c = some s := by
  let R : BusState E → BusState E → Prop := fun a b => sys.Inv a →
    sys.Inv b ∧ (b = a ∨ Slots.load sys.routes (net b) < Slots.load sys.routes (net a))
  have htrans : ∀ a b c, R a b → R b c → R a c := by
    intro a b c hab hbc ha
    obtain ⟨hb, hab⟩ := hab ha
    obtain ⟨hc, hbc⟩ := hbc hb
    refine ⟨hc, ?_⟩
    rcases hab with rfl | hab <;> rcases hbc with rfl | hbc
    · exact Or.inl rfl
    · exact Or.inr hbc
    · exact Or.inr hab
    · exact Or.inr (hbc.trans hab)
  obtain ⟨t, t', hst, hclock, htt', hts⟩ := Fold.foldlM_mid R (fun a ha => ⟨ha, Or.inl rfl⟩) htrans
    (fun a c a' _ hc ha => clock_load ha hc) htick (sys.complete c)
  obtain ⟨ht, hst⟩ := hst h
  obtain ⟨ht', htt'⟩ := htt' ht
  obtain ⟨-, hts⟩ := hts ht'
  -- the load at the end is the one at the beginning, so it never fell
  rcases hst with rfl | hst
  · rcases htt' with rfl | htt'
    · exact hclock
    · rcases hts with rfl | hts
      · exact hclock
      · exact absurd (hts.trans htt') (lt_irrefl _)
  · rcases htt' with rfl | htt' <;> rcases hts with rfl | hts
    · exact absurd hst (lt_irrefl _)
    · exact absurd (hts.trans hst) (lt_irrefl _)
    · exact absurd (htt'.trans hst) (lt_irrefl _)
    · exact absurd (hts.trans (htt'.trans hst)) (lt_irrefl _)

/-- A state of the invariant stands still exactly when it is crossed. -/
theorem standstill_iff (h : sys.Inv s) : sys.Standstill s ↔ sys.Crossed s := by
  constructor
  · rintro ⟨⟨e, he⟩, htick⟩
    by_contra hcross
    have hstill : ∀ c, sys.clock (fun _ => none) s c = some s := clock_eq_of_tick h htick
    have hself : ¬ Slots.Move sys.routes (net s) (net s) :=
      fun hmove => absurd (hmove.load_lt h.owned) (lt_irrefl _)
    -- the bus is free, and so is every element
    have hfree : s.bus.busy = false := by
      obtain ⟨t, ht, -, hcase⟩ := busClock_spec h
      obtain rfl : t = s := Option.some.inj (ht.symm.trans (hstill .bus))
      rcases hcase with ⟨-, hfree | hc⟩ | ⟨-, -, hmove⟩
      · exact hfree
      · exact absurd hc hcross
      · exact absurd hmove hself
    have hnone : ∀ e, (s.elems e).held = none := by
      intro e
      obtain ⟨t, ht, -, hcase, -⟩ := elemClock_spec (fun _ => none) h e (fun _ => rfl)
      obtain rfl : t = s := Option.some.inj (ht.symm.trans (hstill (.elem e)))
      rcases hcase with ⟨-, hnone | hbusy⟩ | ⟨-, hmove⟩
      · exact hnone
      · rw [hfree] at hbusy
        cases hbusy
      · exact absurd hmove hself
    -- so the unanswered request is nowhere
    obtain ⟨p, pkt, hp, -⟩ := h.owned.item (e := some e) ⟨e, rfl, he⟩
    cases p with
    | inl u => simp [net, Layout.net, onBus, hfree] at hp
    | inr e' => simp [net, Layout.net, hnone e'] at hp
  · intro hcross
    obtain ⟨e, -, he⟩ := h.owned.waiting (p := .inl ()) (onBus_busy hcross.1)
    refine ⟨⟨e, he⟩, ?_⟩
    have hstill : ∀ c, sys.clock (fun _ => none) s c = some s := by
      intro c
      cases c with
      | bus =>
          obtain ⟨t, ht, -, ⟨rfl, -⟩ | ⟨hnot, -⟩⟩ := busClock_spec h
          · exact ht
          · exact absurd hcross hnot
      | elem e =>
          obtain ⟨t, ht, -, ⟨rfl, -⟩ | ⟨hfree, -⟩, -⟩ :=
            elemClock_spec (fun _ => none) h e (fun _ => rfl)
          · exact ht
          · rw [hcross.1] at hfree
            cases hfree
    obtain ⟨t, ht, rfl⟩ := Fold.foldlM_some (f := sys.clock (fun _ => none)) (· = s)
      (fun t c (_ : c ∈ sys.order) ht => ⟨s, ht ▸ hstill c, rfl⟩) rfl
    exact ht

/-- In every run, with any requests made in any tick, the system comes to stand still with a request
unanswered exactly when some clock put a request onto the bus while the memory it is for still held
a reply. -/
theorem simpleBus_standstill {news : List (E → Option Packet)}
    (hnews : ∀ new ∈ news, sys.Valid new) :
    ∃ s, sys.run news = some s ∧ (¬ sys.Standstill s ↔ sys.RunAdmitted news) := by
  obtain ⟨s, hs, hinv, hcross⟩ := run_spec hnews
  exact ⟨s, hs, by rw [standstill_iff hinv, hcross, not_not]⟩

/-! ## Two masters and one memory -/

omit [Fintype E] in
/-- Where no requester is idle, the requests made do not matter. -/
theorem tick_of_busy (hstill : ∀ c, sys.clock (fun _ => none) s c = some s)
    (hbusy : ∀ e, (s.elems e).isMem = true ∨ (s.elems e).Unanswered) (new : E → Option Packet) :
    sys.tick s new = some s := by
  have hclock : ∀ c, sys.clock new s c = some s := by
    intro c
    rw [← hstill c]
    cases c with
    | bus => rfl
    | elem e =>
        simp only [clock, elemClock]
        cases hel : s.elems e with
        | mem m => rfl
        | requester r =>
            cases r with
            | idle => simpa [hel, Element.isMem, Element.Unanswered] using hbusy e
            | refused pkt => rfl
            | waiting => rfl
  obtain ⟨t, ht, rfl⟩ := Fold.foldlM_some (f := sys.clock new) (· = s)
    (fun t c (_ : c ∈ sys.order) ht => ⟨s, ht ▸ hclock c, rfl⟩) rfl
  exact ht

/-- Masters 0 and 1 and memory 2 on one bus, each with a line of addresses. The memory is clocked
behind the masters and before the bus. -/
def twoMasters : BusSystem (Fin 3) where
  regions := [⟨0, 64, 0⟩, ⟨64, 64, 1⟩, ⟨128, 64, 2⟩]
  created e := if e = 2 then .mem (createSimpleMem 64 fun _ => 0) else .requester .idle
  order := [.elem 0, .elem 1, .elem 2, .bus]
  fresh e := by
    by_cases h : e = 2
    · simp [h, Element.Fresh, createSimpleMem]
    · simp [h, Element.Fresh]
  nodup := by decide
  complete c := by
    revert c
    decide

/-- Both masters read the first byte of the memory. -/
def bothRead (e : Fin 3) : Option Packet :=
  if e = 2 then none else some ⟨BitVec.ofNat 64 (64 * e), 128, 1, 0, fun _ => 0, PACKET_READ⟩

theorem bothRead_valid : twoMasters.Valid bothRead := by
  intro e pkt h
  have hsmall : ∀ b, twoMasters.layout.region 128 = some b →
      ∃ size, (twoMasters.layout.created b).role = some size ∧
        ∀ src, SimpleMem.Accepts size ⟨src, 128, 1, 0, fun _ => 0, PACKET_READ⟩ := by
    intro b hb
    obtain rfl : b = 2 := by
      have : twoMasters.layout.region 128 = some 2 := by decide
      exact (Option.some.inj (this.symm.trans hb)).symm
    refine ⟨64, rfl, fun src => ⟨by decide, Or.inl ?_, ?_⟩⟩
    · show (PACKET_READ &&& PACKET_READ != 0) = true
      decide
    · show ∀ i : Fin 64, (1 : Word).getLsbD i = true →
        ((128 : Word) % 64).toNat + i < (64 : Word).toNat
      decide
  have hregion : ∀ e : Fin 3, e ≠ 2 →
      twoMasters.layout.region (BitVec.ofNat 64 (64 * e)) = some e := by
    decide
  simp only [bothRead, Option.ite_none_left_eq_some, Option.some.injEq] at h
  obtain ⟨hne, rfl⟩ := h
  refine ⟨by simp [layout, twoMasters, hne, Element.role], hregion e hne, fun b hb => ?_⟩
  obtain ⟨size, hsize, haccepts⟩ := hsmall b hb
  exact ⟨size, hsize, haccepts _⟩

/-- When both masters read at once, the second request is on the bus before the reply to the first
one is, and from then on no tick changes anything. -/
theorem simpleBus_deadlocks : ∃ (news : List (Fin 3 → Option Packet)) (s : BusState (Fin 3)),
    (∀ new ∈ news, twoMasters.Valid new) ∧ twoMasters.run news = some s ∧
      (∃ e, (s.elems e).Unanswered) ∧ ∀ new, twoMasters.tick s new = some s := by
  have hvalid : ∀ new ∈ [bothRead, fun _ => none], twoMasters.Valid new := by
    intro new hnew
    simp only [List.mem_cons, List.not_mem_nil, or_false] at hnew
    rcases hnew with rfl | rfl
    · exact bothRead_valid
    · exact fun e pkt h => by cases h
  obtain ⟨s, hs, hinv, -⟩ := run_spec hvalid
  -- the request of master 1 is on the bus, the memory has the reply for master 0
  have hend : ((twoMasters.run [bothRead, fun _ => none]).all fun s =>
      s.bus.busy && s.bus.pkt.dst == 128 && (s.elems 2).held.isSome) = true := by
    decide
  have hactive : ((twoMasters.run [bothRead, fun _ => none]).all fun s =>
      decide (∀ e, (s.elems e).isMem = true ∨ (s.elems e).Unanswered)) = true := by
    decide
  rw [hs] at hend hactive
  simp only [Option.all_some, Bool.and_eq_true, beq_iff_eq, decide_eq_true_eq] at hend hactive
  obtain ⟨⟨hbusy, hdst⟩, hreply⟩ := hend
  have hcross : twoMasters.Crossed s := by
    refine ⟨hbusy, 2, ?_, rfl, fun hnone => ?_⟩
    · rw [hdst]
      decide
    · rw [hnone] at hreply
      cases hreply
  have hstill := (standstill_iff hinv).2 hcross
  exact ⟨_, s, hvalid, hs, hstill.1, tick_of_busy (clock_eq_of_tick hinv hstill.2) hactive⟩

/-- Two ticks after both masters read at once, the bus stands still exactly if a clock was not
admitted. -/
theorem simpleBus_standstill_bothRead :
    ∃ s, twoMasters.run [bothRead, fun _ => none] = some s ∧
      (¬ twoMasters.Standstill s ↔ twoMasters.RunAdmitted [bothRead, fun _ => none]) :=
  simpleBus_standstill (by
    intro new hnew
    simp only [List.mem_cons, List.not_mem_nil, or_false] at hnew
    rcases hnew with rfl | rfl
    · exact bothRead_valid
    · exact fun e pkt h => by cases h)

end Gran.BusSystem
