import Gran.Noc.Overwrite

/-!
# The latency of the ideal network

`ideal_noc_clock` works out the next count of clocks and does not store it, so the count stays what
`calloc` made it. `idealNoc_latency` says what follows: a latency of one is honoured, and with a
longer one the network never moves a packet.
-/

namespace Gran.Noc

variable {C : Type} {n : Noc C}

/-- The clock that begins in a state gets past its test of the count. -/
def Transfers (s : State n) : Prop :=
  (if n.latency = 0 then 0 else (s.counter + 1) % n.latency) = 0

instance (s : State n) : Decidable (Transfers s) := inferInstanceAs (Decidable (_ = _))

/-! ## Components that accept -/

/-- What happens to a network whose components accept what they are sent. -/
inductive Event where
  | receive (pkt : Packet)
  | clock

/-- A run in which an event happened. -/
def Run.event (r : Run n) : Event → Option (Run n)
  | .receive pkt => do
      let (ret, s') ← Noc.receive r.state pkt
      pure { r with
        state := s'
        accepted := if ret = .OK then r.accepted ++ [{ pkt with timestamp := r.state.counter }]
          else r.accepted }
  | .clock => do
      let s' ← Noc.clock (fun _ => .OK) r.state
      pure { r with state := s', clocked := r.clocked ++ [r.state] }

/-- A run in which events happened one after the other. -/
def Run.events (r : Run n) (es : List Event) : Option (Run n) := es.foldlM Run.event r

/-- What was delivered to the component at an element. -/
def deliveries (i : Fin n.elems) (s : State n) : List (Delivery C) :=
  s.delivered.filter fun d => n.dest d.pkt = some i

/-- The packet accepted in the first state is the next one that its element was sent after it. -/
def DeliveredNext (s s' : State n) (pkt : Packet) : Prop :=
  ∃ i c, n.dest pkt = some i ∧ n.lower i = some c ∧
    deliveries i s ++ [⟨c, { pkt with timestamp := s.counter }⟩] <+: deliveries i s'

/-- In every run, exactly one of as many consecutive clocks as the latency says transfers packets,
and if the components accept what they are sent, no clock aborts and a packet accepted is delivered
before that many clocks have passed. -/
structure HonoursLatency (n : Noc C) : Prop where
  passes : ∀ r : Run n, r.Reachable → ∀ before window after,
    r.clocked = before ++ window ++ after → window.length = n.latency.toNat →
      window.countP (fun s => Transfers s) = 1
  clocks : ∀ es (r : Run n), (Run.init n).events es = some r → (r.event .clock).isSome = true
  delivers : ∀ es (r : Run n), (Run.init n).events es = some r → ∀ pkt s,
    Noc.receive r.state pkt = some (.OK, s) → ∀ es' r', (r.event (.receive pkt)).bind
      (Run.events · es') = some r' → n.latency.toNat ≤ es'.countP (· matches .clock) →
        DeliveredNext r.state r'.state pkt

/-! ## The count that is not stored -/

variable {s s' : State n} {r r' : Run n}

/-- A clock that does not transfer packets does nothing. -/
theorem clock_still {answer : Fin n.elems → Stat} (h : ¬ Transfers s) :
    Noc.clock answer s = some s := if_pos h

theorem clock_transfers {answer : Fin n.elems → Stat} (h : Transfers s) :
    Noc.clock answer s = (List.finRange n.elems).foldlM forward s >>= fun s =>
      (List.finRange n.elems).foldlM (deliver answer) s := if_neg (not_not.2 h)

theorem forward_counter {i : Fin n.elems} (h : forward s i = some s') :
    s'.counter = s.counter := by
  unfold forward at h
  split at h
  · obtain ⟨elem, -, h⟩ := Option.bind_eq_some_iff.1 h
    split at h <;> cases h <;> rfl
  · cases h
    rfl

theorem deliver_counter {answer : Fin n.elems → Stat} {i : Fin n.elems}
    (h : deliver answer s i = some s') : s'.counter = s.counter := by
  unfold deliver at h
  split at h
  · obtain ⟨elem, -, h⟩ := Option.bind_eq_some_iff.1 h
    obtain ⟨lower, -, h⟩ := Option.bind_eq_some_iff.1 h
    split at h
    · cases h
      rfl
    · obtain ⟨-, -, h⟩ := Option.bind_eq_some_iff.1 h
      cases h
      rfl
  · cases h
    rfl

theorem clock_counter {answer : Fin n.elems → Stat} (h : Noc.clock answer s = some s') :
    s'.counter = s.counter := by
  by_cases hpass : Transfers s
  · rw [clock_transfers hpass] at h
    obtain ⟨t, hforward, hdeliver⟩ := Option.bind_eq_some_iff.1 h
    have ht : t.counter = s.counter :=
      Fold.foldlM_keep (·.counter = s.counter) (fun _ _ _ _ hu h => (forward_counter h).trans hu)
        rfl hforward
    exact Fold.foldlM_keep (·.counter = s.counter)
      (fun _ _ _ _ hu h => (deliver_counter h).trans hu) ht hdeliver
  · rw [clock_still hpass] at h
    cases h
    rfl

/-- No clock of a run begins with another count than the first one. -/
theorem Run.Reachable.counter (h : r.Reachable) :
    r.state.counter = 0 ∧ ∀ s ∈ r.clocked, s.counter = 0 := by
  induction h with
  | refl => exact ⟨rfl, by simp [Run.init]⟩
  | tail _ hstep ih =>
      obtain ⟨hstate, hclocked⟩ := ih
      cases hstep with
      | receive pkt ret s' h =>
          refine ⟨?_, hclocked⟩
          obtain ⟨elem, -, h⟩ := Option.bind_eq_some_iff.1 h
          split at h <;> cases h <;> exact hstate
      | clock answer hanswer s' h =>
          refine ⟨(clock_counter h).trans hstate, fun s hs => ?_⟩
          rcases List.mem_append.1 hs with hs | hs
          · exact hclocked s hs
          · rw [List.mem_singleton.1 hs]
            exact hstate

/-- The count a clock works out from zero is one, modulo the latency. -/
theorem transfers_iff (hlat : 1 ≤ n.latency) (hcounter : s.counter = 0) :
    Transfers s ↔ n.latency = 1 := by
  have hpos : n.latency ≠ 0 := by
    rintro h
    rw [h] at hlat
    exact absurd hlat (by decide)
  have hnext : s.counter + 1 = 1 := by
    rw [hcounter]
    rfl
  unfold Transfers
  rw [if_neg hpos, hnext]
  constructor
  · intro h
    by_contra hne
    have hlt : (1 : Word) < n.latency := by bv_omega
    rw [BitVec.umod_eq_of_lt hlt] at h
    exact absurd h (by decide)
  · intro h
    rw [h]
    rfl

/-- With a longer latency than one no clock transfers packets, and nothing is delivered. -/
theorem Run.Reachable.still (hlat : 1 ≤ n.latency) (hne : n.latency ≠ 1) (h : r.Reachable) :
    (∀ s ∈ r.clocked, ¬ Transfers s) ∧ r.state.delivered = [] := by
  refine ⟨fun s hs => ?_, ?_⟩
  · rw [transfers_iff hlat (h.counter.2 s hs)]
    exact hne
  · induction h with
    | refl => rfl
    | tail hrun hstep ih =>
        cases hstep with
        | receive pkt ret s' h =>
            obtain ⟨elem, -, h⟩ := Option.bind_eq_some_iff.1 h
            split at h <;> cases h <;> exact ih
        | clock answer hanswer s' h =>
            have hstill := (transfers_iff hlat (Run.Reachable.counter hrun).1).not.2 hne
            rw [clock_still hstill] at h
            cases h
            exact ih

/-! ## A latency of one -/

/-- What every run with components that accept keeps: nothing waits in an output register. -/
structure Prompt (s : State n) : Prop where
  placed : Placed s
  out : ∀ i, (view i s).out = none

section One

variable (hlat : n.latency = 1) (hconn : ∀ i, (n.lower i).isSome = true)
include hlat hconn

/-- A clock delivers what waits in the input registers. -/
theorem Prompt.clock (hs : Prompt s) : ∃ s', Noc.clock (fun _ => .OK) s = some s' ∧ Prompt s' ∧
    ∀ i, (view i s').delivered = (view i s).delivered ++ (view i s).inn.toList := by
  obtain ⟨s', hclock, hplaced, hview⟩ :=
    clock_spec (Or.inr hlat) (fun _ => Or.inl rfl) hconn hs.placed
  have hserved : ∀ i, (view i s').out = none ∧
      (view i s').delivered = (view i s).delivered ++ (view i s).inn.toList := by
    intro i
    rw [hview i]
    have hout := hs.out i
    generalize view i s = v at hout ⊢
    obtain ⟨inn, out, delivered⟩ := v
    obtain rfl : out = none := hout
    cases inn with
    | none => exact ⟨rfl, (List.append_nil _).symm⟩
    | some pkt => exact ⟨rfl, rfl⟩
  exact ⟨s', hclock, ⟨hplaced, fun i => (hserved i).1⟩, fun i => (hserved i).2⟩

/-- An event keeps a run prompt and takes back nothing that an element was sent, and a clock sends
what waits for it. -/
theorem Prompt.event {e : Event} (hr : Prompt r.state) (h : r.event e = some r') :
    Prompt r'.state ∧ ∀ i, (view i r.state).delivered <+: (view i r'.state).delivered ∧
      (view i r.state).delivered ++ (view i r.state).inn.toList <+:
        (view i r'.state).delivered ++
          if e matches .clock then [] else (view i r'.state).inn.toList := by
  cases e with
  | clock =>
      obtain ⟨t, ht, h⟩ := Option.bind_eq_some_iff.1 h
      obtain ⟨u, hu, hprompt, hdelivered⟩ := hr.clock hlat hconn
      obtain rfl := Option.some.inj (ht.symm.trans hu)
      cases h
      refine ⟨hprompt, fun i => ?_⟩
      simp [hdelivered i]
  | receive pkt =>
      obtain ⟨⟨ret, t⟩, ht, h⟩ := Option.bind_eq_some_iff.1 h
      cases h
      rcases receive_spec hr.placed ht with ⟨-, rfl⟩ | ⟨-, hplaced, j, -, hfree, hview⟩
      · exact ⟨hr, fun i => ⟨List.prefix_refl _, List.prefix_refl _⟩⟩
      · have hslot : ∀ i, (view i t).out = none ∧
            (view i r.state).delivered = (view i t).delivered ∧
            (view i r.state).inn.toList <+: (view i t).inn.toList := by
          intro i
          rw [hview i]
          by_cases hij : j = i
          · subst hij
            rw [if_pos rfl]
            refine ⟨hr.out j, rfl, ?_⟩
            simp [view, hfree]
          · rw [if_neg hij]
            exact ⟨hr.out i, rfl, List.prefix_refl _⟩
        refine ⟨⟨hplaced, fun i => (hslot i).1⟩, fun i => ?_⟩
        obtain ⟨-, hdelivered, hinn⟩ := hslot i
        rw [hdelivered]
        exact ⟨List.prefix_refl _, (List.prefix_append_right_inj _).2 hinn⟩

theorem Prompt.events {es : List Event} (hr : Prompt r.state) (h : r.events es = some r') :
    Prompt r'.state ∧ ∀ i, (view i r.state).delivered <+: (view i r'.state).delivered := by
  refine Fold.foldlM_keep (fun u : Run n => Prompt u.state ∧
    ∀ i, (view i r.state).delivered <+: (view i u.state).delivered) (fun u e v _ hu hv => ?_)
    ⟨hr, fun i => List.prefix_refl _⟩ h
  obtain ⟨hprompt, hkept⟩ := hu.1.event hlat hconn hv
  exact ⟨hprompt, fun i => (hu.2 i).trans (hkept i).1⟩

/-- What waits for an element is sent by the first clock. -/
theorem Prompt.delivers {es : List Event} (hr : Prompt r.state) (h : r.events es = some r')
    (hclock : .clock ∈ es) (i : Fin n.elems) :
    (view i r.state).delivered ++ (view i r.state).inn.toList <+:
      (view i r'.state).delivered := by
  induction es generalizing r with
  | nil => cases hclock
  | cons e es ih =>
      obtain ⟨u, hu, hes⟩ := Option.bind_eq_some_iff.1 h
      obtain ⟨hprompt, hkept⟩ := hr.event hlat hconn hu
      obtain ⟨-, hnow⟩ := hkept i
      cases e with
      | clock =>
          obtain ⟨-, hlater⟩ := hprompt.events hlat hconn hes
          exact (by simpa using hnow : _ <+: _).trans (hlater i)
      | receive pkt =>
          have hrest : Event.clock ∈ es := by simpa using hclock
          exact hnow.trans (ih hprompt hes hrest)

end One

/-- The deliveries to an element are the packets it was sent. -/
theorem deliveries_eq (hs : Placed s) {i : Fin n.elems} {c : C} (hc : n.lower i = some c) :
    deliveries i s = (view i s).delivered.map fun pkt => ⟨c, pkt⟩ := by
  simp only [deliveries, view, forElem, List.filter_map, List.map_map]
  rw [← List.map_id (s.delivered.filter _)]
  refine List.map_congr_left fun d hd => ?_
  obtain ⟨hmem, hdest⟩ := List.mem_filter.1 hd
  obtain ⟨j, hj, hcomp⟩ := hs.delivered d hmem
  obtain rfl : i = j := by simpa [hj, eq_comm] using hdest
  rw [hc] at hcomp
  cases hcomp
  rfl

/-! ## When the latency is honoured -/

theorem prompt_init : Prompt (State.init n) where
  placed := ⟨rfl, by simp [State.init], by simp [State.init], by simp [State.init]⟩
  out _ := rfl

/-- Clocks of a network that was just created. -/
theorem exists_clocks (hlat : 1 ≤ n.latency) (hne : n.latency ≠ 1) (k : Nat) :
    ∃ r : Run n, r.Reachable ∧ r.state = .init n ∧ r.clocked.length = k := by
  induction k with
  | zero => exact ⟨Run.init n, .refl, rfl, rfl⟩
  | succ k ih =>
      obtain ⟨r, hr, hstate, hlen⟩ := ih
      have hstill := (transfers_iff hlat hr.counter.1).not.2 hne
      refine ⟨_, hr.tail (.clock (fun _ => .OK) (fun _ => Or.inl rfl) _ (clock_still hstill)),
        hstate, ?_⟩
      rw [List.length_append, hlen, List.length_singleton]

/-- A latency of one is honoured. -/
theorem honoursLatency_of_one (hlat : n.latency = 1) (hconn : ∀ i, (n.lower i).isSome = true) :
    HonoursLatency n := by
  have hle : 1 ≤ n.latency := BitVec.le_of_eq hlat.symm
  have hlen : n.latency.toNat = 1 := by rw [hlat]; rfl
  refine ⟨fun r hr before window after hclocked hwindow => ?_, fun es r hr => ?_,
    fun es r hr pkt s hs es' r' hr' hcount => ?_⟩
  · obtain ⟨s, rfl⟩ := List.length_eq_one_iff.1 (hwindow.trans hlen)
    have hpass : Transfers s :=
      (transfers_iff hle (hr.counter.2 s (by rw [hclocked]; simp))).2 hlat
    simp [hpass]
  · obtain ⟨hprompt, -⟩ := prompt_init.events hlat hconn hr
    obtain ⟨s', hs', -⟩ := hprompt.clock hlat hconn
    simp [Run.event, hs']
  · obtain ⟨hprompt, -⟩ := prompt_init.events hlat hconn hr
    have hevent : r.event (.receive pkt) = some { r with
        state := s
        accepted := r.accepted ++ [{ pkt with timestamp := r.state.counter }] } := by
      simp [Run.event, hs]
    rw [hevent, Option.bind_some] at hr'
    obtain ⟨hprompt', -⟩ := hprompt.event hlat hconn hevent
    obtain ⟨hret, -⟩ | ⟨-, -, i, hdest, -, hview⟩ := receive_spec hprompt.placed hs
    · exact absurd rfl hret
    obtain ⟨c, hc⟩ := Option.isSome_iff_exists.1 (hconn i)
    have hclock : .clock ∈ es' := by
      rw [hlen, Nat.succ_le_iff, List.countP_pos_iff] at hcount
      obtain ⟨e, he, hmatch⟩ := hcount
      cases e with
      | receive pkt => cases hmatch
      | clock => exact he
    have hsent := hprompt'.delivers hlat hconn hr' hclock i
    refine ⟨i, c, hdest, hc, ?_⟩
    obtain ⟨hlast, -⟩ := hprompt'.events hlat hconn hr'
    rw [deliveries_eq hprompt.placed hc, deliveries_eq hlast.placed hc]
    have hslot := hview i
    rw [if_pos rfl] at hslot
    rw [hslot] at hsent
    simpa using hsent.map fun pkt => (⟨c, pkt⟩ : Delivery C)

/-- The latency of the ideal network: of the latencies from one on, one clock is the only one that
is honoured. With any other no clock of any run transfers packets, and nothing is delivered. -/
theorem idealNoc_latency (hlat : 1 ≤ n.latency) (hconn : ∀ i, (n.lower i).isSome = true) :
    (HonoursLatency n ↔ n.latency = 1) ∧ (n.latency ≠ 1 → ∀ r : Run n, r.Reachable →
      (∀ s ∈ r.clocked, ¬ Transfers s) ∧ r.state.delivered = []) := by
  refine ⟨⟨fun h => ?_, fun h => honoursLatency_of_one h hconn⟩,
    fun hne r hr => hr.still hlat hne⟩
  by_contra hne
  obtain ⟨r, hr, -, hlen⟩ := exists_clocks hlat hne n.latency.toNat
  have hone := h.passes r hr [] r.clocked [] (by simp) hlen
  obtain ⟨s, hs, hpass⟩ : ∃ s ∈ r.clocked, decide (Transfers s) = true :=
    List.countP_pos_iff.1 (by rw [hone]; exact Nat.one_pos)
  exact (hr.still hlat hne).1 s hs (of_decide_eq_true hpass)

/-- A network of one element with a latency. -/
def delayed (latency : Word) : Noc Unit :=
  { (createIdealNoc 1 latency : Noc Unit) with lower := fun _ => some () }

/-- `idealNoc_latency` at a latency of one, and a packet that is delivered by the next clock. -/
theorem idealNoc_latency_one : HonoursLatency (delayed 1) ∧
    ((Run.init (delayed 1)).events [.receive .zero, .clock]).map (fun r =>
      r.state.delivered.map Delivery.pkt) = some [.zero] :=
  ⟨(idealNoc_latency (by decide) fun _ => rfl).1.2 rfl, rfl⟩

/-- With a latency of two, two clocks pass without a transfer, and the packet accepted before them
is not delivered. -/
theorem idealNoc_never_transfers : ¬ HonoursLatency (delayed 2) := by
  intro h
  obtain ⟨i, c, -, -, l, hl⟩ := h.delivers [] (Run.init (delayed 2)) rfl .zero _ rfl
    [.clock, .clock] _ rfl (by decide)
  exact absurd (congrArg List.length hl) (by simp [deliveries])

end Gran.Noc
