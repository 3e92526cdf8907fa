import Gran.Bfly.FatBflyDelivery
import Gran.Foundations.Fold

/-!
# The age of packets in the fat butterfly

`node_clock` compares timestamps to move the older of two packets, but `create_packet` sets every
timestamp to zero and `fat_bfly_receive` leaves it so, and on a tie the right packet moves. A run is
accompanied by the count of clocks at which each packet was accepted (`Timed`). One iteration of a
loop shifts at most one packet (`Shift`), which takes its time along. `fatBfly_oldest_first` says
that a contest for an output is won by the older packet exactly if the left one is not the older.
-/

namespace Gran.FatBfly

variable {C : Type}

/-! ## Runs with the times of acceptance -/

/-- A call of `node_clock` in which the packets in both input registers below a free output register
want to go there: when each of them was accepted, and whether the left one is moved. -/
structure Contest where
  left : Nat
  right : Nat
  movedLeft : Bool
deriving DecidableEq

/-- A butterfly with the count of its clocks, the packets accepted so far with the count at which
each of them was, that count for the packet in each register, and the contests so far. -/
structure Timed (C : Type) where
  state : State C
  clocks : Nat
  accepted : List (Nat × Packet)
  since : Place → Nat
  contests : List Contest

/-- A butterfly that was just created. -/
def Timed.init : Timed C := ⟨.init, 0, [], fun _ => 0, []⟩

/-- The body of a loop, which may move a packet out of one of the `sources` into a register that was
free. The packet takes along the time of its acceptance. -/
def carry (sources : List Place) (f : State C → Option (State C)) (t : Timed C) :
    Option (Timed C) := do
  let s' ← f t.state
  let since := match sources.find? fun p => (t.state.reg p).busy && !(s'.reg p).busy with
    | none => t.since
    | some p => fun q =>
        if !(t.state.reg q).busy && (s'.reg q).busy then t.since p else t.since q
  pure { t with state := s', since }

/-- The contest for output `k`, if there is one, in the iteration that goes on to `s'`. -/
def contest (count height i j k : Nat) (t : Timed C) (s' : State C) : Option Contest :=
  let left := Place.left i j (k &&& (count / 2 - 1))
  let right := Place.right i j (k &&& (count / 2 - 1))
  if !(t.state.reg (.out i j k)).busy && accepts count height k (t.state.reg left) &&
      accepts count height k (t.state.reg right)
  then some ⟨t.since left, t.since right, !(s'.reg left).busy⟩
  else none

variable (b : FatBfly C)

/-- The second loop of `node_clock`. -/
def timedPopulate (count height i j : Nat) (t : Timed C) (k : Nat) : Option (Timed C) := do
  let idx := k &&& (count / 2 - 1)
  let t' ← carry [.left i j idx, .right i j idx] (b.populate count height i j · k) t
  pure { t' with contests := (contest count height i j k t t'.state).toList ++ t'.contests }

/-- `node_clock`. -/
def timedNodeClock (t : Timed C) (i j count height : Nat) : Option (Timed C) := do
  let t ← (if i = 0 then pure t else (List.range count).foldlM
    (fun t k => carry [.out i j k] (b.pushUp height i j · k) t) t)
  (List.range count).foldlM (b.timedPopulate count height i j) t

/-- `layer_clock`. -/
def timedLayerClock (t : Timed C) (i count height : Nat) : Option (Timed C) :=
  (List.range count).foldlM (fun t j => b.timedNodeClock t i j (2 <<< height) height) t

/-- `fat_bfly_clock`. -/
def timedClock (answer : Nat → Stat) (t : Timed C) : Option (Timed C) := do
  let t ← (List.range b.elems.toNat).foldlM (fun t i => carry [] (b.sendOut answer · i) t) t
  let t ← (List.range b.layers).foldlM
    (fun t i => b.timedLayerClock t i (1 <<< i) (b.height i)) t
  let t ← (List.range b.elems.toNat).foldlM (fun t i => carry [.inp i] (b.pushIn · i) t) t
  pure { t with clocks := t.clocks + 1 }

/-- What a drive does. -/
def drive [DecidableEq C] (s : State C) : Drive C → Option (State C)
  | .clock answer => b.fatBflyClock answer s
  | .receive sender pkt => (b.fatBflyReceive s sender pkt).map Prod.snd

/-- A drive with the times of acceptance. -/
def timedDrive [DecidableEq C] (t : Timed C) : Drive C → Option (Timed C)
  | .clock answer => b.timedClock answer t
  | .receive sender pkt => do
      let (ret, s') ← b.fatBflyReceive t.state sender pkt
      if ret = .EBUSY then pure { t with state := s' } else pure { t with
        state := s'
        accepted := (t.clocks, pkt) :: t.accepted
        since := Function.update t.since (.inp (elemOf pkt.src)) t.clocks }

/-- The packet that is presented was made by `create_packet` and is for an element. -/
def Drive.Valid : Drive C → Prop
  | .clock _ => True
  | .receive _ pkt => elemOf pkt.dst < b.elems.toNat ∧
      ∃ src dst size bytes flags, createPacket src dst size bytes flags = some pkt

/-- The time recorded for the packet in each register is one at which that packet was accepted. -/
def Timed.Dated (t : Timed C) : Prop :=
  ∀ p, (t.state.reg p).busy = true → (t.since p, (t.state.reg p).pkt) ∈ t.accepted

/-- The packet that is moved was accepted in no later clock than the other one. -/
def Contest.OldestMoves (x : Contest) : Prop :=
  if x.movedLeft then x.left ≤ x.right else x.right ≤ x.left

/-! ## A timed run follows the butterfly -/

/-- The timed body of a loop does what the body does. -/
theorem carry_state (sources : List Place) (g : State C → Option (State C)) (t : Timed C) :
    (carry sources g t).map Timed.state = g t.state := by
  cases hg : g t.state <;> simp [carry, hg]

/-- Two timed steps, one after the other, do to the state what the steps do. -/
theorem bind_state {x : Option (Timed C)} {y : Option (State C)} {f : Timed C → Option (Timed C)}
    {g : State C → Option (State C)} (hx : x.map Timed.state = y)
    (hf : ∀ t, (f t).map Timed.state = g t.state) : (x.bind f).map Timed.state = y.bind g := by
  subst hx
  cases x with
  | none => rfl
  | some t => exact hf t

/-- A timed loop does to the state what the loop does. -/
theorem foldlM_state {A : Type} {f : Timed C → A → Option (Timed C)}
    {g : State C → A → Option (State C)} (hf : ∀ t a, (f t a).map Timed.state = g t.state a)
    (l : List A) (t : Timed C) : (l.foldlM f t).map Timed.state = l.foldlM g t.state := by
  rw [← Fold.foldlM_commute (fun _ => True) Timed.state id
    (fun t a _ _ => ⟨(hf t a).symm, fun _ _ => trivial⟩) trivial, List.map_id]

/-- The timed filling of outputs does what the filling does. -/
theorem timedPopulate_state (count height i j : Nat) (t : Timed C) (k : Nat) :
    (b.timedPopulate count height i j t k).map Timed.state =
      b.populate count height i j t.state k := by
  have hcarry := carry_state [.left i j (k &&& (count / 2 - 1)), .right i j (k &&& (count / 2 - 1))]
    (b.populate count height i j · k) t
  simp only [timedPopulate, ← hcarry]
  cases carry _ _ t <;> rfl

/-- The timed clock of a node does what the clock does. -/
theorem timedNodeClock_state (t : Timed C) (i j count height : Nat) :
    (b.timedNodeClock t i j count height).map Timed.state =
      b.nodeClock t.state i j count height := by
  refine bind_state ?_ fun t => foldlM_state (b.timedPopulate_state count height i j) _ t
  split_ifs
  · rfl
  · exact foldlM_state (fun t k => carry_state _ (b.pushUp height i j · k) t) _ t

/-- The timed clock of a layer does what the clock does. -/
theorem timedLayerClock_state (t : Timed C) (i count height : Nat) :
    (b.timedLayerClock t i count height).map Timed.state = b.layerClock t.state i count height :=
  foldlM_state (fun t j => b.timedNodeClock_state t i j (2 <<< height) height) _ t

/-- The timed clock does what `fat_bfly_clock` does. -/
theorem timedClock_state (answer : Nat → Stat) (t : Timed C) :
    (b.timedClock answer t).map Timed.state = b.fatBflyClock answer t.state := by
  unfold timedClock fatBflyClock
  refine bind_state (foldlM_state (fun t i => carry_state _ (b.sendOut answer · i) t) _ t)
    fun t => bind_state (foldlM_state (fun t i => b.timedLayerClock_state t i _ _) _ t) fun t => ?_
  have hlast := foldlM_state (fun t i => carry_state [.inp i] (b.pushIn · i) t)
    (List.range b.elems.toNat) t
  rw [← hlast]
  cases (List.range b.elems.toNat).foldlM (fun t i => carry [.inp i] (b.pushIn · i) t) t <;> rfl

/-- A timed drive does what the drive does. -/
theorem timedDrive_state [DecidableEq C] (t : Timed C) (d : Drive C) :
    (b.timedDrive t d).map Timed.state = b.drive t.state d := by
  cases d with
  | receive sender pkt =>
      simp only [timedDrive, drive]
      cases b.fatBflyReceive t.state sender pkt with
      | none => rfl
      | some y =>
          simp only [Option.bind_eq_bind, Option.bind_some]
          split_ifs <;> rfl
  | clock answer => exact b.timedClock_state answer t

/-! ## One iteration shifts one packet at most -/

/-- What one iteration of a loop does to the registers. -/
inductive Shift (sources : List Place) (s s' : State C) : Prop where
  | stays (hreg : s'.reg = s.reg)
  | moves (p q : Place) (hp : p ∈ sources) (hmoved : Moved s s' p q)
  | leaves (p : Place) (hp : p ∉ sources)
      (hreg : s'.reg = Function.update s.reg p { s.reg p with busy := false })

variable {b} {s s' : State C} {count height i j k : Nat} {sources : List Place}

/-- A push takes a packet from one place. -/
theorem Pushed.shift {p q : Place} (h : Pushed s s' p q) : Shift [p] s s' := by
  cases h with
  | waits _ heq => exact .stays (congrArg State.reg heq)
  | moves hmoved => exact .moves p q (List.mem_singleton_self p) hmoved

/-- Handing packets over brings none to another place. -/
theorem sendOut_shift {answer : Nat → Stat} {e : Nat} (h : b.sendOut answer s e = some s') :
    Shift [] s s' := by
  rcases sendOut_cases h with ⟨rfl, -⟩ | ⟨-, -, comp, -, rfl⟩
  · exact .stays rfl
  · exact .leaves _ List.not_mem_nil rfl

/-- An output takes its packet from one of its two bank registers. -/
theorem populate_shift (h : b.populate count height i j s k = some s') :
    Shift [.left i j (k &&& (count / 2 - 1)), .right i j (k &&& (count / 2 - 1))] s s' := by
  rcases populate_cases h with ⟨rfl, -⟩ | ⟨left, hmoved, -⟩
  · exact .stays rfl
  · exact .moves _ _ (by cases left <;> simp [bank]) hmoved

/-- The registers after a move. -/
theorem Moved.reg_eq {p q : Place} (h : Moved s s' p q) :
    s'.reg = Function.update (Function.update s.reg q ⟨(s.reg p).pkt, true⟩) p
      { s.reg p with busy := false } := by
  rw [h.eq]
  rfl

/-! ## What the times say -/

variable {f : State C → Option (State C)} {t t' : Timed C}

/-- A register that is full afterwards held its packet before, or it was free and holds the packet
of the register that was freed. -/
theorem Shift.full (h : Shift sources s s') {r : Place} (hr : (s'.reg r).busy = true) :
    ((s.reg r).busy = true ∧ (s'.reg r).pkt = (s.reg r).pkt) ∨
      ∃ p ∈ sources, (s.reg p).busy = true ∧ (s'.reg p).busy = false ∧ (s.reg r).busy = false ∧
        (s'.reg r).pkt = (s.reg p).pkt := by
  cases h with
  | stays hreg =>
      rw [hreg] at hr ⊢
      exact Or.inl ⟨hr, rfl⟩
  | leaves p hp hreg =>
      rw [hreg] at hr ⊢
      by_cases hrp : r = p
      · subst hrp
        simp at hr
      · rw [Function.update_of_ne hrp] at hr ⊢
        exact Or.inl ⟨hr, rfl⟩
  | moves p q hp hmoved =>
      rw [hmoved.reg_eq] at hr ⊢
      by_cases hrp : r = p
      · subst hrp
        simp at hr
      · rw [Function.update_of_ne hrp] at hr ⊢
        by_cases hrq : r = q
        · subst hrq
          exact Or.inr ⟨p, hp, hmoved.busy, by simp, hmoved.free, by simp⟩
        · rw [Function.update_of_ne hrq] at hr ⊢
          exact Or.inl ⟨hr, rfl⟩

/-- At most one register of the sources is freed. -/
theorem Shift.freed (h : Shift sources s s') {p r : Place} (hp : p ∈ sources)
    (hpbusy : (s.reg p).busy = true) (hpfree : (s'.reg p).busy = false)
    (hrbusy : (s.reg r).busy = true) (hrfree : (s'.reg r).busy = false) : p = r := by
  have hstill : ∀ q, (s.reg q).busy = true → (s'.reg q).busy = false → s'.reg q ≠ s.reg q := by
    intro q hbusy hfree heq
    rw [heq, hbusy] at hfree
    cases hfree
  cases h with
  | stays hreg => exact absurd (congrFun hreg p) (hstill p hpbusy hpfree)
  | leaves q hq hreg =>
      have hne : p ≠ q := fun he => hq (he ▸ hp)
      exact absurd (by rw [hreg, Function.update_of_ne hne]) (hstill p hpbusy hpfree)
  | moves q q' hq hmoved =>
      have honly : ∀ x, (s.reg x).busy = true → (s'.reg x).busy = false → x = q := by
        intro x hx hx'
        by_contra hne
        have hne' : x ≠ q' := by
          rintro rfl
          rw [hmoved.free] at hx
          cases hx
        refine hstill x hx hx' ?_
        rw [hmoved.reg_eq, Function.update_of_ne hne, Function.update_of_ne hne']
      rw [honly p hpbusy hpfree, honly r hrbusy hrfree]

/-- What a timed step does, in terms of the step. -/
theorem carry_eq_some (h : carry sources f t = some t') :
    ∃ s', f t.state = some s' ∧ t' = { t with
      state := s'
      since := match sources.find? fun p => (t.state.reg p).busy && !(s'.reg p).busy with
        | none => t.since
        | some p => fun q =>
            if !(t.state.reg q).busy && (s'.reg q).busy then t.since p else t.since q } := by
  simp only [carry, Option.bind_eq_bind, Option.bind_eq_some_iff] at h
  obtain ⟨s', hs', h⟩ := h
  exact ⟨s', hs', (Option.some.inj h).symm⟩

/-- A packet takes the time of its acceptance along. -/
theorem Timed.Dated.carry (ht : t.Dated)
    (hf : ∀ s', f t.state = some s' → Shift sources t.state s')
    (h : carry sources f t = some t') : t'.Dated := by
  obtain ⟨s', hs', rfl⟩ := carry_eq_some h
  have hshift := hf s' hs'
  intro r hr
  replace hr : (s'.reg r).busy = true := hr
  have hfull := hshift.full hr
  cases hfind : sources.find? fun p => (t.state.reg p).busy && !(s'.reg p).busy with
  | none =>
      rcases hfull with ⟨hbusy, hpkt⟩ | ⟨p, hp, hbusy, hfree, -, -⟩
      · simpa only [hpkt] using ht r hbusy
      · have := List.find?_eq_none.1 hfind p hp
        simp [hbusy, hfree] at this
  | some p =>
      have hmem := List.mem_of_find?_eq_some hfind
      have hfreed := List.find?_some hfind
      simp only [Bool.and_eq_true, Bool.not_eq_true'] at hfreed
      rcases hfull with ⟨hbusy, hpkt⟩ | ⟨q, hq, hbusy, hfree, hempty, hpkt⟩
      · simpa [hpkt, hbusy] using ht r hbusy
      · obtain rfl := hshift.freed hmem hfreed.1 hfreed.2 hbusy hfree
        simpa [hpkt, hempty, hr] using ht p hbusy

/-- No packet is moved to another timestamp. -/
theorem Shift.stamps (h : Shift sources s s') (hs : ∀ p, (s.reg p).pkt.timestamp = 0) (r : Place) :
    (s'.reg r).pkt.timestamp = 0 := by
  cases h with
  | stays hreg => rw [hreg]; exact hs r
  | leaves p _ hreg =>
      rw [hreg]
      by_cases hrp : r = p
      · subst hrp
        simpa using hs r
      · simpa [hrp] using hs r
  | moves p q _ hmoved =>
      rw [hmoved.reg_eq]
      by_cases hrp : r = p
      · subst hrp
        simpa using hs r
      · by_cases hrq : r = q
        · subst hrq
          simpa [hrp] using hs p
        · simpa [hrp, hrq] using hs r

/-- Nothing held is stamped, so the right packet is moved whenever both want to. -/
structure Tied (t : Timed C) : Prop where
  stamps : ∀ p, (t.state.reg p).pkt.timestamp = 0
  dated : t.Dated
  right : ∀ x ∈ t.contests, x.movedLeft = false

/-- Nothing is stamped in a new butterfly. -/
theorem tied_init : Tied (Timed.init : Timed C) where
  stamps _ := rfl
  dated p h := by cases h
  right x h := by cases h

/-- The timed body of a loop stamps no packet. -/
theorem Tied.carry (ht : Tied t) (hf : ∀ s', f t.state = some s' → Shift sources t.state s')
    (h : carry sources f t = some t') : Tied t' := by
  have hdated := ht.dated.carry hf h
  obtain ⟨s', hs', rfl⟩ := carry_eq_some h
  exact ⟨(hf s' hs').stamps ht.stamps, hdated, ht.right⟩

/-- On a tie the left packet stays. -/
theorem populate_tie (hs : ∀ p, (s.reg p).pkt.timestamp = 0)
    (h : b.populate count height i j s k = some s') (hfree : (s.reg (.out i j k)).busy = false)
    (hleft : accepts count height k (s.reg (.left i j (k &&& (count / 2 - 1)))) = true)
    (hright : accepts count height k (s.reg (.right i j (k &&& (count / 2 - 1)))) = true) :
    (s'.reg (.left i j (k &&& (count / 2 - 1)))).busy = true := by
  have hbusy := busy_of_accepts hleft
  rcases populate_cases h with ⟨rfl, -⟩ | ⟨left, hmoved, -, hcmp⟩
  · exact hbusy
  · have hother :
        accepts count height k (s.reg (bank (!left) i j (k &&& (count / 2 - 1)))) = true := by
      cases left with
      | true => exact hright
      | false => exact hleft
    obtain rfl : left = false := by
      rw [hcmp hother, hs, hs]
      rfl
    rw [hmoved.reg_eq]
    simpa [bank] using hbusy

/-- What a contest says about the two bank registers of the output. -/
theorem contest_eq_some {x : Contest} (h : contest count height i j k t s' = some x) :
    (t.state.reg (.out i j k)).busy = false ∧
      accepts count height k (t.state.reg (.left i j (k &&& (count / 2 - 1)))) = true ∧
      accepts count height k (t.state.reg (.right i j (k &&& (count / 2 - 1)))) = true ∧
      x = ⟨t.since (.left i j (k &&& (count / 2 - 1))),
        t.since (.right i j (k &&& (count / 2 - 1))),
        !(s'.reg (.left i j (k &&& (count / 2 - 1)))).busy⟩ := by
  simp only [contest, Option.ite_none_right_eq_some, Bool.and_eq_true, Bool.not_eq_true',
    Option.some.injEq] at h
  exact ⟨h.1.1.1, h.1.1.2, h.1.2, h.2.symm⟩

/-- Filling an output stamps no packet, and the right one goes first. -/
theorem Tied.populate (ht : Tied t) (h : b.timedPopulate count height i j t k = some t') :
    Tied t' := by
  simp only [timedPopulate, Option.bind_eq_bind, Option.bind_eq_some_iff] at h
  obtain ⟨u, hu, h⟩ := h
  cases h
  have hu' := ht.carry (fun s' hs' => populate_shift hs') hu
  refine ⟨hu'.stamps, hu'.dated, fun x hx => ?_⟩
  rcases List.mem_append.1 hx with hx | hx
  · obtain ⟨s', hs', rfl⟩ := carry_eq_some hu
    obtain ⟨hfree, hleft, hright, rfl⟩ := contest_eq_some (Option.mem_toList.1 hx)
    simp [populate_tie ht.stamps hs' hfree hleft hright]
  · exact hu'.right x hx

/-- The clock of a node stamps no packet. -/
theorem Tied.nodeClock (ht : Tied t) (h : b.timedNodeClock t i j count height = some t') :
    Tied t' := by
  simp only [timedNodeClock, Option.bind_eq_bind, Option.bind_eq_some_iff] at h
  obtain ⟨u, hu, h⟩ := h
  refine Fold.foldlM_keep Tied (fun t k t' _ ht h => ht.populate h) ?_ h
  split_ifs at hu
  · cases hu
    exact ht
  · exact Fold.foldlM_keep Tied
      (fun t k t' _ ht h => ht.carry (fun s' hs' => (pushUp_cases hs').shift) h) ht hu

/-- A clock stamps no packet. -/
theorem Tied.clock {answer : Nat → Stat} (ht : Tied t) (h : b.timedClock answer t = some t') :
    Tied t' := by
  simp only [timedClock, Option.bind_eq_bind, Option.bind_eq_some_iff] at h
  obtain ⟨u, hsend, v, hlayers, w, hpush, h⟩ := h
  cases h
  have hu : Tied u := Fold.foldlM_keep Tied
    (fun t e t' _ ht h => ht.carry (fun s' hs' => sendOut_shift hs') h) ht hsend
  have hv : Tied v := Fold.foldlM_keep Tied (fun t i t' _ ht h => Fold.foldlM_keep Tied
    (fun t j t' _ ht h => ht.nodeClock h) ht h) hu hlayers
  have hw : Tied w := Fold.foldlM_keep Tied
    (fun t e t' _ ht h => ht.carry (fun s' hs' => (pushIn_cases hs').shift) h) hv hpush
  exact ⟨hw.stamps, hw.dated, hw.right⟩

/-- A drive stamps no packet. -/
theorem Tied.drive [DecidableEq C] {d : Drive C} (hd : d.Valid b) (ht : Tied t)
    (h : b.timedDrive t d = some t') : Tied t' := by
  cases d with
  | clock answer => exact ht.clock h
  | receive sender pkt =>
      obtain ⟨-, src, dst, size, bytes, flags, hpkt⟩ := hd
      obtain ⟨⟨ret, s'⟩, hrecv, h⟩ := Option.bind_eq_some_iff.1 h
      obtain ⟨-, -, ⟨rfl, rfl⟩ | ⟨rfl, -, rfl⟩⟩ := fatBflyReceive_cases hrecv
      · cases h
        exact ht
      · cases h
        refine ⟨fun p => ?_, fun p hp => ?_, ht.right⟩
        · by_cases hpe : p = .inp (elemOf pkt.src)
          · subst hpe
            simpa using (createPacket_cases hpkt).timestamp
          · simpa [hpe] using ht.stamps p
        · by_cases hpe : p = .inp (elemOf pkt.src)
          · subst hpe
            simp
          · simp only [set_reg, Function.update_of_ne hpe] at hp ⊢
            exact List.mem_cons_of_mem _ (ht.dated p hp)

/-- A run is accompanied by one with the times at which its packets were accepted, and there the
packet moved in a contest for an output register was accepted in no later clock than the other one
if and only if the left packet was accepted in no earlier clock than the right one. -/
theorem fatBfly_oldest_first [DecidableEq C] (b : FatBfly C) (drives : List (Drive C))
    (hvalid : ∀ d ∈ drives, d.Valid b) :
    (drives.foldlM b.timedDrive .init).map Timed.state = drives.foldlM b.drive .init ∧
      ∀ t, drives.foldlM b.timedDrive .init = some t →
        t.Dated ∧ ∀ x ∈ t.contests, x.OldestMoves ↔ x.right ≤ x.left := by
  refine ⟨foldlM_state b.timedDrive_state drives .init, fun t ht => ?_⟩
  have htied : Tied t := Fold.foldlM_keep Tied
    (fun t d t' hd ht h => ht.drive (hvalid d hd) h) tied_init ht
  refine ⟨htied.dated, fun x hx => ?_⟩
  rw [Contest.OldestMoves, htied.right x hx, if_neg Bool.false_ne_true]

/-- A packet from an element to element 0. -/
def request (e : Nat) : Packet := { Packet.zero with src := BitVec.ofNat 64 e <<< 32 }

/-- Element 1 sends one packet and element 0 sends two, the second of them a clock later. -/
def overtaking : List (Drive Unit) :=
  [.receive () (request 1), .receive () (request 0), .clock fun _ => .OK, .receive () (request 0),
    .clock fun _ => .OK, .clock fun _ => .OK]

/-- The drives of the example are ones of a run. -/
theorem overtaking_valid : ∀ d ∈ overtaking,
    d.Valid { elems := 2, send := fun _ => some (), layers := 1 } := by
  have hmade : ∀ e, e < 2 → createPacket (BitVec.ofNat 64 e <<< 32) 0 0 (fun _ => 0) 0 =
      some (request e) := by
    intro e he
    match e with
    | 0 => rfl
    | 1 => rfl
  simp only [overtaking, List.forall_mem_cons, Drive.Valid]
  exact ⟨⟨by decide, _, _, _, _, _, hmade 1 (by decide)⟩,
    ⟨by decide, _, _, _, _, _, hmade 0 (by decide)⟩, trivial,
    ⟨by decide, _, _, _, _, _, hmade 0 (by decide)⟩, trivial, trivial, by simp⟩

/-- The packet of element 1 is in the left bank. It loses to both packets of element 0. -/
theorem overtaking_contests :
    (overtaking.foldlM (FatBfly.timedDrive { elems := 2, send := fun _ => some (), layers := 1 })
      .init).map Timed.contests = some [⟨0, 1, false⟩, ⟨0, 0, false⟩] := by
  decide +kernel

theorem fatBfly_oldest_first_two : ∃ t,
    overtaking.foldlM (FatBfly.timedDrive { elems := 2, send := fun _ => some (), layers := 1 })
      .init = some t ∧ ∀ x ∈ t.contests, x.OldestMoves ↔ x.right ≤ x.left := by
  obtain ⟨t, ht, -⟩ := Option.map_eq_some_iff.1 overtaking_contests
  exact ⟨t, ht, ((fatBfly_oldest_first _ overtaking overtaking_valid).2 t ht).2⟩

/-- The butterfly over two elements moves the second packet of element 0 before the first one of
element 1, which was accepted in an earlier clock. -/
theorem fatBfly_overtakes : ∃ b : FatBfly Unit, createFatBfly 2 = some b ∧
    ∃ (drives : List (Drive Unit)) (t : Timed Unit),
      (∀ d ∈ drives, d.Valid { b with send := fun _ => some () }) ∧
      drives.foldlM (FatBfly.timedDrive { b with send := fun _ => some () }) .init = some t ∧
      ¬ ∀ x ∈ t.contests, x.OldestMoves := by
  obtain ⟨t, ht, hcontests⟩ := Option.map_eq_some_iff.1 overtaking_contests
  refine ⟨_, rfl, overtaking, t, overtaking_valid, ht, fun h => ?_⟩
  have := h ⟨0, 1, false⟩ (by simp [hcontests])
  simp [Contest.OldestMoves] at this

end Gran.FatBfly
