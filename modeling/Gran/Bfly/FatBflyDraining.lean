import Gran.Bfly.FatBflyOrder

/-!
# Draining the fat butterfly

A packet owes the hops to the top output bank and its delivery. On its way a clock comes past every
register and moves the packet there on if the next register is free, so a clock that moved no packet
found every packet stuck; but the packet nearest to the top never is. `fatBfly_drains` says for
which sizes every clock therefore pays some of the moves owed, and as many clocks as moves are owed
deliver everything.
-/

namespace Gran.FatBfly

open PacketNet Relation

variable {C : Type} {L : Nat} {b : FatBfly C} {accepted : List Packet}

/-- The moves a packet owes, the delivery included. -/
def owed (L : Nat) (p : Place) (_ : Packet) : Nat := hops L p + 1

/-- Every hop pays one of the moves owed. -/
theorem counts (hL : 1 ≤ L) : Counts (next L) (Placed L) (owed L) where
  hop p q x _ hnext := by
    have := hops_next hL hnext
    simp only [owed]
    omega
  leave p x hp hnext := by
    rw [placed_top hp hnext]
    rfl

/-- The moves owed by the packets in the registers. -/
def load (b : FatBfly C) (s : State C) : Nat :=
  ∑ p ∈ b.places, owed1 (owed b.layers) p (s.reg p).held

/-- The registers of a butterfly hold nothing. -/
def Empty (b : FatBfly C) (s : State C) : Prop := ∀ p ∈ b.places, (s.reg p).busy = false

/-- A clock whose components accept every packet. -/
abbrev drainClock (b : FatBfly C) (s : State C) : Option (State C) :=
  b.fatBflyClock (fun _ => .OK) s

/-- Any number of them. -/
def drain (b : FatBfly C) : Nat → State C → Option (State C)
  | 0, s => some s
  | n + 1, s => do
      let s ← b.drainClock s
      drain b n s

/-! ## What a clock comes past -/

section Clock

variable (hb : OfSize L b) (answer : Nat → Stat)
include hb

omit hb in
/-- A step that is a hop or nothing comes past itself. -/
theorem passes_of_spec {f : State C → Option (State C)} {stuck stuck' : Place → Place → Prop}
    (hf : ∀ s, Routed (next L) (Placed L) (network s accepted) →
      ∃ s', f s = some s' ∧ StuckOrHopped L stuck s s') (hstuck : ∀ p q, stuck' p q → stuck p q) :
    Passes (next L) (Placed L) (fun s => network s accepted) f (StuckOrHopped L stuck') := by
  refine (advances_of_spec hf).passes fun s hs s' h => ?_
  obtain ⟨t, ht, hspec⟩ := hf s hs
  obtain rfl := Option.some.inj (ht.symm.trans h)
  rcases hspec with ⟨rfl, hstay⟩ | hhop
  · exact Or.inl ⟨rfl, fun p q h => hstay p q (hstuck p q h)⟩
  · exact Or.inr hhop

/-- A clock comes past what the clock of one of its nodes comes past. -/
theorem OfSize.fatBflyClock_passes {R : State C → State C → Prop} {i j : Nat} (hi : i < L)
    (hj : j < 2 ^ i)
    (h : Passes (next L) (Placed L) (fun s => network s accepted)
      (fun s => b.nodeClock s i j (2 <<< b.height i) (b.height i)) R) :
    Passes (next L) (Placed L) (fun s => network s accepted) (b.fatBflyClock answer) R := by
  have hlayer : Passes (next L) (Placed L) (fun s => network s accepted)
      (fun s => b.layerClock s i (1 <<< i) (b.height i)) R := by
    refine Passes.foldlM hb.next_ok (a := j) (fun j' hj' => ?_) ?_ h
    · rw [Nat.shiftLeft_eq, Nat.one_mul, List.mem_range] at hj'
      exact hb.nodeClock_advances hi hj'
    · rwa [Nat.shiftLeft_eq, Nat.one_mul, List.mem_range]
  have hlayers : Passes (next L) (Placed L) (fun s => network s accepted) (fun s =>
      (List.range b.layers).foldlM (fun s i => b.layerClock s i (1 <<< i) (b.height i)) s) R := by
    refine Passes.foldlM hb.next_ok (a := i) (fun i' hi' => ?_) ?_ hlayer
    · rw [hb.layers, List.mem_range] at hi'
      exact hb.layerClock_advances hi'
    · rwa [hb.layers, List.mem_range]
  exact Passes.bind_right hb.next_ok (hb.sendLoop_advances answer)
    (Passes.bind_left hb.next_ok hlayers hb.pushInLoop_advances)

/-- A clock comes past every packet that has a next register. -/
theorem OfSize.fatBflyClock_passes_hop {p q : Place} {x : Packet} (hp : Placed L p x)
    (hnext : next L p x = some q) :
    Passes (next L) (Placed L) (fun s => network s accepted) (b.fatBflyClock answer)
      (StuckOrHopped L fun p' q' => p' = p ∧ q' = q) := by
  obtain ⟨-, hplace⟩ := hp
  -- the bank that the packet is in, if it is in one
  have hbank : ∀ left i j, i < L → j < 2 ^ i → p = bank left i j (dest x % 2 ^ (L - i - 1)) →
      q = .out i j (dest x % 2 ^ (L - i)) →
      Passes (next L) (Placed L) (fun s => network s accepted) (b.fatBflyClock answer)
        (StuckOrHopped L fun p' q' => p' = p ∧ q' = q) := by
    rintro left i j hi hj rfl rfl
    have hk : dest x % 2 ^ (L - i) < 2 ^ (L - i) := Nat.mod_lt _ (Nat.two_pow_pos _)
    have hmod : dest x % 2 ^ (L - i) % 2 ^ (L - i - 1) = dest x % 2 ^ (L - i - 1) :=
      Nat.mod_mod_of_dvd _ (Nat.pow_dvd_pow 2 (by omega))
    refine hb.fatBflyClock_passes answer hi hj (Passes.bind_right hb.next_ok
      (hb.pushLoop_advances hi hj) (Passes.foldlM hb.next_ok (a := dest x % 2 ^ (L - i))
        (fun k' hk' => ?_) ?_ (passes_of_spec (fun s hs => hb.populate_spec hi hj hk hs) ?_)))
    · rw [hb.count hi, List.mem_range] at hk'
      exact advances_of_spec fun s hs => hb.populate_spec hi hj hk' hs
    · rwa [hb.count hi, List.mem_range]
    · rintro p' q' ⟨rfl, rfl⟩
      exact ⟨rfl, left, by rw [hmod]⟩
  match p with
  | .inp e =>
      refine Passes.bind_right hb.next_ok (hb.sendLoop_advances answer)
        (Passes.bind_right hb.next_ok hb.layerLoop_advances (Passes.foldlM hb.next_ok (a := e)
          (fun e' he' => ?_) ?_
          (passes_of_spec (fun s _ => hb.pushIn_spec hplace s) fun _ _ h => h.1)))
      · rw [hb.elems, List.mem_range] at he'
        exact advances_of_spec fun s _ => hb.pushIn_spec he' s
      · rw [hb.elems, List.mem_range]
        exact hplace
  | .left i j k =>
      exact hbank true i j hplace.1 hplace.2.1 (by rw [hplace.2.2]; rfl)
        (Option.some.inj hnext).symm
  | .right i j k =>
      exact hbank false i j hplace.1 hplace.2.1 (by rw [hplace.2.2]; rfl)
        (Option.some.inj hnext).symm
  | .out (i + 1) j k =>
      obtain ⟨hi, hj, hk⟩ := hplace
      have hk' : k < 2 ^ (L - (i + 1)) := by
        rw [hk]
        exact Nat.mod_lt _ (Nat.two_pow_pos _)
      refine hb.fatBflyClock_passes answer hi hj (Passes.bind_left hb.next_ok
        (Passes.foldlM hb.next_ok (a := k) (fun k' hk' => ?_) ?_
          (passes_of_spec (fun s _ => hb.pushUp_spec hi hj hk' s) fun _ _ h => h.1))
        (hb.populateLoop_advances hi hj))
      · rw [hb.count hi, List.mem_range] at hk'
        exact advances_of_spec fun s _ => hb.pushUp_spec hi hj hk' s
      · rwa [hb.count hi, List.mem_range]

/-- A clock comes past every register of the top output bank. -/
theorem OfSize.fatBflyClock_passes_out {i : Nat} (hi : i < 2 ^ L) :
    Passes (next L) (Placed L) (fun s => network s accepted) (b.fatBflyClock answer) fun s s' =>
      s' = s ∧ ((s.reg (.out 0 0 i)).busy = true → answer i = .EBUSY) ∨ Departed s s' i := by
  refine Passes.bind_left hb.next_ok (Passes.foldlM hb.next_ok (a := i) (fun i' hi' => ?_) ?_
    ((hb.sendOut_advances answer hi).passes fun s hs s' h => ?_))
    (Advances.bind hb.next_ok hb.layerLoop_advances hb.pushInLoop_advances)
  · rw [hb.elems, List.mem_range] at hi'
    exact hb.sendOut_advances answer hi'
  · rwa [hb.elems, List.mem_range]
  · obtain ⟨t, ht, hspec⟩ := hb.sendOut_spec answer hi hs
    obtain rfl := Option.some.inj (ht.symm.trans h)
    exact hspec

end Clock

/-! ## Every clock pays -/

section Pays

variable (hb : OfSize L b)
include hb

/-- The load of a butterfly is that of its network. -/
theorem OfSize.load_eq (s : State C) :
    load b s = (network s accepted).load b.places (owed L) := by
  unfold load
  rw [hb.layers]
  rfl

/-- A clock succeeds, moves packets, and pays some of the moves owed if there are any. -/
theorem OfSize.drainClock_spec {s : State C}
    (hs : Routed (next L) (Placed L) (network s accepted)) :
    ∃ s', b.drainClock s = some s' ∧
      Moves (next L) (network s accepted) (network s' accepted) ∧
      ((∃ p, (s.reg p).busy = true) → load b s' < load b s) := by
  obtain ⟨s', hs', hmoves⟩ := hb.fatBflyClock_advances (fun _ => .OK) s hs
  refine ⟨s', hs', hmoves, fun hbusy => ?_⟩
  by_contra hle
  rw [hb.load_eq s, hb.load_eq s', not_lt] at hle
  have hcounts := counts (L := L) hb.pos
  -- a packet nearest to the top has nothing in its way
  obtain ⟨p, x, hp, -, hfree⟩ := exists_unblocked hb.placed_mem (fun p => 2 * L - hops L p)
    (fun p q x hplaced hnext => by
      have h1 := hops_next hb.pos hnext
      have h2 := hplaced.hops_le
      omega) hs
    (by
      obtain ⟨p, hp⟩ := hbusy
      exact ⟨p, by simp [held_of_busy hp]⟩)
  -- and no move happened in this clock
  have hstill : ∀ t t' : State C, network t accepted = network s accepted →
      network t' accepted = network s accepted →
      ¬ Move (next L) (network t accepted) (network t' accepted) := by
    intro t t' ht ht' hmove
    rw [ht, ht'] at hmove
    have := hmove.load hb.next_ok hb.placed_mem hcounts hs
    omega
  have hplaced := hs.held p x hp
  cases hnext : next L p x with
  | some q =>
      obtain ⟨t, t', ht, ht', hstep⟩ := (hb.fatBflyClock_passes_hop
        (fun _ => .OK) hplaced hnext).still hb.next_ok hb.placed_mem hcounts hs hs' hle
      rcases hstep with ⟨-, hstuck⟩ | hhop
      · have hheld : (t.reg p).held = some x := (congrArg (fun n => n.held p) ht).trans hp
        obtain ⟨hfull, hpkt⟩ := Reg.held_eq_some.1 hheld
        have hq : (t.reg q).held = none := (congrArg (fun n => n.held q) ht).trans (hfree q hnext)
        have hqfull := hstuck p q ⟨rfl, rfl⟩ hfull (by rw [hpkt]; exact hnext)
        rw [Reg.held_eq_none.1 hq] at hqfull
        cases hqfull
      · exact hstill t t' ht ht' hhop.move
  | none =>
      obtain rfl := placed_top hplaced hnext
      obtain ⟨t, t', ht, ht', hstep⟩ := (hb.fatBflyClock_passes_out
        (fun _ => .OK) hplaced.1).still hb.next_ok hb.placed_mem hcounts hs hs' hle
      rcases hstep with ⟨-, hrefused⟩ | hleft
      · have hheld : (t.reg (.out 0 0 (dest x))).held = some x :=
          (congrArg (fun n => n.held (.out 0 0 (dest x))) ht).trans hp
        cases hrefused (Reg.held_eq_some.1 hheld).1
      · exact hstill t t' ht ht' hleft.move

/-- As many clocks as moves are owed empty the registers. -/
theorem OfSize.drain_spec {n : Nat} {s : State C}
    (hs : Routed (next L) (Placed L) (network s accepted)) (hn : load b s ≤ n) :
    ∃ s', b.drain n s = some s' ∧ Moves (next L) (network s accepted) (network s' accepted) ∧
      ∀ p, (s'.reg p).busy = false := by
  induction n generalizing s with
  | zero =>
      rw [hb.load_eq] at hn
      refine ⟨s, rfl, .refl, fun p => Reg.held_eq_none.1 ?_⟩
      exact held_eq_none_of_load hb.placed_mem (counts hb.pos) hs (Nat.le_zero.1 hn) p
  | succ n ih =>
      obtain ⟨t, ht, hmoves, hpays⟩ := hb.drainClock_spec hs
      have hload : load b t ≤ n := by
        by_cases hbusy : ∃ p, (s.reg p).busy = true
        · have := hpays hbusy
          omega
        · have hle := Moves.load_le hb.next_ok hb.placed_mem (counts hb.pos) hs hmoves
          rw [← hb.load_eq, ← hb.load_eq] at hle
          have hzero : load b s = 0 := Finset.sum_eq_zero fun p _ => by
            have hfree : (s.reg p).busy = false := by
              by_contra hfull
              exact hbusy ⟨p, by simpa using hfull⟩
            rw [Reg.held_eq_none.2 hfree]
            rfl
          omega
      obtain ⟨s', hs', hmoves', hempty⟩ := ih (Moves.routed hb.next_ok hmoves hs) hload
      refine ⟨s', ?_, hmoves.trans hmoves', hempty⟩
      rw [drain, ht]
      exact hs'

end Pays

/-! ## Ports that are not connected -/

/-- The packets in the registers have components to go to. -/
def Sendable (b : FatBfly C) (s : State C) : Prop :=
  ∀ p, (s.reg p).busy = true → (b.send (dest (s.reg p).pkt)).isSome = true

/-- Connecting the other elements changes nothing for packets that may be sent. -/
theorem sendOut_filled {answer : Nat → Stat} {i : Nat} {s : State C} (comp : C)
    (hs : Sendable b s) :
    (b.filled comp).sendOut answer s i = b.sendOut answer s i := by
  have hread : (b.filled comp).read s (.out 0 0 i) = b.read s (.out 0 0 i) := rfl
  unfold sendOut
  rw [hread]
  refine Option.bind_congr fun out hout => ?_
  obtain rfl : s.reg (.out 0 0 i) = out := by
    simp only [read, Option.ite_none_right_eq_some, Option.some.injEq] at hout
    exact hout.2
  cases hbusy : (s.reg (.out 0 0 i)).busy with
  | false => rfl
  | true =>
      refine Option.bind_congr fun _ helem => ?_
      have hdest : dest (s.reg (.out 0 0 i)).pkt = i := by
        by_contra hne
        simp only [dest] at hne
        simp [hne, guard_false] at helem
      obtain ⟨c, hc⟩ := Option.isSome_iff_exists.1 (hdest ▸ hs _ hbusy)
      have hfilled : (b.filled comp).send i = some c := by simp [filled, hc]
      rw [hfilled, hc]

/-- Packets that may be sent stay so. -/
theorem sendOut_sendable {answer : Nat → Stat} {i : Nat} {s s' : State C} (hs : Sendable b s)
    (h : b.sendOut answer s i = some s') : Sendable b s' := by
  rcases sendOut_cases h with ⟨rfl, -⟩ | ⟨-, -, comp, -, rfl⟩
  · exact hs
  · intro p hp
    by_cases hout : p = .out 0 0 i
    · subst hout
      simp at hp
    · simp only [set_reg, Function.update_of_ne hout] at hp ⊢
      exact hs p hp

/-- Connecting the other elements changes no clock of packets that may be sent. -/
theorem fatBflyClock_filled_eq {answer : Nat → Stat} {s : State C} (comp : C) (hs : Sendable b s) :
    (b.filled comp).fatBflyClock answer s = b.fatBflyClock answer s := by
  have hsend : (List.range b.elems.toNat).foldlM ((b.filled comp).sendOut answer) s =
      (List.range b.elems.toNat).foldlM (b.sendOut answer) s :=
    Fold.foldlM_congr (Sendable b)
      (fun t i _ ht => ⟨sendOut_filled comp ht, fun _ => sendOut_sendable ht⟩) hs
  exact congrArg (fun x => x >>= fun t =>
    (List.range b.layers).foldlM (fun s i => b.layerClock s i (1 <<< i) (b.height i)) t >>= fun t =>
    (List.range b.elems.toNat).foldlM b.pushIn t) hsend

/-- Draining sends to connected ports only, if every packet is for one. -/
theorem drain_filled {comp : C} (hb : OfSize L (b.filled comp)) {n : Nat} {s : State C}
    (hs : Routed (next L) (Placed L) (network s accepted))
    (hsend : Routed (next L) (fun _ x => (b.send (dest x)).isSome = true) (network s accepted)) :
    (b.filled comp).drain n s = b.drain n s := by
  induction n generalizing s with
  | zero => rfl
  | succ n ih =>
      have hsendable : Sendable b s := fun p hp => hsend.held p _ (held_of_busy hp)
      obtain ⟨t, ht, hmoves, -⟩ := hb.drainClock_spec hs
      have ht' := (fatBflyClock_filled_eq comp hsendable).symm.trans ht
      rw [drain, drain, ht, drainClock, ht']
      exact ih (Moves.routed hb.next_ok hmoves hs) (Moves.routed (fun _ _ _ h _ => h) hmoves hsend)

section Runs

variable [DecidableEq C]

/-- Every packet accepted was for a connected port. -/
def Addressed (b : FatBfly C) (r : Run C) : Prop :=
  ∀ x ∈ r.accepted, (b.send (dest x)).isSome = true

/-- The butterfly drains. From every reachable state whose packets are for connected ports, when
every component accepts and nothing is presented: a clock succeeds and strictly decreases the moves
owed as long as any register is busy, and as many clocks as moves are owed, or more, leave every
register free and have delivered every packet that was held. -/
structure Drains (b : FatBfly C) : Prop where
  pays : ∀ r : Run C, r.Reachable b → Addressed b r →
    (∃ p ∈ b.places, (r.state.reg p).busy = true) →
    ∃ s', b.drainClock r.state = some s' ∧ load b s' < load b r.state
  empties : ∀ r : Run C, r.Reachable b → Addressed b r → ∀ n, load b r.state ≤ n →
    ∃ s', b.drain n r.state = some s' ∧ Empty b s' ∧
      ((s'.delivered.map Delivery.pkt : List Packet) : Multiset Packet) =
        b.registers r.state + ((r.state.delivered.map Delivery.pkt : List Packet) : Multiset Packet)

/-- A butterfly of the right size drains. -/
theorem OfSize.drains {comp : C} (hb : OfSize L (b.filled comp)) : Drains b where
  pays r h haddr := by
    rintro ⟨p, -, hp⟩
    have hfilled : r.Reachable (b.filled comp) :=
      ReflTransGen.mono (fun _ _ hstep => hstep.filled) _ _ h
    have hs := (hb.reachable_steps hfilled).2
    have hsend := (hb.reachable_conserved hfilled).routed hb.placed_mem hs haddr
    obtain ⟨s', hs', -, hpays⟩ := hb.drainClock_spec hs
    refine ⟨s', ?_, hpays ⟨p, hp⟩⟩
    rwa [drainClock,
      fatBflyClock_filled_eq comp fun q hq => hsend.held q _ (held_of_busy hq)] at hs'
  empties r h haddr n hn := by
    have hfilled : r.Reachable (b.filled comp) :=
      ReflTransGen.mono (fun _ _ hstep => hstep.filled) _ _ h
    have hs := (hb.reachable_steps hfilled).2
    have hbefore := hb.reachable_conserved hfilled
    have hsend := hbefore.routed hb.placed_mem hs haddr
    obtain ⟨s', hs', hmoves, hempty⟩ := hb.drain_spec hs hn
    refine ⟨s', (drain_filled hb hs hsend).symm.trans hs', fun p _ => hempty p, ?_⟩
    have hsteps : Steps (next L) (fun _ _ => False) (network r.state r.accepted)
        (network s' r.accepted) := hmoves.steps
    have hafter := hsteps.conserved hb.next_ok (fun _ _ h => h.elim) hb.placed_mem hs hbefore
    have hnone : (network s' r.accepted).content (b.filled comp).places = 0 :=
      Finset.sum_eq_zero fun p _ => congrArg held1 (Reg.held_eq_none.2 (hempty p))
    unfold Conserved at hbefore hafter
    rw [hnone, zero_add] at hafter
    have hboth := hafter.symm.trans hbefore
    simp only [network, Multiset.map_map] at hboth
    exact hboth

/-- A packet from an element to itself. -/
def note (e : Nat) : Packet :=
  { Packet.zero with src := BitVec.ofNat 64 e <<< 32, dst := BitVec.ofNat 64 e <<< 32 }

omit [DecidableEq C] in
/-- The element of an address. -/
theorem elemOf_shiftLeft {e : Nat} (he : e < 2 ^ 32) : elemOf (BitVec.ofNat 64 e <<< 32) = e := by
  have hlow : ∀ n : Nat, n &&& 0xffffffff = n % 2 ^ 32 :=
    fun n => Nat.and_two_pow_sub_one_eq_mod n 32
  simp only [elemOf, BitVec.toNat_and, BitVec.toNat_ushiftRight, BitVec.toNat_shiftLeft,
    BitVec.toNat_ofNat, Nat.shiftRight_eq_div_pow, Nat.shiftLeft_eq]
  rw [show BitVec.toNat (0xffffffff : Word) = 0xffffffff from rfl, hlow]
  omega

/-- An empty butterfly accepts a packet from a connected port. -/
theorem fatBflyReceive_init {comp : C} {e : Nat} (he : e < b.elems.toNat)
    (hcomp : b.send e = some comp) :
    b.fatBflyReceive .init comp (note e) = some (.OK, State.init.set (.inp e) ⟨note e, true⟩) := by
  have hsrc : elemOf (note e).src = e := elemOf_shiftLeft (he.trans b.elems.isLt)
  have hread : b.read (.init : State C) (.inp e) = some .free := by
    simp [read, allocated, inBank, he, State.init]
  simp only [fatBflyReceive, hsrc, he, hcomp, guard_true, hread, Option.bind_eq_bind,
    Option.pure_def, Option.bind_some]
  rfl

/-- A butterfly with a connected port that drains has clocks that succeed. -/
theorem Drains.clock {comp : C} {e : Nat} (h : Drains b) (he : e < b.elems.toNat)
    (hcomp : b.send e = some comp) : ∃ s s', b.drainClock s = some s' := by
  have hdst : dest (note e) = e := elemOf_shiftLeft (he.trans b.elems.isLt)
  have hrecv : Run.Step b ⟨.init, []⟩ ⟨State.init.set (.inp e) ⟨note e, true⟩, [note e]⟩ :=
    .receive comp (note e) (by rwa [hdst]) .OK _ (fatBflyReceive_init he hcomp)
  obtain ⟨s', hs', -⟩ := h.pays _ (.single hrecv)
    (fun x hx => by
      obtain rfl := List.mem_singleton.1 hx
      rw [hdst, hcomp]
      rfl)
    ⟨.inp e, mem_places.2 (by simpa [allocated] using he), by simp⟩
  exact ⟨_, s', hs'⟩

/-- The fat butterfly over `2 ^ L` elements, of which any may be connected but at least one is,
drains if and only if `L` is at most 30. -/
theorem fatBfly_drains (L : Nat) (hL : 1 ≤ L) (hL' : L < 32) (b : FatBfly C)
    (hcreate : createFatBfly (BitVec.ofNat 32 (2 ^ L)) = some b) (send : Nat → Option C)
    (hsend : ∃ e < b.elems.toNat, (send e).isSome = true) :
    Drains { b with send } ↔ L ≤ 30 := by
  obtain rfl := Option.some.inj (hcreate.symm.trans (createFatBfly_two_pow hL hL'))
  have hpow : (BitVec.ofNat 32 (2 ^ L)).toNat = 2 ^ L :=
    Nat.mod_eq_of_lt (Nat.pow_lt_pow_right (by decide) hL')
  obtain ⟨e, he, hport⟩ := hsend
  obtain ⟨comp, hcomp⟩ := Option.isSome_iff_exists.1 hport
  refine ⟨fun h => ?_, fun hle => ?_⟩
  · by_contra hlt
    obtain rfl : L = 31 := by omega
    have hwrap : (2 : BitVec 32) * BitVec.ofNat 32 (2 ^ 31) = 0 := by decide
    obtain ⟨s, s', hs'⟩ := h.clock he hcomp
    rw [drainClock, fatBflyClock_wrapped (hpow ▸ Nat.two_pow_pos 31) hwrap] at hs'
    cases hs'
  · have hb : OfSize L (({ elems := BitVec.ofNat 32 (2 ^ L), send, layers := L } :
        FatBfly C).filled comp) := ⟨hL, hle, hpow, rfl, fun e _ => rfl⟩
    exact hb.drains

/-- The butterfly over two elements, both connected to one component. -/
theorem fatBfly_drains_two : Drains
    ({ elems := BitVec.ofNat 32 (2 ^ 1), send := fun _ => some (), layers := 1 } : FatBfly Unit) :=
  (fatBfly_drains 1 (by decide) (by decide) _ (createFatBfly_two_pow (by decide) (by decide))
    (fun _ => some ()) ⟨0, by decide, rfl⟩).2 (by decide)

/-- The butterfly over `2 ^ 31` elements keeps the packets it accepts. -/
theorem fatBfly_never_drains : ∃ b : FatBfly Unit,
    createFatBfly (BitVec.ofNat 32 (2 ^ 31)) = some b ∧
    ¬ Drains { b with send := fun _ => some () } := by
  refine ⟨_, createFatBfly_two_pow (by decide) (by decide), fun h => ?_⟩
  obtain ⟨s, s', hs'⟩ := h.clock (e := 0) (by decide) rfl
  rw [drainClock, fatBflyClock_wrapped (by decide) (by decide)] at hs'
  cases hs'

end Runs

end Gran.FatBfly
