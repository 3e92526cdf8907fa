import Gran.Bfly.FatBflyDelivery
import Gran.Foundations.Flow

/-!
# The order of packets in the fat butterfly

Where a packet is in each layer follows from the element it comes from and the element it goes to,
so all packets from one element to another share one way of registers (`ways`). A hop brings a
packet one register closer to the top and never past another one, and `fatBfly_in_order` says what
follows: for each source and destination, the packets delivered are the first ones accepted, in the
order of their acceptance.
-/

namespace Gran.FatBfly

open PacketNet Relation Flow

variable {C : Type}

/-- The element that a packet comes from and the one that it goes to. -/
def flowOf (x : Packet) : Nat × Nat := (elemOf x.src, dest x)

/-- Whether a packet of flow `k` is in the left bank of its node in layer `i`. -/
def side (L : Nat) (k : Nat × Nat) (i : Nat) : Bool :=
  if i + 1 = L then k.1 % 2 = 1 else k.2 >>> (L - (i + 1) - 1) &&& 1 = 1

/-- The registers that packets of flow `k` pass. -/
def OnWay (L : Nat) (k : Nat × Nat) : Place → Prop
  | .inp e => e = k.1
  | .left i j c => i < L ∧ j = k.1 / 2 ^ (L - i) ∧ c = k.2 % 2 ^ (L - i - 1) ∧ side L k i = true
  | .right i j c => i < L ∧ j = k.1 / 2 ^ (L - i) ∧ c = k.2 % 2 ^ (L - i - 1) ∧ side L k i = false
  | .out i j c => i < L ∧ j = k.1 / 2 ^ (L - i) ∧ c = k.2 % 2 ^ (L - i)

/-- The hops left say where on its way a packet is. -/
theorem OnWay.inj {L : Nat} {k : Nat × Nat} {p q : Place} (hp : OnWay L k p) (hq : OnWay L k q)
    (hdist : hops L p = hops L q) : p = q := by
  cases p with
  | inp e =>
      cases q with
      | inp e' => exact congrArg Place.inp (hp.trans hq.symm)
      | left i j c | right i j c => simp only [hops] at hdist; omega
      | out i j c =>
          have := hq.1
          simp only [hops] at hdist
          omega
  | out i j c =>
      obtain ⟨hi, rfl, rfl⟩ := hp
      cases q with
      | inp e => simp only [hops] at hdist; omega
      | left i' j' c' | right i' j' c' => simp only [hops] at hdist; omega
      | out i' j' c' =>
          obtain ⟨-, rfl, rfl⟩ := hq
          obtain rfl : i = i' := by simp only [hops] at hdist; omega
          rfl
  | left i j c =>
      obtain ⟨hi, rfl, rfl, hside⟩ := hp
      cases q with
      | inp e | out i' j' c' => simp only [hops] at hdist; omega
      | left i' j' c' =>
          obtain ⟨-, rfl, rfl, -⟩ := hq
          obtain rfl : i = i' := by simp only [hops] at hdist; omega
          rfl
      | right i' j' c' =>
          obtain rfl : i = i' := by simp only [hops] at hdist; omega
          cases hside.symm.trans hq.2.2.2
  | right i j c =>
      obtain ⟨hi, rfl, rfl, hside⟩ := hp
      cases q with
      | inp e | out i' j' c' => simp only [hops] at hdist; omega
      | right i' j' c' =>
          obtain ⟨-, rfl, rfl, -⟩ := hq
          obtain rfl : i = i' := by simp only [hops] at hdist; omega
          rfl
      | left i' j' c' =>
          obtain rfl : i = i' := by simp only [hops] at hdist; omega
          cases hside.symm.trans hq.2.2.2

/-- The way of each flow. -/
def ways (L : Nat) : Ways Place (Nat × Nat) where
  on := OnWay L
  dist _ := hops L
  inj := OnWay.inj

variable {L : Nat}

/-- Which output banks are on the way of a flow. -/
theorem onWay_bank {k : Nat × Nat} {left : Bool} {i j c : Nat} :
    OnWay L k (bank left i j c) ↔
      i < L ∧ j = k.1 / 2 ^ (L - i) ∧ c = k.2 % 2 ^ (L - i - 1) ∧ side L k i = left := by
  cases left <;> rfl

/-- A packet stays on the way of its flow. -/
theorem onWay_next (hL : 1 ≤ L) {p q : Place} {x : Packet} (hon : OnWay L (flowOf x) p)
    (hnext : next L p x = some q) : OnWay L (flowOf x) q := by
  match p with
  | .inp e =>
      obtain rfl := Option.some.inj hnext
      obtain rfl : e = (flowOf x).1 := hon
      refine onWay_bank.2 ⟨by omega, ?_, ?_, ?_⟩
      · rw [show L - (L - 1) = 1 by omega, pow_one]
      · rw [show L - (L - 1) - 1 = 0 by omega, pow_zero, Nat.mod_one]
      · rw [side, if_pos (by omega)]
  | .left i j c =>
      obtain rfl := Option.some.inj hnext
      exact ⟨hon.1, hon.2.1, rfl⟩
  | .right i j c =>
      obtain rfl := Option.some.inj hnext
      exact ⟨hon.1, hon.2.1, rfl⟩
  | .out (i + 1) j c =>
      obtain rfl := Option.some.inj hnext
      obtain ⟨hi, rfl, rfl⟩ := hon
      refine onWay_bank.2 ⟨by omega, ?_, ?_, ?_⟩
      · rw [Nat.div_div_eq_div_mul, ← pow_succ]
        congr 2
        omega
      · rw [show L - (i + 1) = L - i - 1 by omega]
      · rw [side, if_neg (by omega)]
        rfl

/-! ## What a clock keeps -/

/-- The packets are placed and in order. -/
structure Ordered (L : Nat) (accepted : List Packet) (s : State C) : Prop where
  routed : Routed (next L) (Placed L) (network s accepted)
  order : InOrder (ways L) flowOf (fun p => (s.reg p).held) accepted.reverse
    (s.delivered.map Delivery.pkt).reverse

variable {accepted : List Packet} {s s' : State C}

/-- Writing a register changes what one place holds. -/
theorem held_set (s : State C) (p : Place) (r : Reg) :
    (fun q => ((s.set p r).reg q).held) = Function.update (fun q => (s.reg q).held) p r.held := by
  funext q
  by_cases h : q = p
  · subst h; simp
  · simp [h]

/-- A hop keeps the packets in order. -/
theorem Hopped.ordered (hL : 1 ≤ L) (h : Hopped L s s') (hs : Ordered L accepted s) :
    Ordered L accepted s' := by
  have hmove : Moves (next L) (network s accepted) (network s' accepted) := .single h.move
  refine ⟨Moves.routed (placed_next hL) hmove hs.routed, ?_⟩
  obtain ⟨p, q, hbusy, hnext, hfree, rfl⟩ := h
  have hp : (s.reg p).held = some (s.reg p).pkt := Reg.held_eq_some.2 ⟨hbusy, rfl⟩
  have hq : (s.reg q).held = none := Reg.held_eq_none.2 hfree
  have hon := onWay_next hL (hs.order.on p _ hp) hnext
  have hpq : q ≠ p := by
    rintro rfl
    rw [hfree] at hbusy
    cases hbusy
  have hhop := hs.order.hop hp hq hon (hops_next hL hnext)
  rw [held_set, held_set, Reg.held_mk_true, Reg.held_mk_false, Function.update_comm hpq]
  exact hhop

/-- Staying or hopping keeps the packets in order. -/
theorem StuckOrHopped.ordered (hL : 1 ≤ L) {stuck : Place → Place → Prop}
    (h : StuckOrHopped L stuck s s') (hs : Ordered L accepted s) : Ordered L accepted s' := by
  rcases h with ⟨rfl, -⟩ | h
  · exact hs
  · exact h.ordered hL hs

/-- Handing a packet over keeps the packets in order. -/
theorem Departed.ordered (hL : 1 ≤ L) {i : Nat} (h : Departed s s' i) (hs : Ordered L accepted s) :
    Ordered L accepted s' := by
  have hmove : Moves (next L) (network s accepted) (network s' accepted) := .single h.move
  refine ⟨Moves.routed (placed_next hL) hmove hs.routed, ?_⟩
  obtain ⟨hbusy, comp, rfl⟩ := h
  have hp : (s.reg (.out 0 0 i)).held = some (s.reg (.out 0 0 i)).pkt :=
    Reg.held_eq_some.2 ⟨hbusy, rfl⟩
  have hleave := hs.order.leave hp fun q _ => Nat.zero_le _
  have hheld := held_set s (.out 0 0 i) { s.reg (.out 0 0 i) with busy := false }
  rw [Reg.held_mk_false] at hheld
  rw [← hheld] at hleave
  simpa using hleave

variable {b : FatBfly C}

/-- The clock of a node keeps the packets in order. -/
theorem OfSize.nodeClock_ordered (hb : OfSize L b) {i j : Nat} (hi : i < L) (hj : j < 2 ^ i)
    (hs : Ordered L accepted s) (h : b.nodeClock s i j (2 <<< b.height i) (b.height i) = some s') :
    Ordered L accepted s' := by
  obtain ⟨t, hpush, hpop⟩ := Option.bind_eq_some_iff.1 h
  have ht : Ordered L accepted t := by
    match i with
    | 0 =>
        cases hpush
        exact hs
    | i + 1 =>
        refine Fold.foldlM_keep (Ordered L accepted) (fun u k u' hk hu hstep => ?_) hs hpush
        rw [hb.count hi, List.mem_range] at hk
        obtain ⟨v, hv, hspec⟩ := hb.pushUp_spec hi hj hk u
        obtain rfl := Option.some.inj (hv.symm.trans hstep)
        exact hspec.ordered hb.pos hu
  refine Fold.foldlM_keep (Ordered L accepted) (fun u k u' hk hu hstep => ?_) ht hpop
  rw [hb.count hi, List.mem_range] at hk
  obtain ⟨v, hv, hspec⟩ := hb.populate_spec hi hj hk hu.routed
  obtain rfl := Option.some.inj (hv.symm.trans hstep)
  exact hspec.ordered hb.pos hu

/-- The clock of a butterfly keeps the packets in order. -/
theorem OfSize.fatBflyClock_ordered (hb : OfSize L b) {answer : Nat → Stat}
    (hs : Ordered L accepted s) (h : b.fatBflyClock answer s = some s') :
    Ordered L accepted s' := by
  obtain ⟨t, hsend, h⟩ := Option.bind_eq_some_iff.1 h
  obtain ⟨u, hlayers, hin⟩ := Option.bind_eq_some_iff.1 h
  have ht : Ordered L accepted t := by
    refine Fold.foldlM_keep (Ordered L accepted) (fun v i v' hi hv hstep => ?_) hs hsend
    rw [hb.elems, List.mem_range] at hi
    obtain ⟨w, hw, hspec⟩ := hb.sendOut_spec answer hi hv.routed
    obtain rfl := Option.some.inj (hw.symm.trans hstep)
    rcases hspec with ⟨rfl, -⟩ | hspec
    · exact hv
    · exact hspec.ordered hb.pos hv
  have hu : Ordered L accepted u := by
    refine Fold.foldlM_keep (Ordered L accepted) (fun v i v' hi hv hstep => ?_) ht hlayers
    rw [hb.layers, List.mem_range] at hi
    refine Fold.foldlM_keep (Ordered L accepted) (fun w j w' hj hw hstep => ?_) hv hstep
    rw [Nat.shiftLeft_eq, Nat.one_mul, List.mem_range] at hj
    exact hb.nodeClock_ordered hi hj hw hstep
  refine Fold.foldlM_keep (Ordered L accepted) (fun v e v' he hv hstep => ?_) hu hin
  rw [hb.elems, List.mem_range] at he
  obtain ⟨w, hw, hspec⟩ := hb.pushIn_spec he v
  obtain rfl := Option.some.inj (hw.symm.trans hstep)
  exact hspec.ordered hb.pos hv

/-! ## Runs -/

section Runs

variable [DecidableEq C]

/-- A step of a run keeps the packets in order. -/
theorem Run.Step.ordered (hb : OfSize L b) {r r' : Run C} (hstep : Run.Step b r r')
    (hr : Ordered L r.accepted r.state) : Ordered L r'.accepted r'.state := by
  have hrouted := Steps.routed hb.next_ok entry_placed (hstep.steps hb hr.routed) hr.routed
  refine ⟨hrouted, ?_⟩
  cases hstep with
  | clock answer hanswer s' h => exact (hb.fatBflyClock_ordered hr h).order
  | receive sender pkt haddr ret s' h =>
      obtain ⟨-, -, ⟨rfl, rfl⟩ | ⟨rfl, hfree, rfl⟩⟩ := fatBflyReceive_cases h
      · exact hr.order
      · have henter := hr.order.enter (x := pkt) (Reg.held_eq_none.2 hfree)
          (show OnWay L (flowOf pkt) (.inp (elemOf pkt.src)) from rfl) fun q hq => ?_
        · rw [← Reg.held_mk_true, ← held_set] at henter
          simpa using henter
        · -- every register on the way is in front of the input register
          show hops L q ≤ 2 * L
          cases q with
          | inp e => exact Nat.le_refl _
          | left i j c | right i j c | out i j c =>
              have hi : i < L := hq.1
              simp only [hops]
              omega

/-- Every reachable run keeps the packets in order. -/
theorem OfSize.reachable_ordered (hb : OfSize L b) {r : Run C} (h : r.Reachable b) :
    Ordered L r.accepted r.state := by
  induction h with
  | refl => exact ⟨routed_empty _, inOrder_empty⟩
  | tail _ hstep ih => exact hstep.ordered hb ih

/-- The packets delivered from element `src` to element `dst`, oldest first. -/
def deliveredFrom (r : Run C) (src dst : Nat) : List Packet :=
  ((r.state.delivered.filter fun d => elemOf d.pkt.src = src ∧ d.port = dst).map
    Delivery.pkt).reverse

/-- The packets accepted from element `src` for element `dst`, oldest first. -/
def acceptedFrom (r : Run C) (src dst : Nat) : List Packet :=
  (r.accepted.filter fun x => elemOf x.src = src ∧ dest x = dst).reverse

/-- Packets from one element to another are delivered in the order of their acceptance. -/
theorem OfSize.in_order (hb : OfSize L b) {r : Run C} (h : r.Reachable b) (src dst : Nat) :
    deliveredFrom r src dst <+: acceptedFrom r src dst := by
  have hr := hb.reachable_ordered h
  have hport : ∀ d ∈ r.state.delivered, d.port = dest d.pkt := by
    intro d hd
    have hrouted := hr.routed.delivered (.out 0 0 d.port, d.pkt)
      (Multiset.mem_map_of_mem _ (Multiset.mem_coe.2 hd))
    have htop := placed_top hrouted.1 hrouted.2
    simpa using htop
  have hprefix := hr.order.prefix_of (src, dst)
  have haccepted : ofFlow flowOf (src, dst) r.accepted.reverse = acceptedFrom r src dst := by
    simp only [ofFlow, acceptedFrom, flowOf, Prod.mk.injEq, List.filter_reverse]
  have hdelivered : ofFlow flowOf (src, dst) (r.state.delivered.map Delivery.pkt).reverse =
      deliveredFrom r src dst := by
    simp only [ofFlow, deliveredFrom, flowOf, Prod.mk.injEq, List.filter_reverse, List.filter_map]
    congr 2
    refine List.filter_congr fun d hd => ?_
    simp [hport d hd]
  rwa [haccepted, hdelivered] at hprefix

end Runs

/-! ## Ports that are not connected -/

/-- The same butterfly with a component at every port. -/
def filled (b : FatBfly C) (comp : C) : FatBfly C :=
  { b with send := fun e => some ((b.send e).getD comp) }

/-- A clock that succeeds sends to connected ports only. -/
theorem fatBflyClock_filled {comp : C} {answer : Nat → Stat}
    (h : b.fatBflyClock answer s = some s') : (b.filled comp).fatBflyClock answer s = some s' := by
  obtain ⟨t, hsend, h⟩ := Option.bind_eq_some_iff.1 h
  have hout : ∀ l : List Nat, ∀ {u}, l.foldlM (b.sendOut answer) u = some t →
      l.foldlM ((b.filled comp).sendOut answer) u = some t := by
    intro l
    induction l with
    | nil => exact fun hl => hl
    | cons i l ih =>
        intro u hl
        rw [List.foldlM_cons] at hl ⊢
        obtain ⟨v, hi, hl⟩ := Option.bind_eq_some_iff.1 hl
        have hi' : (b.filled comp).sendOut answer u i = some v := by
          unfold sendOut at hi ⊢
          have hread : (b.filled comp).read u (.out 0 0 i) = b.read u (.out 0 0 i) := rfl
          rw [hread]
          cases hport : b.send i with
          | some c =>
              have hfilled : (b.filled comp).send i = some c := by simp [filled, hport]
              rw [hport] at hi
              rwa [hfilled]
          | none =>
              -- the assertion of `send` allows no packet here
              obtain ⟨out, hout, hi⟩ := Option.bind_eq_some_iff.1 hi
              refine Option.bind_eq_some_iff.2 ⟨out, hout, ?_⟩
              rw [hport] at hi
              cases hbusy : out.busy with
              | false => simpa [hbusy] using hi
              | true => simp [hbusy] at hi
        rw [hi']
        exact ih hl
  refine Option.bind_eq_some_iff.2 ⟨t, hout _ hsend, h⟩

section Runs

variable [DecidableEq C]

/-- A step of a run is one of the butterfly with all elements connected. -/
theorem Run.Step.filled {comp : C} {r r' : Run C} (hstep : Run.Step b r r') :
    Run.Step (b.filled comp) r r' := by
  cases hstep with
  | clock answer hanswer s' h => exact .clock answer hanswer s' (fatBflyClock_filled h)
  | receive sender pkt haddr ret s' h =>
      have hrecv : (b.filled comp).fatBflyReceive r.state sender pkt = some (ret, s') := by
        obtain ⟨_, helem, h⟩ := Option.bind_eq_some_iff.1 h
        obtain ⟨_, hport, h⟩ := Option.bind_eq_some_iff.1 h
        have hport' : b.send (elemOf pkt.src) = some sender := by simpa using hport
        refine Option.bind_eq_some_iff.2 ⟨(), helem, Option.bind_eq_some_iff.2 ⟨(), ?_, h⟩⟩
        simp [FatBfly.filled, hport']
      have haddr' : dest pkt < (b.filled comp).elems.toNat := haddr
      exact .receive sender pkt haddr' ret s' hrecv

/-- If no clock succeeds, nothing is delivered. -/
theorem delivered_eq_nil
    (hclock : ∀ (answer : Nat → Stat) (s : State C), b.fatBflyClock answer s = none)
    {r : Run C} (h : r.Reachable b) : r.state.delivered = [] := by
  induction h with
  | refl => rfl
  | tail _ hstep ih =>
      cases hstep with
      | clock answer hanswer s' h =>
          rw [hclock] at h
          cases h
      | receive sender pkt haddr ret s' h =>
          obtain ⟨-, -, ⟨-, rfl⟩ | ⟨-, -, rfl⟩⟩ := fatBflyReceive_cases h
          · exact ih
          · exact ih

/-- In-order delivery in the fat butterfly over `2 ^ L` elements: on every run, whatever components
are connected to its ports, the packets delivered from one element to another are the first ones
accepted from the one for the other, in the same order. With `2 ^ 31` elements no clock succeeds. -/
theorem fatBfly_in_order (L : Nat) (hL : 1 ≤ L) (hL' : L < 32) (b : FatBfly C)
    (hcreate : createFatBfly (BitVec.ofNat 32 (2 ^ L)) = some b) (send : Nat → Option C) (r : Run C)
    (h : r.Reachable { b with send }) (src dst : Nat) :
    deliveredFrom r src dst <+: acceptedFrom r src dst := by
  obtain rfl := Option.some.inj (hcreate.symm.trans (createFatBfly_two_pow hL hL'))
  have hpow : (BitVec.ofNat 32 (2 ^ L)).toNat = 2 ^ L :=
    Nat.mod_eq_of_lt (Nat.pow_lt_pow_right (by decide) hL')
  have hnone : r.state.delivered = [] → deliveredFrom r src dst <+: acceptedFrom r src dst := by
    intro hnil
    simp [deliveredFrom, hnil]
  by_cases hle : L ≤ 30
  · cases hd : r.state.delivered with
    | nil => exact hnone hd
    | cons d l =>
        -- a packet was delivered, so there is a component
        have hb : OfSize L (({ elems := BitVec.ofNat 32 (2 ^ L), send, layers := L } :
            FatBfly C).filled d.comp) :=
          ⟨hL, hle, hpow, rfl, fun e _ => rfl⟩
        exact hb.in_order (ReflTransGen.mono (fun _ _ hstep => hstep.filled) _ _ h) src dst
  · obtain rfl : L = 31 := by omega
    have hwrap : (2 : BitVec 32) * BitVec.ofNat 32 (2 ^ 31) = 0 := by decide
    refine hnone (delivered_eq_nil (fun answer s => ?_) h)
    exact fatBflyClock_wrapped (hpow ▸ Nat.two_pow_pos 31) hwrap answer

/-- A packet from element 0 to element 1. -/
def crossing : Packet := { Packet.zero with dst := 1 <<< 32 }

/-- It is delivered by the third clock. -/
theorem crossing_reachable : ∃ r : Run Unit,
    r.Reachable { elems := BitVec.ofNat 32 (2 ^ 1), send := fun _ => some (), layers := 1 } ∧
    r.state.delivered.map Delivery.pkt = [crossing] := by
  have hinit : (⟨.init, []⟩ : Run Unit).Reachable
    { elems := BitVec.ofNat 32 (2 ^ 1), send := fun _ => some (), layers := 1 } := .refl
  have hin := hinit.tail (.receive () crossing (by decide) .OK _ rfl)
  have hfirst := hin.tail (.clock (fun _ => .OK) (fun _ => Or.inl rfl) _ rfl)
  have hsecond := hfirst.tail (.clock (fun _ => .OK) (fun _ => Or.inl rfl) _ rfl)
  have hthird := hsecond.tail (.clock (fun _ => .OK) (fun _ => Or.inl rfl) _ rfl)
  exact ⟨_, hthird, rfl⟩

/-- `fatBfly_in_order` on that run. -/
theorem fatBfly_in_order_crossing : ∃ r : Run Unit,
    r.state.delivered.map Delivery.pkt = [crossing] ∧
    deliveredFrom r 0 1 <+: acceptedFrom r 0 1 := by
  obtain ⟨r, hr, hdelivered⟩ := crossing_reachable
  exact ⟨r, hdelivered, fatBfly_in_order 1 (by decide) (by decide) _
    (createFatBfly_two_pow (by decide) (by decide)) (fun _ => some ()) r hr 0 1⟩

end Runs

end Gran.FatBfly
