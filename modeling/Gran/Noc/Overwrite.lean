import Gran.Foundations.Fold
import Gran.Noc.IdealNoc

/-!
# When the ideal network overwrites a packet

To each element the network is two places in a row, and `Slot` says what a clock does to them: the
packet in the first one replaces whatever is in the second. The stamps that should prevent this are
all the count of a clock that is never advanced. `idealNoc_loses_nothing` says that a run loses
nothing exactly if no clock began with a packet behind a refused one.
-/

namespace Gran.Noc

variable {C : Type} {n : Noc C}

/-! ## The two places of an element -/

/-- What the network holds for one element, and what it delivered to it. -/
structure Slot where
  inn : Option Packet
  out : Option Packet
  delivered : List Packet

/-- The packet behind replaces the one in front. -/
def Slot.forward (v : Slot) : Slot :=
  match v.inn with
  | none => v
  | some pkt => ⟨none, some pkt, v.delivered⟩

/-- The packet in front leaves, unless it is refused. -/
def Slot.deliver (refused : Bool) (v : Slot) : Slot :=
  match v.out with
  | none => v
  | some pkt => if refused then v else ⟨v.inn, none, v.delivered ++ [pkt]⟩

/-- Both places are occupied. -/
def Slot.Behind (v : Slot) : Bool := v.inn.isSome && v.out.isSome

/-- Of the packets accepted for an element, `lost` are missing, and if none is, the others are in
order. -/
structure Slot.Balanced (accepted : List Packet) (lost : Nat) (v : Slot) : Prop where
  length : accepted.length =
    v.delivered.length + v.out.toList.length + v.inn.toList.length + lost
  order : lost = 0 → accepted = v.delivered ++ v.out.toList ++ v.inn.toList

/-- A packet enters a free slot. -/
theorem Slot.Balanced.enter {accepted : List Packet} {lost : Nat} {v : Slot}
    (h : v.Balanced accepted lost) (hfree : v.inn = none) (pkt : Packet) :
    Balanced (accepted ++ [pkt]) lost { v with inn := some pkt } := by
  obtain ⟨hlength, horder⟩ := h
  rw [hfree] at hlength horder
  refine ⟨?_, fun h0 => ?_⟩
  · simp only [List.length_append, hlength, Option.toList_none, Option.toList_some, List.length_nil,
      List.length_cons]
    omega
  · rw [horder h0, Option.toList_none, List.append_nil, Option.toList_some]

/-- A packet goes on, over one that is still there if the slot is behind. -/
theorem Slot.Balanced.forward {accepted : List Packet} {lost : Nat} {v : Slot}
    (h : v.Balanced accepted lost) :
    v.forward.Balanced accepted (lost + if v.Behind then 1 else 0) := by
  obtain ⟨hlength, horder⟩ := h
  obtain ⟨inn, out, delivered⟩ := v
  cases inn with
  | none =>
      exact ⟨by simpa [Behind, Slot.forward] using hlength,
        by simpa [Behind, Slot.forward] using horder⟩
  | some pkt =>
      cases out with
      | none =>
          refine ⟨by simpa [Behind, Slot.forward] using hlength, fun h0 => ?_⟩
          simpa [Behind, Slot.forward] using horder (by simpa [Behind] using h0)
      | some pkt' =>
          -- the packet in front is lost
          refine ⟨?_, fun h0 => ?_⟩
          · simp only [Slot.forward, Behind, Option.isSome_some, Bool.and_self, if_true,
              Option.toList_some, Option.toList_none, List.length_cons,
              List.length_nil] at hlength ⊢
            omega
          · simp [Behind] at h0

/-- A packet is delivered or refused. -/
theorem Slot.Balanced.deliver {accepted : List Packet} {lost : Nat} {v : Slot}
    (h : v.Balanced accepted lost) (hinn : v.inn = none) (refused : Bool) :
    (v.deliver refused).Balanced accepted lost := by
  obtain ⟨hlength, horder⟩ := h
  obtain ⟨inn, out, delivered⟩ := v
  obtain rfl : inn = none := hinn
  cases out with
  | none => exact ⟨hlength, horder⟩
  | some pkt =>
      cases refused with
      | true => exact ⟨hlength, horder⟩
      | false =>
          refine ⟨by simpa [Slot.deliver, Nat.add_assoc] using hlength, fun h0 => ?_⟩
          simpa [Slot.deliver] using horder h0

/-! ## The registers as places -/

/-- What the network holds for an element and delivered to it. -/
def view (i : Fin n.elems) (s : State n) : Slot :=
  ⟨(s.inn i).held, (s.out i).held, n.forElem i (s.delivered.map Delivery.pkt)⟩

/-- The registers of an element hold packets for it, no packet is stamped with anything but the
count of a clock that never advances, and what was delivered went to its component. -/
structure Placed (s : State n) : Prop where
  counter : s.counter = 0
  inn : ∀ {i pkt}, (s.inn i).held = some pkt → n.dest pkt = some i ∧ pkt.timestamp = 0
  out : ∀ {i pkt}, (s.out i).held = some pkt → n.dest pkt = some i ∧ pkt.timestamp = 0
  delivered : ∀ d ∈ s.delivered, ∃ i, n.dest d.pkt = some i ∧ n.lower i = some d.comp

/-- What registers hold after one is written. -/
theorem held_update {m : Nat} (regs : Fin m → Reg) (i j : Fin m) (r : Reg) :
    (Function.update regs i r j).held = if j = i then r.held else (regs j).held := by
  by_cases h : j = i
  · rw [h, Function.update_self, if_pos rfl]
  · rw [Function.update_of_ne h, if_neg h]

/-- A placed input register moves onto the output register of its element, whatever that holds. -/
theorem forward_spec {s : State n} (hs : Placed s) (i : Fin n.elems) :
    ∃ s', forward s i = some s' ∧ Placed s' ∧
      ∀ j, view j s' = if i = j then (view j s).forward else view j s := by
  cases hbusy : (s.inn i).busy with
  | false =>
      refine ⟨s, by simp [forward, hbusy], hs, fun j => ?_⟩
      have hfree : (s.inn i).held = none := Reg.held_eq_none.2 hbusy
      split
      case isTrue hij => subst hij; simp only [view, hfree, Slot.forward]
      case isFalse => rfl
  | true =>
      have hheld : (s.inn i).held = some (s.inn i).pkt := Reg.held_eq_some.2 ⟨hbusy, rfl⟩
      obtain ⟨hdest, hstamp⟩ := hs.inn hheld
      -- an older packet would have a smaller stamp
      have hguard : ((s.out i).busy &&
          decide ((s.out i).pkt.timestamp < (s.inn i).pkt.timestamp)) = false := by
        rw [hstamp]
        simp
      have hforward : forward s i = some { s with
          out := Function.update s.out i ⟨(s.inn i).pkt, true⟩
          inn := Function.update s.inn i { s.inn i with busy := false } } := by
        simp only [forward, hbusy, if_true, hdest, Option.bind_eq_bind, Option.bind_some, hguard]
        rfl
      refine ⟨_, hforward, ⟨hs.counter, ?_, ?_, hs.delivered⟩, fun j => ?_⟩
      · intro j pkt hj
        rw [held_update] at hj
        split at hj
        case isTrue => cases hj
        case isFalse => exact hs.inn hj
      · intro j pkt hj
        rw [held_update] at hj
        split at hj
        case isTrue hji =>
            subst hji
            obtain rfl := Option.some.inj hj
            exact ⟨hdest, hstamp⟩
        case isFalse => exact hs.out hj
      · simp only [view, held_update]
        split
        case isTrue hij => subst hij; simp [hheld, Slot.forward]
        case isFalse hij => simp [Ne.symm hij]

/-- A placed output register is sent to the component of its element. -/
theorem deliver_spec {answer : Fin n.elems → Stat}
    (hanswer : ∀ i, answer i = .OK ∨ answer i = .EBUSY)
    (hconn : ∀ i, (n.lower i).isSome = true) {s : State n} (hs : Placed s) (i : Fin n.elems) :
    ∃ s', deliver answer s i = some s' ∧ Placed s' ∧
      ∀ j, view j s' =
        if i = j then (view j s).deliver (decide (answer j = .EBUSY)) else view j s := by
  cases hbusy : (s.out i).busy with
  | false =>
      refine ⟨s, by simp [deliver, hbusy], hs, fun j => ?_⟩
      have hfree : (s.out i).held = none := Reg.held_eq_none.2 hbusy
      split
      case isTrue hij => subst hij; simp only [view, hfree, Slot.deliver]
      case isFalse => rfl
  | true =>
      have hheld : (s.out i).held = some (s.out i).pkt := Reg.held_eq_some.2 ⟨hbusy, rfl⟩
      obtain ⟨hdest, -⟩ := hs.out hheld
      obtain ⟨lower, hlower⟩ := Option.isSome_iff_exists.1 (hconn i)
      rcases hanswer i with hans | hans
      · have hdeliver : deliver answer s i = some { s with
            out := Function.update s.out i { s.out i with busy := false }
            delivered := s.delivered ++ [⟨lower, (s.out i).pkt⟩] } := by
          simp [deliver, hbusy, hdest, hlower, hans]
        refine ⟨_, hdeliver, ⟨hs.counter, hs.inn, ?_, ?_⟩, fun j => ?_⟩
        · intro j pkt hj
          rw [held_update] at hj
          split at hj
          case isTrue => cases hj
          case isFalse => exact hs.out hj
        · intro d hd
          rcases List.mem_append.1 hd with hd | hd
          · exact hs.delivered d hd
          · rw [List.mem_singleton.1 hd]
            exact ⟨i, hdest, hlower⟩
        · simp only [view, held_update, forElem, List.map_append, List.filter_append]
          split
          case isTrue hij => subst hij; simp [hheld, hdest, hans, Slot.deliver]
          case isFalse hij => simp [Ne.symm hij, hdest]
      · refine ⟨s, by simp [deliver, hbusy, hdest, hlower, hans], hs, fun j => ?_⟩
        split
        case isTrue hij => subst hij; simp [view, hheld, hans, Slot.deliver]
        case isFalse => rfl

/-- A clock serves every element alike. -/
theorem clock_spec (hlat : n.latency = 0 ∨ n.latency = 1) {answer : Fin n.elems → Stat}
    (hanswer : ∀ i, answer i = .OK ∨ answer i = .EBUSY)
    (hconn : ∀ i, (n.lower i).isSome = true) {s : State n} (hs : Placed s) :
    ∃ s', clock answer s = some s' ∧ Placed s' ∧
      ∀ i, view i s' = ((view i s).forward).deliver (decide (answer i = .EBUSY)) := by
  have hcounter : (if n.latency = 0 then 0 else (s.counter + 1) % n.latency) = 0 := by
    rw [hs.counter]
    rcases hlat with h | h <;> rw [h] <;> rfl
  obtain ⟨t, ht, hplaced⟩ := Fold.foldlM_some Placed (l := List.finRange n.elems)
    (fun s i _ hs => by
      obtain ⟨s', hs', hplaced, -⟩ := forward_spec hs i
      exact ⟨s', hs', hplaced⟩) hs
  obtain ⟨u, hu, hplaced'⟩ := Fold.foldlM_some Placed (l := List.finRange n.elems)
    (fun s i _ hs => by
      obtain ⟨s', hs', hplaced, -⟩ := deliver_spec hanswer hconn hs i
      exact ⟨s', hs', hplaced⟩) hplaced
  refine ⟨u, by simp only [clock, hcounter]; simp [ht, hu], hplaced', fun i => ?_⟩
  have hforward := Fold.foldlM_focus Placed (view i) Slot.forward i (List.nodup_finRange _)
    (fun s j s' _ hs h => by
      obtain ⟨s'', hs'', hplaced, hview⟩ := forward_spec hs j
      obtain rfl := Option.some.inj (hs''.symm.trans h)
      exact ⟨hplaced, hview i⟩) hs ht
  have hdeliver := Fold.foldlM_focus Placed (view i) (Slot.deliver (decide (answer i = .EBUSY))) i
    (List.nodup_finRange _)
    (fun s j s' _ hs h => by
      obtain ⟨s'', hs'', hplaced, hview⟩ := deliver_spec hanswer hconn hs j
      obtain rfl := Option.some.inj (hs''.symm.trans h)
      exact ⟨hplaced, hview i⟩) hplaced hu
  rw [hdeliver, if_pos (List.mem_finRange i), hforward, if_pos (List.mem_finRange i)]

/-- An accepted packet goes to the free input register of its element. -/
theorem receive_spec {s s' : State n} (hs : Placed s) {pkt : Packet} {ret : Stat}
    (h : receive s pkt = some (ret, s')) :
    ret ≠ .OK ∧ s' = s ∨
      ret = .OK ∧ Placed s' ∧ ∃ i, n.dest pkt = some i ∧ (s.inn i).held = none ∧
        ∀ j, view j s' = if i = j then
          { view j s with inn := some { pkt with timestamp := s.counter } } else view j s := by
  simp only [receive, Option.bind_eq_bind, Option.bind_eq_some_iff] at h
  obtain ⟨i, hdest, h⟩ := h
  split at h
  · cases h
    exact Or.inl ⟨by decide, rfl⟩
  · rename_i hbusy
    cases h
    refine Or.inr ⟨rfl, ⟨hs.counter, ?_, hs.out, hs.delivered⟩, i, hdest,
      Reg.held_eq_none.2 (by simpa using hbusy), fun j => ?_⟩
    · intro j pkt' hj
      rw [held_update] at hj
      split at hj
      case isTrue hji =>
          subst hji
          obtain rfl := Option.some.inj hj
          exact ⟨hdest, hs.counter⟩
      case isFalse => exact hs.inn hj
    · simp only [view, held_update]
      split
      case isTrue hij => subst hij; simp
      case isFalse hij => simp [Ne.symm hij]

/-! ## Runs -/

/-- The packets for an element of two lists. -/
theorem forElem_append (i : Fin n.elems) (l l' : List Packet) :
    n.forElem i (l ++ l') = n.forElem i l ++ n.forElem i l' := List.filter_append ..

/-- A packet is for its destination. -/
theorem forElem_of_dest {i : Fin n.elems} {pkt : Packet} (h : n.dest pkt = some i) :
    n.forElem i [pkt] = [pkt] := by
  simp [forElem, h]

/-- A packet is for no other element. -/
theorem forElem_of_ne {i j : Fin n.elems} {pkt : Packet} (h : n.dest pkt = some i) (hij : i ≠ j) :
    n.forElem j [pkt] = [] := by
  simp [forElem, h, hij]

/-- How many clocks began with a packet for an element behind another one. -/
def overwritten (i : Fin n.elems) (clocked : List (State n)) : Nat :=
  clocked.countP fun s => (view i s).Behind

/-- What every run keeps: placed registers, accepted packets that are for some element, and a
balance for each element. -/
structure Run.Accounted (r : Run n) : Prop where
  placed : Placed r.state
  dest : ∀ pkt ∈ r.accepted, (n.dest pkt).isSome = true
  balanced : ∀ i, (view i r.state).Balanced (n.forElem i r.accepted) (overwritten i r.clocked)

/-- A step accounts for every packet, lost or not. -/
theorem Run.Step.accounted (hlat : n.latency = 0 ∨ n.latency = 1)
    (hconn : ∀ i, (n.lower i).isSome = true) {r r' : Run n} (h : r.Step r') (hr : r.Accounted) :
    r'.Accounted := by
  cases h with
  | receive pkt ret s' h =>
      rcases receive_spec hr.placed h with ⟨hret, rfl⟩ | ⟨rfl, hplaced, i, hdest, hfree, hview⟩
      · rw [if_neg hret]
        exact hr
      · rw [if_pos rfl]
        refine ⟨hplaced, fun x hx => ?_, fun j => ?_⟩
        · rcases List.mem_append.1 hx with hx | hx
          · exact hr.dest x hx
          · obtain rfl := List.mem_singleton.1 hx
            exact Option.isSome_iff_exists.2 ⟨i, hdest⟩
        · have hj := hr.balanced j
          -- the stamp does not change where the packet goes
          have hstamped : n.dest { pkt with timestamp := r.state.counter } = some i := hdest
          show (view j s').Balanced (n.forElem j (r.accepted ++ _)) _
          rw [hview j, forElem_append]
          by_cases hij : i = j
          · subst hij
            rw [if_pos rfl, forElem_of_dest hstamped]
            exact hj.enter hfree _
          · rw [if_neg hij, forElem_of_ne hstamped hij, List.append_nil]
            exact hj
  | clock answer hanswer s' h =>
      obtain ⟨t, ht, hplaced, hview⟩ := clock_spec hlat hanswer hconn hr.placed
      obtain rfl := Option.some.inj (ht.symm.trans h)
      refine ⟨hplaced, hr.dest, fun i => ?_⟩
      have hcount : overwritten i (r.clocked ++ [r.state]) =
          overwritten i r.clocked + if (view i r.state).Behind then 1 else 0 := by
        simp [overwritten, List.countP_append, List.countP_singleton]
      have hinn : (view i r.state).forward.inn = none := by
        unfold Slot.forward
        split
        case h_1 hnone => exact hnone
        case h_2 => rfl
      show (view i t).Balanced _ (overwritten i (r.clocked ++ [r.state]))
      rw [hview i, hcount]
      exact (hr.balanced i).forward.deliver hinn _

/-- Every reachable run accounts for every packet, lost or not. -/
theorem Run.Reachable.accounted (hlat : n.latency = 0 ∨ n.latency = 1)
    (hconn : ∀ i, (n.lower i).isSome = true) {r : Run n} (h : r.Reachable) : r.Accounted := by
  induction h with
  | refl =>
      have hplaced : Placed (State.init n) :=
        ⟨rfl, by simp [State.init], by simp [State.init], by simp [State.init]⟩
      exact ⟨hplaced, by simp [Run.init], fun i => ⟨rfl, fun _ => rfl⟩⟩
  | tail _ hstep ih => exact hstep.accounted hlat hconn ih

/-- Packets that are all for some element are the packets for each of them. -/
theorem sum_forElem {l : List Packet} (hdest : ∀ pkt ∈ l, (n.dest pkt).isSome = true) :
    (l : Multiset Packet) = ∑ i, (n.forElem i l : Multiset Packet) := by
  induction l with
  | nil => simp [forElem]
  | cons pkt l ih =>
      obtain ⟨i, hi⟩ := Option.isSome_iff_exists.1 (hdest pkt (by simp))
      have hcons : ∀ j, (n.forElem j (pkt :: l) : Multiset Packet) =
          (if j = i then {pkt} else 0) + (n.forElem j l : Multiset Packet) := by
        intro j
        rw [← List.singleton_append, forElem_append, ← Multiset.coe_add]
        by_cases hj : j = i
        · rw [if_pos hj, hj, forElem_of_dest hi]
          rfl
        · rw [if_neg hj, forElem_of_ne hi (Ne.symm hj)]
          rfl
      rw [Finset.sum_congr rfl fun j _ => hcons j, Finset.sum_add_distrib,
        ← ih fun x hx => hdest x (by simp [hx])]
      simp

/-- No clock began with a packet behind a refused one exactly if nothing was overwritten. -/
theorem neverBehind_iff {r : Run n} : NeverBehind r ↔ ∀ i, overwritten i r.clocked = 0 := by
  have hbehind : ∀ (i : Fin n.elems) (s : State n),
      (view i s).Behind = true ↔ (s.inn i).busy = true ∧ (s.out i).busy = true := by
    intro i s
    unfold Slot.Behind view Reg.held
    cases (s.inn i).busy <;> cases (s.out i).busy <;> simp
  simp only [NeverBehind, overwritten, List.countP_eq_zero, hbehind]
  exact ⟨fun h i s hs => h s hs i, fun h s hs i => h i s hs⟩

/-- The ideal network loses nothing under back-pressure, and delivers in order, exactly if no clock
of the run began with a packet in the input register of an element whose output register still held
one that the component had refused. The clock puts the newer packet in the place of the older. -/
theorem idealNoc_loses_nothing (hlat : n.latency = 0 ∨ n.latency = 1)
    (hconn : ∀ i, (n.lower i).isSome = true) {r : Run n} (h : r.Reachable) :
    LosesNothing r ↔ NeverBehind r := by
  obtain ⟨hplaced, hdest, hbalanced⟩ := h.accounted hlat hconn
  have hdelivered : ∀ pkt ∈ r.state.delivered.map Delivery.pkt, (n.dest pkt).isSome = true := by
    intro pkt hpkt
    obtain ⟨d, hd, rfl⟩ := List.mem_map.1 hpkt
    obtain ⟨i, hi, -⟩ := hplaced.delivered d hd
    exact Option.isSome_iff_exists.2 ⟨i, hi⟩
  rw [neverBehind_iff]
  constructor
  · intro hloses
    -- count the packets on both sides, element by element
    have hcard := congrArg Multiset.card hloses.conserved
    rw [sum_forElem hdest, sum_forElem hdelivered, registers, ← Finset.sum_add_distrib,
      Multiset.card_sum, Multiset.card_sum] at hcard
    have hlength : ∀ i, (n.forElem i r.accepted).length =
        ((r.state.inn i).held.toList + (r.state.out i).held.toList +
          n.forElem i (r.state.delivered.map Delivery.pkt) : Multiset Packet).card +
          overwritten i r.clocked := by
      intro i
      rw [(hbalanced i).length]
      simp only [view, Multiset.card_add, Multiset.coe_card]
      omega
    simp only [Multiset.coe_card, hlength, Finset.sum_add_distrib] at hcard
    have hzero : ∑ i, overwritten i r.clocked = 0 := by omega
    intro i
    exact Finset.sum_eq_zero_iff.1 hzero i (Finset.mem_univ i)
  · intro hzero
    have horder := fun i => (hbalanced i).order (hzero i)
    refine ⟨?_, hplaced.delivered, fun i => ?_⟩
    · rw [sum_forElem hdest, sum_forElem hdelivered, registers, ← Finset.sum_add_distrib]
      refine Finset.sum_congr rfl fun i _ => ?_
      rw [horder i]
      simp only [view, ← Multiset.coe_add]
      rw [add_assoc, add_comm, add_comm (Multiset.ofList (r.state.out i).held.toList)]
    · rw [horder i, List.append_assoc]
      exact List.prefix_append _ _

/-- A network of one element. -/
def single : Noc Unit := { (createIdealNoc 1 0 : Noc Unit) with lower := fun _ => some () }

/-- The component of `single` refuses everything. -/
theorem single_refuses (i : Fin single.elems) :
    (fun _ => Stat.EBUSY) i = .OK ∨ (fun _ => Stat.EBUSY) i = .EBUSY := Or.inr rfl

/-- `idealNoc_loses_nothing` when a component refuses a packet with none behind it. -/
theorem idealNoc_loses_nothing_single : ∃ r : Run single, r.accepted = [.zero] ∧
    r.clocked.length = 1 ∧ LosesNothing r := by
  have hinit : (Run.init single).Reachable := .refl
  have hfirst := hinit.tail (.receive .zero .OK _ rfl)
  have hrun := hfirst.tail (.clock (fun _ => .EBUSY) single_refuses _ rfl)
  refine ⟨_, rfl, rfl, (idealNoc_loses_nothing (Or.inl rfl) (fun _ => rfl) hrun).2 ?_⟩
  intro s hs i
  obtain rfl := List.mem_singleton.1 hs
  rintro ⟨-, hout⟩
  cases hout

/-- A packet accepted behind a refused one replaces it: two packets were accepted, one is left, and
none was delivered. -/
theorem idealNoc_overwrites : ∃ r : Run single, r.Reachable ∧ ¬ LosesNothing r := by
  have hinit : (Run.init single).Reachable := .refl
  have hfirst := hinit.tail (.receive .zero .OK _ rfl)
  have hrefused := hfirst.tail (.clock (fun _ => .EBUSY) single_refuses _ rfl)
  have hsecond := hrefused.tail (.receive { Packet.zero with mask := 1 } .OK _ rfl)
  have hrun := hsecond.tail (.clock (fun _ => .EBUSY) single_refuses _ rfl)
  refine ⟨_, hrun, fun h => ?_⟩
  have hcard := congrArg Multiset.card h.conserved
  rw [registers, Multiset.card_add, Multiset.card_sum] at hcard
  exact absurd hcard (by decide)

end Gran.Noc
