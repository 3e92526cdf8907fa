import Gran.Simt.Table
import Gran.Foundations.Fold

/-!
# The invariant of a request table

A slot is `Active` when its request is queued or in flight. `Inv` says that for each address that
some busy slot reads there is exactly one active slot that reads it: nothing in the table records
which slot that is. `Inv.piggyback`, `Inv.enqueue`, `Inv.send` and `simtRiscv64HandleResponse_inv`
say that every operation keeps it, whatever reply comes next.
-/

namespace Gran.SimtIntf

open Simt

variable {C : Type} {c : SimtIntf C} {V : Type}

/-- A memory that answers `answer` to what it is sent. The state holds the requests it accepted and
has not answered, oldest first. -/
def memPorts (answer : Packet → Stat) : Ports (List Packet) where
  mem pkt flight := some (answer pkt, if answer pkt = .OK then flight ++ [pkt] else flight)
  lane _ _ _ := none

/-- Lanes that accept every reply, each changing its own state by `f`. -/
def lanePorts (f : Nat → Packet → V → V) : Ports (Nat → V) where
  mem _ _ := none
  lane i pkt lanes := some (.OK, Function.update lanes i (f i pkt (lanes i)))

/-- The request of slot `i` as it was sent to memory. -/
def sentPacket (c : SimtIntf C) (reqs : Reqs) (i : Nat) : Packet :=
  extPacket (c.rcv ||| BitVec.ofNat 64 i) (reqs i).reg.pkt

/-- The request of a slot is queued or in flight. -/
def Active (reqs : Reqs) (flying : List Nat) (i : Nat) : Prop :=
  (reqs i).queued = true ∨ i ∈ flying

/-- The slots `flying` are those whose request is in flight, oldest first. -/
structure Inv (c : SimtIntf C) (reqs : Reqs) (flight : List Packet) (flying : List Nat) : Prop where
  flight : flight = flying.map (c.sentPacket reqs)
  nodup : flying.Nodup
  sent : ∀ i ∈ flying, (reqs i).reg.busy = true ∧ (reqs i).queued = false
  queued : ∀ i, (reqs i).queued = true → (reqs i).reg.busy = true
  request : ∀ i, (reqs i).reg.busy = true →
    i < c.numLanes ∧ laneOf (reqs i).reg.pkt.src = i ∧ isSet (reqs i).reg.pkt PACKET_ERROR = false
  write : ∀ i, (reqs i).reg.busy = true → isSet (reqs i).reg.pkt PACKET_READ = false →
    Active reqs flying i
  leader : ∀ i, (reqs i).reg.busy = true → isSet (reqs i).reg.pkt PACKET_READ = true →
    ∃ j, Active reqs flying j ∧ SameRead (reqs j).reg.pkt (reqs i).reg.pkt
  unique : ∀ i j, Active reqs flying i → Active reqs flying j →
    SameRead (reqs i).reg.pkt (reqs j).reg.pkt → i = j

/-- The invariant holds of an empty table. -/
theorem inv_init : Inv c (fun _ => .empty) [] [] where
  flight := rfl
  nodup := List.nodup_nil
  sent _ h := by cases h
  queued _ h := by cases h
  request _ h := by cases h
  write _ h := by cases h
  leader _ h := by cases h
  unique _ _ h := by rcases h with h | h <;> cases h

variable {reqs : Reqs} {flight : List Packet} {flying : List Nat}

/-- Slots of lanes are inside of the table. -/
theorem reqsAt_of_lt {i : Nat} (h : i < c.numLanes) : c.reqsAt reqs i = some (reqs i) := by
  simp [reqsAt, h]

/-- The packets in flight only depend on the requests of their slots. -/
theorem map_sentPacket_congr {reqs' : Reqs} {l : List Nat}
    (h : ∀ i ∈ l, (reqs' i).reg.pkt = (reqs i).reg.pkt) :
    l.map (c.sentPacket reqs') = l.map (c.sentPacket reqs) :=
  List.map_congr_left fun i hi => by rw [sentPacket, sentPacket, h i hi]

/-- An active slot is busy. -/
theorem Inv.busy_of_active (hs : Inv c reqs flight flying) {i : Nat} (h : Active reqs flying i) :
    (reqs i).reg.busy = true :=
  h.elim (hs.queued i) fun h => (hs.sent i h).1

/-! ## Requests -/

section Store

variable (hs : Inv c reqs flight flying) {i : Nat} {pkt : Packet}
  (hfree : (reqs i).reg.busy = false) (hi : i < c.numLanes) (haddr : laneOf pkt.src = i)
  (herror : isSet pkt PACKET_ERROR = false)
include hs hfree

/-- A free slot is not active. -/
theorem Inv.not_active : ¬ Active reqs flying i := by
  intro h
  simp [hs.busy_of_active h] at hfree

/-- An active slot is not one that is free. -/
theorem Inv.ne_of_active {j : Nat} (h : Active reqs flying j) : j ≠ i := by
  rintro rfl
  exact hs.not_active hfree h

/-- Filling a free slot leaves the requests in flight as they are. -/
theorem Inv.flight_store (q : Bool) :
    flight = flying.map (c.sentPacket (Function.update reqs i ⟨⟨pkt, true⟩, q⟩)) := by
  rw [hs.flight]
  refine (map_sentPacket_congr fun j hj => ?_).symm
  rw [Function.update_of_ne (hs.ne_of_active hfree (Or.inr hj))]

include hi haddr herror in
/-- The busy slots hold requests of their lanes when one more is stored. -/
theorem Inv.request_store (q : Bool) (j : Nat)
    (hj : ((Function.update reqs i ⟨⟨pkt, true⟩, q⟩ : Reqs) j).reg.busy = true) :
    j < c.numLanes ∧ laneOf ((Function.update reqs i ⟨⟨pkt, true⟩, q⟩ : Reqs) j).reg.pkt.src = j ∧
      isSet ((Function.update reqs i ⟨⟨pkt, true⟩, q⟩ : Reqs) j).reg.pkt PACKET_ERROR = false := by
  by_cases h : j = i
  · subst h; simpa using ⟨hi, haddr, herror⟩
  · rw [Function.update_of_ne h] at hj ⊢; exact hs.request j hj

include hi haddr herror in
/-- A read may wait for another busy read of its address. -/
theorem Inv.piggyback
    (hpig : c.piggybacks (Function.update reqs i ⟨⟨pkt, true⟩, false⟩) i pkt = true) :
    Inv c (Function.update reqs i ⟨⟨pkt, true⟩, false⟩) flight flying := by
  have hactive : ∀ j, Active (Function.update reqs i ⟨⟨pkt, true⟩, false⟩) flying j ↔
      Active reqs flying j := by
    intro j
    by_cases h : j = i
    · subst h
      have hnot := hs.not_active hfree
      simp only [Active, not_or] at hnot
      simp [Active, hnot]
    · simp [Active, h]
  have hkeep : ∀ j, Active reqs flying j →
      (Function.update reqs i ⟨⟨pkt, true⟩, false⟩ : Reqs) j = reqs j := fun j hj =>
    Function.update_of_ne (hs.ne_of_active hfree hj) _ _
  obtain ⟨hread, k, -, hne, hbusy, hkread, hdst⟩ : isSet pkt PACKET_READ = true ∧
      ∃ k, k < c.numLanes ∧ k ≠ i ∧ (reqs k).reg.busy = true ∧
        isSet (reqs k).reg.pkt PACKET_READ = true ∧ pkt.dst = (reqs k).reg.pkt.dst := by
    simp only [piggybacks, Bool.and_eq_true, List.any_eq_true, List.mem_range, bne_iff_ne,
      beq_iff_eq] at hpig
    obtain ⟨hread, k, hk, ⟨⟨hne, hbusy⟩, hkread⟩, hdst⟩ := hpig
    rw [Function.update_of_ne hne] at hbusy hkread hdst
    exact ⟨hread, k, hk, hne, hbusy, hkread, hdst⟩
  refine ⟨hs.flight_store hfree false, hs.nodup, ?_, ?_,
    hs.request_store hfree hi haddr herror false,
    ?_, ?_, ?_⟩
  · intro j hj
    rw [hkeep j (Or.inr hj)]
    exact hs.sent j hj
  · intro j hj
    have hj' := (hactive j).1 (Or.inl hj)
    rw [hkeep j hj']
    exact hs.busy_of_active hj'
  · intro j hj hwrite
    by_cases h : j = i
    · subst h; simp [hread] at hwrite
    · rw [Function.update_of_ne h] at hj hwrite
      exact (hactive j).2 (hs.write j hj hwrite)
  · intro j hj hjread
    by_cases h : j = i
    · -- the leader of the read it waits for
      subst h
      obtain ⟨l, hl, hsame⟩ := hs.leader k hbusy hkread
      refine ⟨l, (hactive l).2 hl, ?_⟩
      rw [hkeep l hl, Function.update_self]
      exact ⟨hsame.left, hread, hsame.dst.trans hdst.symm⟩
    · rw [Function.update_of_ne h] at hj hjread ⊢
      obtain ⟨l, hl, hsame⟩ := hs.leader j hj hjread
      exact ⟨l, (hactive l).2 hl, by rwa [hkeep l hl]⟩
  · intro j k hj hk hsame
    rw [hactive] at hj hk
    rw [hkeep j hj, hkeep k hk] at hsame
    exact hs.unique j k hj hk hsame

include hi haddr herror in
/-- A request that waits for no other is queued. -/
theorem Inv.enqueue
    (hpig : c.piggybacks (Function.update reqs i ⟨⟨pkt, true⟩, false⟩) i pkt = false) :
    Inv c (Function.update reqs i ⟨⟨pkt, true⟩, true⟩) flight flying := by
  have hactive : ∀ j, Active (Function.update reqs i ⟨⟨pkt, true⟩, true⟩) flying j ↔
      j = i ∨ Active reqs flying j := by
    intro j
    by_cases h : j = i
    · subst h; simp [Active]
    · simp [Active, h]
  have hkeep : ∀ j, Active reqs flying j →
      (Function.update reqs i ⟨⟨pkt, true⟩, true⟩ : Reqs) j = reqs j := fun j hj =>
    Function.update_of_ne (hs.ne_of_active hfree hj) _ _
  -- no active slot reads the address, or the request would have waited for it
  have halone : ∀ j, Active reqs flying j → isSet pkt PACKET_READ = true →
      isSet (reqs j).reg.pkt PACKET_READ = true → pkt.dst ≠ (reqs j).reg.pkt.dst := by
    intro j hj hread hjread hdst
    have hne := hs.ne_of_active hfree hj
    have hbusy := hs.busy_of_active hj
    have htrue : c.piggybacks (Function.update reqs i ⟨⟨pkt, true⟩, false⟩) i pkt = true := by
      simp only [piggybacks, Bool.and_eq_true, List.any_eq_true, List.mem_range, bne_iff_ne,
        beq_iff_eq]
      refine ⟨hread, j, (hs.request j hbusy).1, ⟨⟨hne, ?_⟩, ?_⟩, ?_⟩ <;>
        rw [Function.update_of_ne hne]
      · exact hbusy
      · exact hjread
      · exact hdst
    rw [hpig] at htrue
    cases htrue
  refine ⟨hs.flight_store hfree true, hs.nodup, ?_, ?_, hs.request_store hfree hi haddr herror true,
    ?_, ?_, ?_⟩
  · intro j hj
    rw [hkeep j (Or.inr hj)]
    exact hs.sent j hj
  · intro j hj
    rcases (hactive j).1 (Or.inl hj) with rfl | hj'
    · simp
    · rw [hkeep j hj']; exact hs.busy_of_active hj'
  · intro j hj hwrite
    by_cases h : j = i
    · exact (hactive j).2 (Or.inl h)
    · rw [Function.update_of_ne h] at hj hwrite
      exact (hactive j).2 (Or.inr (hs.write j hj hwrite))
  · intro j hj hjread
    by_cases h : j = i
    · exact ⟨j, (hactive j).2 (Or.inl h), hjread, hjread, rfl⟩
    · rw [Function.update_of_ne h] at hj hjread ⊢
      obtain ⟨l, hl, hsame⟩ := hs.leader j hj hjread
      exact ⟨l, (hactive l).2 (Or.inr hl), by rwa [hkeep l hl]⟩
  · intro j k hj hk hsame
    rcases (hactive j).1 hj with rfl | hj' <;> rcases (hactive k).1 hk with rfl | hk'
    · rfl
    · rw [hkeep k hk', Function.update_self] at hsame
      exact absurd hsame.dst (halone k hk' hsame.left hsame.right)
    · rw [hkeep j hj', Function.update_self] at hsame
      exact absurd hsame.dst.symm (halone j hj' hsame.right hsame.left)
    · rw [hkeep j hj', hkeep k hk'] at hsame
      exact hs.unique j k hj' hk' hsame

end Store

/-- The memory accepts a queued request. -/
theorem Inv.send (hs : Inv c reqs flight flying) {i : Nat} (hqueued : (reqs i).queued = true) :
    Inv c (Function.update reqs i { reqs i with queued := false })
      (flight ++ [c.sentPacket reqs i]) (flying ++ [i]) := by
  have hbusy := hs.queued i hqueued
  have hnot : i ∉ flying := fun h => by simp [(hs.sent i h).2] at hqueued
  have hreg : ∀ j, ((Function.update reqs i { reqs i with queued := false } : Reqs) j).reg =
      (reqs j).reg := by
    intro j
    by_cases h : j = i
    · subst h; simp
    · rw [Function.update_of_ne h]
  have hactive : ∀ j,
      Active (Function.update reqs i { reqs i with queued := false }) (flying ++ [i]) j ↔
      Active reqs flying j := by
    intro j
    by_cases h : j = i
    · subst h; simp [Active, hqueued]
    · simp [Active, h]
  refine ⟨?_, ?_, ?_, ?_, ?_, ?_, ?_, ?_⟩
  · rw [map_sentPacket_congr fun j _ => congrArg Reg.pkt (hreg j), List.map_append, ← hs.flight]
    rfl
  · rw [← List.concat_eq_append]
    exact hs.nodup.concat hnot
  · intro j hj
    rw [hreg]
    by_cases h : j = i
    · subst h; exact ⟨hbusy, by simp⟩
    · rw [Function.update_of_ne h]
      exact hs.sent j (by simpa [h] using hj)
  · intro j hj
    rw [hreg]
    by_cases h : j = i
    · subst h; exact hbusy
    · rw [Function.update_of_ne h] at hj; exact hs.queued j hj
  · intro j hj
    rw [hreg] at hj ⊢
    exact hs.request j hj
  · intro j hj hwrite
    rw [hreg] at hj hwrite
    exact (hactive j).2 (hs.write j hj hwrite)
  · intro j hj hread
    rw [hreg] at hj hread ⊢
    obtain ⟨l, hl, hsame⟩ := hs.leader j hj hread
    exact ⟨l, (hactive l).2 hl, by rwa [hreg]⟩
  · intro j k hj hk hsame
    rw [hreg, hreg] at hsame
    exact hs.unique j k ((hactive j).1 hj) ((hactive k).1 hk) hsame

section Requests

variable [DecidableEq C] {W : Type} {ports : Ports W} {w : W} {sender : C} {pkt : Packet}

/-- What `simt_riscv64_receive` does with a request of a lane: it refuses it, lets it wait, or sends
it and queues it when the memory refuses. -/
theorem simtRiscv64Receive_lane (hmem : c.mem ≠ sender) (hi : laneOf pkt.src < c.numLanes)
    (hint : laneOf pkt.src < 2 ^ 31) :
    c.simtRiscv64Receive ports sender pkt reqs w =
      if (reqs (laneOf pkt.src)).reg.busy then some (.EBUSY, reqs, w)
      else if c.piggybacks (Function.update reqs (laneOf pkt.src) ⟨⟨pkt, true⟩, false⟩)
          (laneOf pkt.src) pkt then
        some (.OK, Function.update reqs (laneOf pkt.src) ⟨⟨pkt, true⟩, false⟩, w)
      else (ports.mem (extPacket (c.rcv ||| BitVec.ofNat 64 (laneOf pkt.src)) pkt) w).map fun x =>
        (x.1, Function.update reqs (laneOf pkt.src) ⟨⟨pkt, true⟩, x.1 = .EBUSY⟩, x.2) := by
  simp only [simtRiscv64Receive, if_neg hmem, hint, guard_true, reqsAt_of_lt hi,
    Option.bind_eq_bind, Option.bind_some, Option.pure_def, simtRiscv64ExtSend]
  split
  · rfl
  · split
    · rfl
    · cases ports.mem (extPacket (c.rcv ||| BitVec.ofNat 64 (laneOf pkt.src)) pkt) w with
      | none => rfl
      | some x =>
          obtain ⟨ret, w'⟩ := x
          by_cases h : ret = .EBUSY <;> simp [h]

/-- A lane whose index is no `int32_t` has no entry. -/
theorem simtRiscv64Receive_lt (hmem : c.mem ≠ sender) {x : Stat × Reqs × W}
    (h : c.simtRiscv64Receive ports sender pkt reqs w = some x) : laneOf pkt.src < 2 ^ 31 := by
  by_contra hint
  have hguard : (guard (laneOf pkt.src < 2 ^ 31) : Option Unit) = none := if_neg hint
  simp only [simtRiscv64Receive, if_neg hmem, hguard, Option.bind_eq_bind, Option.bind_none] at h
  cases h

/-- The invariant after a request of a lane, with the slot it filled. -/
theorem simtRiscv64Receive_inv {answer : Packet → Stat} (hs : Inv c reqs flight flying)
    (hanswer : ∀ pkt, answer pkt = .OK ∨ answer pkt = .EBUSY) (hmem : c.mem ≠ sender) {i : Nat}
    (haddr : laneOf pkt.src = i) (hi : i < c.numLanes) (hint : i < 2 ^ 31)
    (herror : isSet pkt PACKET_ERROR = false) :
    ∃ ret reqs' flight' flying', c.simtRiscv64Receive (memPorts answer) sender pkt reqs flight =
        some (ret, reqs', flight') ∧ (ret = .OK ∨ ret = .EBUSY) ∧ Inv c reqs' flight' flying' ∧
      flight <+: flight' ∧ if (reqs i).reg.busy then ret = .EBUSY ∧ reqs' = reqs ∧ flight' = flight
      else ∃ q, reqs' = Function.update reqs i ⟨⟨pkt, true⟩, q⟩ := by
  subst haddr
  rw [simtRiscv64Receive_lane hmem hi hint]
  cases hbusy : (reqs (laneOf pkt.src)).reg.busy with
  | true => exact ⟨_, _, _, flying, rfl, Or.inr rfl, hs, List.prefix_rfl, rfl, rfl, rfl⟩
  | false =>
      cases hpig : c.piggybacks (Function.update reqs (laneOf pkt.src) ⟨⟨pkt, true⟩, false⟩)
          (laneOf pkt.src) pkt with
      | true =>
          exact ⟨_, _, _, flying, rfl, Or.inl rfl, hs.piggyback hbusy hi rfl herror hpig,
            List.prefix_rfl, false, rfl⟩
      | false =>
          have henq := hs.enqueue hbusy hi rfl herror hpig
          rcases hanswer (extPacket (c.rcv ||| BitVec.ofNat 64 (laneOf pkt.src)) pkt)
            with hans | hans
          · refine ⟨.OK, Function.update reqs (laneOf pkt.src) ⟨⟨pkt, true⟩, false⟩, _,
              flying ++ [laneOf pkt.src], by simp [memPorts, hans]; rfl, Or.inl rfl, ?_,
              List.prefix_append _ _, false, rfl⟩
            -- as if it had been queued and then sent
            have hsend := henq.send (i := laneOf pkt.src) (by simp)
            simpa [Function.update_idem, sentPacket] using hsend
          · exact ⟨.EBUSY, _, flight, flying, by simp [memPorts, hans], Or.inr rfl, henq,
              List.prefix_rfl, true, rfl⟩

end Requests

/-! ## The clock -/

section Clock

variable {answer : Packet → Stat} (hanswer : ∀ pkt, answer pkt = .OK ∨ answer pkt = .EBUSY)
include hanswer

/-- Sending the request of a slot keeps the invariant. -/
theorem sendSlot_inv (hs : Inv c reqs flight flying) {i : Nat} (hi : i < c.numLanes) :
    ∃ ok reqs' flight' flying', c.sendSlot (memPorts answer) reqs flight i =
        some (ok, reqs', flight') ∧ (ok = .OK ∨ ok = .EBUSY) ∧ Inv c reqs' flight' flying' ∧
      flight <+: flight' ∧ ∀ j, (reqs' j).reg = (reqs j).reg := by
  simp only [sendSlot, reqsAt_of_lt hi, Option.bind_eq_bind, Option.bind_some, Option.pure_def]
  cases hqueued : (reqs i).queued with
  | false =>
      exact ⟨.OK, reqs, flight, flying, by simp, Or.inl rfl, hs, List.prefix_rfl, fun _ => rfl⟩
  | true =>
      have haddr := (hs.request i (hs.queued i hqueued)).2.1
      rcases hanswer (c.sentPacket reqs i) with hans | hans <;> unfold sentPacket at hans
      · refine ⟨.OK, Function.update reqs i { reqs i with queued := false }, _, flying ++ [i],
          by simp [simtRiscv64ExtSend, memPorts, haddr, hans, sentPacket], Or.inl rfl,
          hs.send hqueued,
          List.prefix_append _ _, fun j => ?_⟩
        by_cases h : j = i
        · subst h; simp
        · rw [Function.update_of_ne h]
      · exact ⟨.EBUSY, reqs, flight, flying, by simp [simtRiscv64ExtSend, memPorts, haddr, hans],
          Or.inr rfl, hs, List.prefix_rfl, fun _ => rfl⟩

/-- Sending the queued requests keeps the invariant. -/
theorem sendQueued_inv {l : List Nat} (hl : ∀ i ∈ l, i < c.numLanes)
    (hs : Inv c reqs flight flying) :
    ∃ reqs' flight' flying', c.sendQueued (memPorts answer) reqs flight l =
        some (.OK, reqs', flight') ∧ Inv c reqs' flight' flying' ∧
      flight <+: flight' ∧ ∀ j, (reqs' j).reg = (reqs j).reg := by
  induction l generalizing reqs flight flying with
  | nil => exact ⟨reqs, flight, flying, rfl, hs, List.prefix_rfl, fun _ => rfl⟩
  | cons i l ih =>
      obtain ⟨ok, reqs', flight', flying', hslot, hok, hs', hsub, hreg⟩ :=
        sendSlot_inv hanswer hs (hl i (by simp))
      obtain ⟨reqs'', flight'', flying'', hrest, hs'', hsub', hreg'⟩ :=
        ih (fun j hj => hl j (by simp [hj])) hs'
      refine ⟨reqs'', flight'', flying'', ?_, hs'', hsub.trans hsub',
        fun j => (hreg' j).trans (hreg j)⟩
      simp only [sendQueued, hslot, Option.bind_eq_bind, Option.bind_some, hok, if_true]
      exact hrest

end Clock

/-! ## Replies -/

/-- A slot whose register was freed. -/
def unbusy (r : Req) : Req := { r with reg := { r.reg with busy := false } }

/-- A slot that is not queued is free when it is not busy. -/
theorem unbusy_eq_freed {r : Req} (h : r.queued = false) : unbusy r = r.freed := by
  simp [unbusy, Req.freed, h]

/-- A broadcast answers no slot twice. -/
theorem hit_unbusy (pkt : Packet) (r : Req) : hit pkt (unbusy r) = false := by
  simp [hit, unbusy]

variable {f : Nat → Packet → V → V}

/-- What one iteration of the broadcast does. -/
theorem broadcastSlot_eq {pkt : Packet} {i : Nat} (hi : i < c.numLanes) (reqs : Reqs)
    (lanes : Nat → V) :
    c.broadcastSlot (lanePorts f) pkt (reqs, lanes) i = some (if hit pkt (reqs i) then
      (Function.update reqs i (unbusy (reqs i)),
        Function.update lanes i (f i (laneReply (reqs i) pkt) (lanes i))) else (reqs, lanes)) := by
  simp only [broadcastSlot, reqsAt_of_lt hi, Option.bind_eq_bind, Option.bind_some]
  by_cases hbusy : (reqs i).reg.busy = true
  · by_cases hdst : (reqs i).reg.pkt.dst = pkt.src
    · by_cases hread : isSet (reqs i).reg.pkt PACKET_READ = true
      · simp [hit, hbusy, hdst, hread, lanePorts, unbusy]
      · simp [hit, hbusy, hdst, hread]
    · simp [hit, hbusy, hdst]
  · simp [hit, hbusy]

/-- A broadcast answers the busy reads of the address and leaves the other slots alone. -/
theorem broadcast_loop {pkt : Packet} (l : List Nat) (hl : ∀ i ∈ l, i < c.numLanes) (reqs : Reqs)
    (lanes : Nat → V) :
    ∃ reqs' lanes', l.foldlM (c.broadcastSlot (lanePorts f) pkt) (reqs, lanes) =
        some (reqs', lanes') ∧
      (∀ j, reqs' j = if j ∈ l ∧ hit pkt (reqs j) = true then unbusy (reqs j) else reqs j) ∧
      ∀ j, lanes' j = if j ∈ l ∧ hit pkt (reqs j) = true then
        f j (laneReply (reqs j) pkt) (lanes j) else lanes j := by
  induction l generalizing reqs lanes with
  | nil => exact ⟨reqs, lanes, rfl, by simp, by simp⟩
  | cons i l ih =>
      have hstep : c.broadcastSlot (lanePorts f) pkt (reqs, lanes) i = _ :=
        broadcastSlot_eq (hl i (by simp)) reqs lanes
      cases hhit : hit pkt (reqs i) with
      | false =>
          obtain ⟨reqs', lanes', hrest, hreqs, hlanes⟩ :=
            ih (fun j hj => hl j (by simp [hj])) reqs lanes
          have hsame : ∀ j, (j ∈ i :: l ∧ hit pkt (reqs j) = true) ↔
              (j ∈ l ∧ hit pkt (reqs j) = true) := by
            intro j
            by_cases h : j = i
            · subst h; simp [hhit]
            · simp [h]
          refine ⟨reqs', lanes', ?_, fun j => ?_, fun j => ?_⟩
          · simp only [List.foldlM_cons, hstep, hhit]
            exact hrest
          · simp only [hsame]; exact hreqs j
          · simp only [hsame]; exact hlanes j
      | true =>
          obtain ⟨reqs', lanes', hrest, hreqs, hlanes⟩ :=
            ih (fun j hj => hl j (by simp [hj])) (Function.update reqs i (unbusy (reqs i)))
              (Function.update lanes i (f i (laneReply (reqs i) pkt) (lanes i)))
          refine ⟨reqs', lanes', ?_, fun j => ?_, fun j => ?_⟩
          · simp only [List.foldlM_cons, hstep, hhit]
            exact hrest
          · rw [hreqs j]
            by_cases h : j = i
            · subst h; simp [hit_unbusy, hhit]
            · simp [h]
          · rw [hlanes j]
            by_cases h : j = i
            · subst h; simp [hit_unbusy, hhit]
            · simp [h]

/-- What a reply does to a slot and its lane: nothing, or the lane gets the reply to its request and
the slot is free again. -/
inductive Delivered (f : Nat → Packet → V → V) (r : Packet) (reqs : Reqs) (lanes : Nat → V)
    (reqs' : Reqs) (lanes' : Nat → V) (j : Nat) : Prop where
  | other (hreq : reqs' j = reqs j) (hlane : lanes' j = lanes j)
  | lane (hbusy : (reqs j).reg.busy = true) (hreq : reqs' j = (reqs j).freed)
      (hlane : lanes' j = f j (laneReply (reqs j) r) (lanes j))
      (hans : Answered (reqs j).reg.pkt (laneReply (reqs j) r))

section Response

variable {before after : List Nat} {i : Nat} {r : Packet}

/-- A slot that is freed together with slot `i` waits for it. -/
theorem Inv.waits (hs : Inv c reqs flight (before ++ i :: after)) {j : Nat} (hj : j ≠ i)
    (hsame : SameRead (reqs i).reg.pkt (reqs j).reg.pkt) :
    ¬ Active reqs (before ++ i :: after) j := by
  intro hactive
  exact hj (hs.unique i j (Or.inr (by simp)) hactive hsame).symm

/-- Freeing slot `i` and slots that wait for it activates no slot, and the slots that are kept stay
active. -/
theorem Inv.active_freed (hs : Inv c reqs flight (before ++ i :: after)) {reqs' : Reqs}
    {D : Nat → Prop}
    (hfreed : ∀ j, D j → reqs' j = (reqs j).freed) (hkeep : ∀ j, ¬ D j → reqs' j = reqs j)
    (hD : ∀ j, D j → j = i ∨ SameRead (reqs i).reg.pkt (reqs j).reg.pkt) (hi : D i) (j : Nat) :
    Active reqs' (before ++ after) j ↔ Active reqs (before ++ i :: after) j ∧ ¬ D j := by
  by_cases h : D j
  · have hsub : (before ++ after).Sublist (before ++ i :: after) := by simp
    refine ⟨fun hj => ?_, fun hj => absurd h hj.2⟩
    rcases hj with hj | hj
    · simp [hfreed j h, Req.freed] at hj
    · have hnot : i ∉ before ++ after :=
        (List.nodup_cons.1 ((List.perm_middle (a := i)).nodup_iff.1 hs.nodup)).1
      have hne : j ≠ i := by rintro rfl; exact hnot hj
      exact absurd (Or.inr (hsub.subset hj)) (hs.waits hne ((hD j h).resolve_left hne))
  · have hne : j ≠ i := by rintro rfl; exact h hi
    simp [Active, hkeep j h, h, hne]

/-- Slot `i` and the reads that wait for it are freed. -/
theorem Inv.free (hs : Inv c reqs flight (before ++ i :: after)) {reqs' : Reqs} {D : Nat → Prop}
    (hfreed : ∀ j, D j → reqs' j = (reqs j).freed) (hkeep : ∀ j, ¬ D j → reqs' j = reqs j)
    (hD : ∀ j, D j → j = i ∨ SameRead (reqs i).reg.pkt (reqs j).reg.pkt) (hi : D i)
    (hall : ∀ j, (reqs j).reg.busy = true → SameRead (reqs i).reg.pkt (reqs j).reg.pkt → D j) :
    Inv c reqs' ((before ++ after).map (c.sentPacket reqs)) (before ++ after) := by
  have hsub : (before ++ after).Sublist (before ++ i :: after) := by simp
  have hactive := hs.active_freed hfreed hkeep hD hi
  have hbusy : ∀ j, (reqs' j).reg.busy = true → ¬ D j := by
    intro j hj h
    simp [hfreed j h, Req.freed] at hj
  refine ⟨?_, hs.nodup.sublist hsub, fun j hj => ?_, fun j hj => ?_, fun j hj => ?_,
    fun j hj hwrite => ?_, fun j hj hread => ?_, fun j k hj hk hsame => ?_⟩
  · refine (map_sentPacket_congr fun j hj => ?_).symm
    by_cases h : D j
    · rw [hfreed j h]; rfl
    · rw [hkeep j h]
  · have h := ((hactive j).1 (Or.inr hj)).2
    rw [hkeep j h]
    exact hs.sent j (hsub.subset hj)
  · obtain ⟨hold, h⟩ := (hactive j).1 (Or.inl hj)
    rw [hkeep j h]
    exact hs.busy_of_active hold
  · have h := hbusy j hj
    rw [hkeep j h] at hj ⊢
    exact hs.request j hj
  · have h := hbusy j hj
    rw [hkeep j h] at hj hwrite
    exact (hactive j).2 ⟨hs.write j hj hwrite, h⟩
  · -- the read that `j` waits for is not freed, or `j` would be
    have h := hbusy j hj
    rw [hkeep j h] at hj hread ⊢
    obtain ⟨l, hl, hsame⟩ := hs.leader j hj hread
    have hlD : ¬ D l := by
      intro hDl
      by_cases hli : l = i
      · exact h (hall j hj (hli ▸ hsame))
      · exact hs.waits hli ((hD l hDl).resolve_left hli) hl
    exact ⟨l, (hactive l).2 ⟨hl, hlD⟩, by rwa [hkeep l hlD]⟩
  · obtain ⟨hj, hjD⟩ := (hactive j).1 hj
    obtain ⟨hk, hkD⟩ := (hactive k).1 hk
    rw [hkeep j hjD, hkeep k hkD] at hsame
    exact hs.unique j k hj hk hsame

variable (hs : Inv c reqs flight (before ++ i :: after)) (hr : IsReply (c.sentPacket reqs i) r)
include hs hr

/-- What the assertions of `simt_riscv64_handle_response` ask of a reply. -/
theorem reply_checks : isSet r PACKET_ERROR = false ∧ (isSet r PACKET_READ = true → r.mask = -1) ∧
    r.src = (reqs i).reg.pkt.dst ∧ isSet r PACKET_READ = isSet (reqs i).reg.pkt PACKET_READ := by
  obtain ⟨-, -, herror⟩ := hs.request i (hs.sent i (by simp)).1
  exact hr.checks herror

/-- A reply answers the requests of its kind to its address. -/
theorem answered_of_dst {j : Nat} (hdst : (reqs j).reg.pkt.dst = r.src)
    (hread : isSet (reqs j).reg.pkt PACKET_READ = isSet r PACKET_READ) :
    Answered (reqs j).reg.pkt (laneReply (reqs j) r) :=
  ⟨hdst.symm, rfl, rfl, hread.symm, hr.done, (reply_checks hs hr).1⟩

/-- `simt_riscv64_handle_response` past its assertions: the slot of the request is answered and
freed, and the reply to a read is broadcast. -/
theorem handleResponse_eq (hrcv : c.rcv.truncate 32 = 0#32) (lanes : Nat → V) :
    c.simtRiscv64HandleResponse (lanePorts f) r reqs lanes =
      if isSet r PACKET_READ then
        ((List.range c.numLanes).foldlM (c.broadcastSlot (lanePorts f) r)
          (Function.update reqs i (reqs i).freed,
            Function.update lanes i (f i (laneReply (reqs i) r) (lanes i)))).map
          fun x => (.OK, x.1, x.2)
      else some (.OK, Function.update reqs i (reqs i).freed,
        Function.update lanes i (f i (laneReply (reqs i) r) (lanes i))) := by
  obtain ⟨hbusy, hqueued⟩ := hs.sent i (by simp)
  obtain ⟨hlt, haddr, -⟩ := hs.request i hbusy
  obtain ⟨herror, hmask, hsrc, -⟩ := reply_checks hs hr
  have hidx : (r.dst.truncate 32).toNat = i := hr.index hrcv (haddr ▸ laneOf_lt _)
  have hguard : (guard (isSet r PACKET_READ → r.mask = -1) : Option Unit) = some () := if_pos hmask
  rw [← unbusy_eq_freed hqueued]
  simp only [simtRiscv64HandleResponse, hidx, reqsAt_of_lt hlt, hsrc, hbusy, hr.done, herror,
    hguard, lanePorts, Option.bind_eq_bind, Option.bind_some]
  cases isSet r PACKET_READ with
  | false => simp [unbusy]
  | true => simp [unbusy, Option.map_eq_bind]

/-- The reads that a reply hits are those of the line of its request. -/
theorem hit_iff_sameRead (hkind : isSet r PACKET_READ = true) {j : Nat} :
    hit r (reqs j) = true ↔
      (reqs j).reg.busy = true ∧ SameRead (reqs i).reg.pkt (reqs j).reg.pkt := by
  obtain ⟨-, -, hsrc, hread⟩ := reply_checks hs hr
  rw [hit_iff]
  constructor
  · rintro ⟨hbusy, hdst, hjread⟩
    exact ⟨hbusy, hread ▸ hkind, hjread, hsrc.symm.trans hdst.symm⟩
  · rintro ⟨hbusy, hsame⟩
    exact ⟨hbusy, hsame.dst.symm.trans hsrc.symm, hsame.right⟩

/-- The request of the reply is one of them. -/
theorem hit_self (hkind : isSet r PACKET_READ = true) : hit r (reqs i) = true := by
  obtain ⟨-, -, hsrc, hread⟩ := reply_checks hs hr
  exact hit_iff.2 ⟨(hs.sent i (by simp)).1, hsrc.symm, hread ▸ hkind⟩

/-- None of them is queued: the others wait for the request. -/
theorem queued_of_hit (hkind : isSet r PACKET_READ = true) {j : Nat}
    (h : hit r (reqs j) = true) : (reqs j).queued = false := by
  by_contra hq
  have hactive : Active reqs (before ++ i :: after) j := Or.inl (by simpa using hq)
  have hsame := ((hit_iff_sameRead hs hr hkind).1 h).2
  obtain rfl := hs.unique i j (Or.inr (by simp)) hactive hsame
  exact hq (hs.sent _ (by simp)).2

/-- The broadcast frees and answers the slots that the reply hits. -/
theorem broadcast_eq (hkind : isSet r PACKET_READ = true) (f : Nat → Packet → V → V)
    (lanes : Nat → V) :
    ∃ reqs' lanes', (List.range c.numLanes).foldlM (c.broadcastSlot (lanePorts f) r)
        (Function.update reqs i (reqs i).freed,
          Function.update lanes i (f i (laneReply (reqs i) r) (lanes i))) =
        some (reqs', lanes') ∧
      (∀ j, reqs' j = if hit r (reqs j) then (reqs j).freed else reqs j) ∧
      ∀ j, lanes' j = if hit r (reqs j) then f j (laneReply (reqs j) r) (lanes j)
        else lanes j := by
  obtain ⟨reqs', lanes', hloop, hreqs, hlanes⟩ := broadcast_loop
    (List.range c.numLanes) (fun j hj => List.mem_range.1 hj)
    (Function.update reqs i (reqs i).freed)
    (Function.update lanes i (f i (laneReply (reqs i) r) (lanes i)))
  refine ⟨reqs', lanes', hloop, fun j => ?_, fun j => ?_⟩
  · rw [hreqs j]
    by_cases hj : j = i
    · subst hj
      simp [hit_freed, hit_self hs hr hkind]
    · rw [Function.update_of_ne hj]
      cases h : hit r (reqs j) with
      | false => simp
      | true =>
          have hlt := (hs.request j (hit_iff.1 h).1).1
          simp [hlt, unbusy_eq_freed (queued_of_hit hs hr hkind h)]
  · rw [hlanes j]
    by_cases hj : j = i
    · subst hj
      simp [hit_freed, hit_self hs hr hkind]
    · rw [Function.update_of_ne hj, Function.update_of_ne hj]
      cases h : hit r (reqs j) with
      | false => simp
      | true => simp [(hs.request j (hit_iff.1 h).1).1]

/-- Freeing the slot of a write keeps the invariant. -/
theorem write_inv (hkind : isSet r PACKET_READ = false) :
    Inv c (Function.update reqs i (reqs i).freed) ((before ++ after).map (c.sentPacket reqs))
      (before ++ after) := by
  obtain ⟨-, -, -, hread⟩ := reply_checks hs hr
  refine hs.free (D := fun j => j = i) ?_ (fun j hj => Function.update_of_ne hj _ _)
    (fun j hj => Or.inl hj) rfl fun j _ hsame => ?_
  · rintro j rfl
    exact Function.update_self _ _ _
  · have hleft := hsame.left
    rw [← hread, hkind] at hleft
    cases hleft

/-- A broadcast keeps the invariant. -/
theorem broadcast_inv (hkind : isSet r PACKET_READ = true) {reqs' : Reqs}
    (hreqs : ∀ j, reqs' j = if hit r (reqs j) then (reqs j).freed else reqs j) :
    Inv c reqs' ((before ++ after).map (c.sentPacket reqs)) (before ++ after) := by
  refine hs.free (D := fun j => hit r (reqs j) = true) (fun j hj => ?_) (fun j hj => ?_)
    (fun j hj => Or.inr ((hit_iff_sameRead hs hr hkind).1 hj).2) (hit_self hs hr hkind)
    fun j hbusy hsame => (hit_iff_sameRead hs hr hkind).2 ⟨hbusy, hsame⟩
  · rw [hreqs j, if_pos hj]
  · rw [hreqs j, if_neg hj]

/-- What the reply to a write does to each slot and its lane. -/
theorem delivered_write (f : Nat → Packet → V → V) (lanes : Nat → V) (j : Nat) :
    Delivered f r reqs lanes (Function.update reqs i (reqs i).freed)
      (Function.update lanes i (f i (laneReply (reqs i) r) (lanes i))) j := by
  obtain ⟨-, -, hsrc, hread⟩ := reply_checks hs hr
  by_cases h : j = i
  · subst h
    exact .lane (hs.sent _ (by simp)).1 (Function.update_self _ _ _) (Function.update_self _ _ _)
      (answered_of_dst hs hr hsrc.symm hread.symm)
  · exact .other (Function.update_of_ne h _ _) (Function.update_of_ne h _ _)

/-- What a broadcast does to each slot and its lane. -/
theorem delivered_broadcast (hkind : isSet r PACKET_READ = true) {lanes lanes' : Nat → V}
    {reqs' : Reqs} (hreqs : ∀ j, reqs' j = if hit r (reqs j) then (reqs j).freed else reqs j)
    (hlanes : ∀ j, lanes' j =
      if hit r (reqs j) then f j (laneReply (reqs j) r) (lanes j) else lanes j) (j : Nat) :
    Delivered f r reqs lanes reqs' lanes' j := by
  cases h : hit r (reqs j) with
  | true =>
      obtain ⟨hbusy, hdst, hread⟩ := hit_iff.1 h
      exact .lane hbusy (by rw [hreqs j, h]; rfl) (by rw [hlanes j, h]; rfl)
        (answered_of_dst hs hr hdst (hread.trans hkind.symm))
  | false => exact .other (by rw [hreqs j, h]; rfl) (by rw [hlanes j, h]; rfl)

/-- A reply to any of the requests in flight is taken: it answers and frees the slot of the request,
with the reads that wait for it. -/
theorem simtRiscv64HandleResponse_inv (hrcv : c.rcv.truncate 32 = 0#32) (lanes : Nat → V) :
    ∃ reqs' lanes', c.simtRiscv64HandleResponse (lanePorts f) r reqs lanes =
        some (.OK, reqs', lanes') ∧
      Inv c reqs' ((before ++ after).map (c.sentPacket reqs)) (before ++ after) ∧
      (∀ j, Delivered f r reqs lanes reqs' lanes' j) ∧ reqs' i = (reqs i).freed := by
  rw [handleResponse_eq hs hr hrcv]
  cases hkind : isSet r PACKET_READ with
  | false =>
      exact ⟨_, _, rfl, write_inv hs hr hkind, delivered_write hs hr f lanes,
        Function.update_self _ _ _⟩
  | true =>
      obtain ⟨reqs', lanes', hloop, hreqs, hlanes⟩ := broadcast_eq hs hr hkind f lanes
      refine ⟨reqs', lanes', by simp [hloop], broadcast_inv hs hr hkind hreqs,
        delivered_broadcast hs hr hkind hreqs hlanes, ?_⟩
      rw [hreqs i, hit_self hs hr hkind]
      rfl

end Response

end Gran.SimtIntf
