import Gran.Simt.TableInvariant
import Mathlib.Logic.Relation

/-!
# A request table answers every request once

A run of one interface of `simt_riscv64` interleaves clocks, requests of lanes and replies of a
memory that answers the requests it accepted in any order. `simtRiscv64_answers_once` says that on
every run no reply fails an assertion, that each lane's requests in the table are answered one by
one with data of a memory reply for the same address, and that every read that waits has exactly one
active read to wait for.
-/

namespace Gran.SimtIntf

open Simt Relation

variable {C : Type} [DecidableEq C]

/-- The table of an interface, the requests the memory accepted and has not answered, its replies so
far, and for each lane its requests that were stored in the table and its replies, newest first. -/
structure System where
  reqs : Reqs
  flight : List Packet
  answers : List Packet
  stored : Nat → List Packet
  replies : Nat → List Packet

/-- A table that was just created. -/
def System.init : System := ⟨fun _ => .empty, [], [], fun _ => [], fun _ => []⟩

/-- A lane logs its replies. -/
abbrev logPorts : Ports (Nat → List Packet) := lanePorts fun _ pkt log => pkt :: log

/-- One step of a run. -/
inductive System.Step (c : SimtIntf C) (s : System) : System → Prop where
  | clock (answer : Packet → Stat) (hanswer : ∀ pkt, answer pkt = .OK ∨ answer pkt = .EBUSY)
      (ret : Stat) (reqs' : Reqs) (flight' : List Packet)
      (h : c.sendQueued (memPorts answer) s.reqs s.flight (List.range c.numLanes) =
        some (ret, reqs', flight')) :
      Step c s { s with reqs := reqs', flight := flight' }
  | request (answer : Packet → Stat) (hanswer : ∀ pkt, answer pkt = .OK ∨ answer pkt = .EBUSY)
      (i : Nat) (hi : i < c.numLanes) (sender : C) (hmem : c.mem ≠ sender) (pkt : Packet)
      (haddr : laneOf pkt.src = i) (herror : isSet pkt PACKET_ERROR = false)
      (ret : Stat) (reqs' : Reqs) (flight' : List Packet)
      (h : c.simtRiscv64Receive (memPorts answer) sender pkt s.reqs s.flight =
        some (ret, reqs', flight')) :
      Step c s { s with
        reqs := reqs'
        flight := flight'
        stored := if (s.reqs i).reg.busy then s.stored
          else Function.update s.stored i (pkt :: s.stored i) }
  | reply (before : List Packet) (p : Packet) (after : List Packet)
      (hflight : s.flight = before ++ p :: after) (r : Packet) (hr : IsReply p r) (ret : Stat)
      (reqs' : Reqs) (replies' : Nat → List Packet)
      (h : c.simtRiscv64Receive logPorts c.mem r s.reqs s.replies = some (ret, reqs', replies')) :
      Step c s { s with
        reqs := reqs'
        flight := before ++ after
        answers := r :: s.answers
        replies := replies' }

/-- The states of the runs that start from an empty table. -/
abbrev Reachable (c : SimtIntf C) (s : System) : Prop := ReflTransGen (System.Step c) .init s

/-- `rep` answers the request `req` with the data of a reply of the memory for its address. -/
structure AnsweredFrom (answers : List Packet) (req rep : Packet) : Prop extends
    Answered req rep where
  data : ∃ r ∈ answers, r.src = req.dst ∧ rep.data = r.data

/-- The request a lane still waits for, if any. -/
def pending (reqs : Reqs) (i : Nat) : List Packet :=
  if (reqs i).reg.busy then [(reqs i).reg.pkt] else []

/-- A lane's requests in the table are those that were answered, in order and once each, and the one
it still waits for. -/
def LaneServed (reqs : Reqs) (answers stored replies : List Packet) (i : Nat) : Prop :=
  ∃ done, stored = pending reqs i ++ done ∧ List.Forall₂ (AnsweredFrom answers) done replies

/-- What holds in every reachable state. -/
structure Good (c : SimtIntf C) (s : System) (flying : List Nat) : Prop where
  inv : Inv c s.reqs s.flight flying
  served : ∀ i, LaneServed s.reqs s.answers (s.stored i) (s.replies i) i

variable {c : SimtIntf C} {s s' : System}

omit [DecidableEq C] in
theorem LaneServed.congr {reqs reqs' : Reqs} {answers stored replies : List Packet} {i : Nat}
    (hreg : (reqs' i).reg = (reqs i).reg) (h : LaneServed reqs answers stored replies i) :
    LaneServed reqs' answers stored replies i := by
  unfold LaneServed pending at *
  rwa [hreg]

omit [DecidableEq C] in
/-- A reply serves the lanes it is delivered to. -/
theorem Delivered.laneServed {r : Packet} {reqs reqs' : Reqs} {lanes lanes' : Nat → List Packet}
    {answers stored : List Packet} {i : Nat}
    (hd : Delivered (fun _ pkt log => pkt :: log) r reqs lanes reqs' lanes' i)
    (h : LaneServed reqs answers stored (lanes i) i) :
    LaneServed reqs' (r :: answers) stored (lanes' i) i := by
  obtain ⟨done, hstored, hdone⟩ := h
  have hmore : ∀ {req rep}, AnsweredFrom answers req rep → AnsweredFrom (r :: answers) req rep := by
    rintro req rep ⟨hans, q, hq, hsrc⟩
    exact ⟨hans, q, by simp [hq], hsrc⟩
  have hdone' := hdone.imp fun _ _ => hmore
  cases hd with
  | other hreq hlane =>
      rw [hlane]
      exact ⟨done, by simpa [pending, hreq] using hstored, hdone'⟩
  | lane hbusy hreq hlane hans =>
      refine ⟨(reqs i).reg.pkt :: done, ?_, ?_⟩
      · simp [hstored, pending, hbusy, hreq, Req.freed]
      · rw [hlane]
        exact .cons ⟨hans, r, by simp, hans.src, rfl⟩ hdone'

omit [DecidableEq C] in
/-- A split of the packets in flight is a split of the slots. -/
theorem split_flying {reqs : Reqs} {flying : List Nat} {before after : List Packet} {p : Packet}
    (h : before ++ p :: after = flying.map (c.sentPacket reqs)) :
    ∃ b i a, flying = b ++ i :: a ∧ before = b.map (c.sentPacket reqs) ∧
      p = c.sentPacket reqs i ∧ after = a.map (c.sentPacket reqs) := by
  obtain ⟨b, rest, rfl, hb, hrest⟩ := List.map_eq_append_iff.1 h.symm
  obtain ⟨i, a, rfl, hi, ha⟩ := List.map_eq_cons_iff.1 hrest
  exact ⟨b, i, a, rfl, hb.symm, hi.symm, ha.symm⟩

/-- A reply to any request in flight is taken, and keeps the invariant. -/
theorem simtRiscv64Receive_mem {V : Type} {f : Nat → Packet → V → V} {reqs : Reqs}
    {flight : List Packet} {flying : List Nat} (hs : Inv c reqs flight flying)
    (hrcv : c.rcv.truncate 32 = 0#32) {before after : List Packet} {p r : Packet}
    (hflight : flight = before ++ p :: after) (hr : IsReply p r) (lanes : Nat → V) :
    ∃ reqs' lanes' flying', c.simtRiscv64Receive (lanePorts f) c.mem r reqs lanes =
        some (.OK, reqs', lanes') ∧ Inv c reqs' (before ++ after) flying' ∧
      ∀ j, Delivered f r reqs lanes reqs' lanes' j := by
  obtain ⟨b, i, a, rfl, hb, hp, ha⟩ := split_flying (hflight.symm.trans hs.flight)
  subst hp hb ha
  obtain ⟨reqs', lanes', hresp, hinv, hdel, -⟩ :=
    simtRiscv64HandleResponse_inv (f := f) hs hr hrcv lanes
  refine ⟨reqs', lanes', b ++ a, by simpa [simtRiscv64Receive] using hresp, ?_, hdel⟩
  rwa [← List.map_append]

theorem System.Step.good (hrcv : c.rcv.truncate 32 = 0#32) (hstep : System.Step c s s')
    {flying : List Nat} (hs : Good c s flying) : ∃ flying', Good c s' flying' := by
  cases hstep with
  | clock answer hanswer ret reqs' flight' h =>
      obtain ⟨reqs'', flight'', flying', hsend, hinv, -, hreg⟩ :=
        sendQueued_inv hanswer (fun i hi => List.mem_range.1 hi) hs.inv
      obtain ⟨-, rfl, rfl⟩ : Stat.OK = ret ∧ reqs'' = reqs' ∧ flight'' = flight' := by
        simpa using hsend.symm.trans h
      exact ⟨flying', hinv, fun i => (hs.served i).congr (hreg i)⟩
  | request answer hanswer i hi sender hmem pkt haddr herror ret reqs' flight' h =>
      have hint : i < 2 ^ 31 := haddr ▸ simtRiscv64Receive_lt hmem h
      obtain ⟨ret', reqs'', flight'', flying', hrecv, -, hinv, -, hcase⟩ :=
        simtRiscv64Receive_inv hs.inv hanswer hmem haddr hi hint herror
      obtain ⟨rfl, rfl, rfl⟩ : ret' = ret ∧ reqs'' = reqs' ∧ flight'' = flight' := by
        simpa using hrecv.symm.trans h
      refine ⟨flying', hinv, fun j => ?_⟩
      cases hbusy : (s.reqs i).reg.busy with
      | true =>
          rw [if_pos hbusy] at hcase
          obtain ⟨-, rfl, -⟩ := hcase
          simpa [hbusy] using hs.served j
      | false =>
          rw [if_neg (by simp [hbusy])] at hcase
          obtain ⟨q, rfl⟩ := hcase
          by_cases hj : j = i
          · subst hj
            obtain ⟨done, hstored, hdone⟩ := hs.served j
            refine ⟨done, ?_, hdone⟩
            simpa [pending, hbusy] using hstored
          · simpa [hbusy, hj] using (hs.served j).congr (by rw [Function.update_of_ne hj])
  | reply before p after hflight r hr ret reqs' replies' h =>
      obtain ⟨reqs'', replies'', flying', hresp, hinv, hdel⟩ :=
        simtRiscv64Receive_mem (f := fun _ pkt log => pkt :: log) hs.inv hrcv hflight hr s.replies
      obtain ⟨-, rfl, rfl⟩ : Stat.OK = ret ∧ reqs'' = reqs' ∧ replies'' = replies' := by
        simpa using hresp.symm.trans h
      exact ⟨flying', hinv, fun i => (hdel i).laneServed (hs.served i)⟩

theorem Reachable.good (hrcv : c.rcv.truncate 32 = 0#32) (h : Reachable c s) :
    ∃ flying, Good c s flying := by
  induction h with
  | refl => exact ⟨[], inv_init, fun _ => ⟨[], rfl, .nil⟩⟩
  | tail _ hstep ih =>
      obtain ⟨flying, hs⟩ := ih
      exact hstep.good hrcv hs

/-! ## The result -/

/-- Each lane's requests in the table are answered in order, once each and at their own address and
mask, up to one it still waits for, and no lane waits once nothing is queued or in flight. -/
structure AnswersOnce (s : System) : Prop where
  served : ∀ i, LaneServed s.reqs s.answers (s.stored i) (s.replies i) i
  settled : s.flight = [] → (∀ i, (s.reqs i).queued = false) →
    ∀ i, List.Forall₂ (AnsweredFrom s.answers) (s.stored i) (s.replies i)

/-- The slots in flight are those of the packets in flight, and every busy slot is queued, in
flight, or a read of an address for which exactly one busy read is queued or in flight. -/
structure Accounted (c : SimtIntf C) (s : System) (flying : List Nat) : Prop where
  nodup : flying.Nodup
  flight : s.flight = flying.map (c.sentPacket s.reqs)
  covered : ∀ i, (s.reqs i).reg.busy = true → Active s.reqs flying i ∨
    ∃! j, (s.reqs j).reg.busy = true ∧ Active s.reqs flying j ∧
      SameRead (s.reqs j).reg.pkt (s.reqs i).reg.pkt
  unique : ∀ i j, Active s.reqs flying i → Active s.reqs flying j →
    SameRead (s.reqs i).reg.pkt (s.reqs j).reg.pkt → i = j

/-- Each interface of `simt_riscv64` answers every lane request exactly once, for any number of
lanes, any order of requests and refusals and any order of replies: no reply to a request in flight
fails an assertion, each lane is answered once per stored request, and each line that is read has
exactly one active read. -/
theorem simtRiscv64_answers_once (c : SimtIntf C) (hrcv : c.rcv.truncate 32 = 0#32) (s : System)
    (h : Reachable c s) :
    (∀ before p after, s.flight = before ++ p :: after → ∀ r, IsReply p r →
      ∃ reqs' replies', c.simtRiscv64Receive logPorts c.mem r s.reqs s.replies =
        some (.OK, reqs', replies')) ∧
    AnswersOnce s ∧ ∃ flying, Accounted c s flying := by
  obtain ⟨flying, hs⟩ := h.good hrcv
  refine ⟨fun before p after hflight r hr => ?_, ⟨hs.served, fun hflight hqueued i => ?_⟩, flying,
    hs.inv.nodup, hs.inv.flight, fun i hi => ?_, hs.inv.unique⟩
  · obtain ⟨reqs', replies', -, hresp, -⟩ :=
      simtRiscv64Receive_mem (f := fun _ pkt log => pkt :: log) hs.inv hrcv hflight hr s.replies
    exact ⟨reqs', replies', hresp⟩
  · have hnil : flying = [] := List.map_eq_nil_iff.1 (hs.inv.flight.symm.trans hflight)
    have hidle : ∀ j, ¬ Active s.reqs flying j := by
      rintro j (h | h)
      · simp [hqueued j] at h
      · simp [hnil] at h
    have hfree : (s.reqs i).reg.busy = false := by
      by_contra hbusy
      have hbusy' : (s.reqs i).reg.busy = true := by simpa using hbusy
      cases hread : isSet (s.reqs i).reg.pkt PACKET_READ with
      | false => exact hidle i (hs.inv.write i hbusy' hread)
      | true =>
          obtain ⟨j, hj, -⟩ := hs.inv.leader i hbusy' hread
          exact hidle j hj
    obtain ⟨done, hstored, hdone⟩ := hs.served i
    rw [hstored]
    simpa [pending, hfree] using hdone
  · cases hread : isSet (s.reqs i).reg.pkt PACKET_READ with
    | false => exact Or.inl (hs.inv.write i hi hread)
    | true =>
        obtain ⟨j, hj, hsame⟩ := hs.inv.leader i hi hread
        refine Or.inr ⟨j, ⟨hs.inv.busy_of_active hj, hj, hsame⟩, ?_⟩
        rintro k ⟨-, hk, hsame'⟩
        exact hs.inv.unique k j hk hj ⟨hsame'.left, hsame.left, hsame'.dst.trans hsame.dst.symm⟩

/-- An interface with two lanes, named 1 and 2, in front of memory 0. -/
def twoLanes : SimtIntf Nat := ⟨0, 0, 2⟩

/-- A read of the line at address 64 by lane `i`. -/
def loadBy (i : Nat) : Packet :=
  { Packet.zero with
    src := BitVec.ofNat 64 i <<< 32, dst := 64, mask := 0xff, flags := PACKET_READ }

/-- Both lanes read one line, only the first request is sent and its reply answers both, and then
lane 0 reads the line again. -/
theorem loads_reachable : ∃ s, Reachable twoLanes s ∧ s.stored 0 = [loadBy 0, loadBy 0] ∧
    s.stored 1 = [loadBy 1] ∧ (s.replies 0).length = 1 ∧ (s.replies 1).length = 1 ∧
    s.flight.length = 1 := by
  have hinit : Reachable twoLanes .init := .refl
  have hfirst := hinit.tail (.request (fun _ => .OK) (fun _ => Or.inl rfl) 0 (by decide) 1
    (by decide) (loadBy 0) (by decide) (by decide) .OK _ _ rfl)
  have hsecond := hfirst.tail (.request (fun _ => .OK) (fun _ => Or.inl rfl) 1 (by decide) 2
    (by decide) (loadBy 1) (by decide) (by decide) .OK _ _ rfl)
  have hreply := hsecond.tail (.reply [] _ [] rfl _ ⟨fun _ => 7, rfl⟩ .OK _ _ rfl)
  have hagain := hreply.tail (.request (fun _ => .OK) (fun _ => Or.inl rfl) 0 (by decide) 1
    (by decide) (loadBy 0) (by decide) (by decide) .OK _ _ rfl)
  exact ⟨_, hagain, rfl, rfl, rfl, rfl, rfl⟩

/-- `simtRiscv64_answers_once` on the run in which both lanes read one line. -/
theorem simtRiscv64_answers_once_loads : ∃ s : System, s.stored 0 = [loadBy 0, loadBy 0] ∧
    s.stored 1 = [loadBy 1] ∧ (s.replies 0).length = 1 ∧ (s.replies 1).length = 1 ∧
    s.flight.length = 1 ∧
    (∀ before p after, s.flight = before ++ p :: after → ∀ r, IsReply p r →
      ∃ reqs' replies', twoLanes.simtRiscv64Receive logPorts twoLanes.mem r s.reqs s.replies =
        some (.OK, reqs', replies')) ∧
    AnswersOnce s ∧ ∃ flying, Accounted twoLanes s flying := by
  obtain ⟨s, hs, hstored, hstored', hreplies, hreplies', hflight⟩ := loads_reachable
  exact ⟨s, hstored, hstored', hreplies, hreplies', hflight,
    simtRiscv64_answers_once twoLanes (by decide) s hs⟩

end Gran.SimtIntf
