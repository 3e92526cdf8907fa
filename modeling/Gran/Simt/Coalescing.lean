import Gran.Foundations.KeyedQueue
import Gran.Simt.TableAnswers

/-!
# What a coalesced read may return

The request table over a memory that applies each accepted request at one moment, in any order, and
answers it once, while other masters write the memory. `Timed` adds the memory's history to the
table and its neighbours. A read that waits for another one gets that one's bytes, and the memory
may have read these before the waiting request was there: `simtRiscv64_coalescing` says which
moments the bytes of a reply come from, and `simtRiscv64_stale` is a run in which they are too old.
-/

namespace Gran.SimtIntf

open Simt Relation KeyedQueue

variable {C : Type} [DecidableEq C]

/-- The bytes of a memory. -/
abbrev Memory := Word → BitVec 8

/-- The 64 bytes from an address on. -/
def readLine (m : Memory) (addr : Word) : Line := fun k => m (addr + BitVec.ofNat 64 k)

/-- The memory applies a request: a write changes the masked bytes. -/
def applyRequest (p : Packet) (m : Memory) : Memory := fun addr =>
  if h : (addr - p.dst).toNat < 64 then
    if isSet p PACKET_READ then m addr
    else if p.mask.getLsbD (addr - p.dst).toNat then p.data ⟨(addr - p.dst).toNat, h⟩ else m addr
  else m addr

/-- The reply to a request that was applied at moment `t`. -/
def memReply (history : Nat → Memory) (p : Packet) (t : Nat) : Packet :=
  { setFlags (response p) PACKET_DONE with
    data := if isSet p PACKET_READ then readLine (history t) p.dst else p.data }

/-- The slot of a request as it was sent to memory. -/
def slotOf (p : Packet) : Nat := (p.src.truncate 32).toNat

/-- A reply a lane got: the moments at which the lane's request was stored, at which the request
that the memory answered was stored, at which the memory applied that one, and at which the lane got
the reply. A request is `late` if the memory had already applied a read of its address, and not yet
answered it, when the request was stored. -/
structure Ack where
  pkt : Packet
  since : Nat
  sent : Nat
  time : Nat
  delivered : Nat
  late : Bool

/-- The table over a memory with a history. `history t` is the content of the memory after moment
`t`, and `now` is the last moment. -/
structure Timed where
  sys : System
  now : Nat
  history : Nat → Memory
  queue : List (Entry Packet)
  since : Nat → Nat
  late : Nat → Bool
  acks : Nat → List Ack

namespace Timed

/-- A table that was just created over a memory with the given content. -/
def init (content : Memory) : Timed :=
  ⟨.init, 0, fun _ => content, [], fun _ => 0, fun _ => false, fun _ => []⟩

/-- The memory has applied a read of the address, and not yet answered it. -/
def appliedRead (s : Timed) (pkt : Packet) : Bool :=
  isSet pkt PACKET_READ && s.queue.any fun e =>
    e.stamp.isSome && isSet e.item PACKET_READ && e.item.dst == pkt.dst

/-- The queue when the memory has accepted more requests. -/
def pushed (s : Timed) (flight : List Packet) : List (Entry Packet) :=
  s.queue ++ (flight.drop s.queue.length).map fun p => ⟨p, none⟩

/-- The log of a lane after the reply to a request that was applied at moment `t`. -/
def acked (s : Timed) (p : Packet) (t : Nat) (replies : Nat → List Packet) (i : Nat) : List Ack :=
  ((replies i).take ((replies i).length - (s.sys.replies i).length)).map
    (fun pkt => ⟨pkt, s.since i, s.since (slotOf p), t, s.now, s.late i⟩) ++ s.acks i

/-- One step of a run over the memory. -/
inductive Step (c : SimtIntf C) (s : Timed) : Timed → Prop where
  | clock (answer : Packet → Stat) (hanswer : ∀ pkt, answer pkt = .OK ∨ answer pkt = .EBUSY)
      (ret : Stat) (reqs' : Reqs) (flight' : List Packet)
      (h : c.sendQueued (memPorts answer) s.sys.reqs s.sys.flight (List.range c.numLanes) =
        some (ret, reqs', flight')) :
      Step c s { s with
        sys := { s.sys with reqs := reqs', flight := flight' }
        queue := s.pushed flight' }
  | request (answer : Packet → Stat) (hanswer : ∀ pkt, answer pkt = .OK ∨ answer pkt = .EBUSY)
      (i : Nat) (hi : i < c.numLanes) (sender : C) (hmem : c.mem ≠ sender) (pkt : Packet)
      (haddr : laneOf pkt.src = i) (herror : isSet pkt PACKET_ERROR = false)
      (ret : Stat) (reqs' : Reqs) (flight' : List Packet)
      (h : c.simtRiscv64Receive (memPorts answer) sender pkt s.sys.reqs s.sys.flight =
        some (ret, reqs', flight')) :
      Step c s { s with
        sys := { s.sys with
          reqs := reqs'
          flight := flight'
          stored := if (s.sys.reqs i).reg.busy then s.sys.stored
            else Function.update s.sys.stored i (pkt :: s.sys.stored i) }
        queue := s.pushed flight'
        since := if (s.sys.reqs i).reg.busy then s.since else Function.update s.since i s.now
        late := if (s.sys.reqs i).reg.busy then s.late
          else Function.update s.late i (s.appliedRead pkt) }
  | apply (before : List (Entry Packet)) (p : Packet) (after : List (Entry Packet))
      (hqueue : s.queue = before ++ ⟨p, none⟩ :: after) :
      Step c s { s with
        now := s.now + 1
        history := Function.update s.history (s.now + 1) (applyRequest p (s.history s.now))
        queue := before ++ ⟨p, some (s.now + 1)⟩ :: after }
  | write (content : Memory) :
      Step c s { s with
        now := s.now + 1
        history := Function.update s.history (s.now + 1) content }
  | reply (before : List (Entry Packet)) (p : Packet) (t : Nat) (after : List (Entry Packet))
      (hqueue : s.queue = before ++ ⟨p, some t⟩ :: after) (ret : Stat) (reqs' : Reqs)
      (replies' : Nat → List Packet)
      (h : c.simtRiscv64Receive logPorts c.mem (memReply s.history p t) s.sys.reqs s.sys.replies =
        some (ret, reqs', replies')) :
      Step c s { s with
        sys := { s.sys with
          reqs := reqs'
          flight := (before ++ after).map Entry.item
          answers := memReply s.history p t :: s.sys.answers
          replies := replies' }
        queue := before ++ after
        acks := s.acked p t replies' }

/-- The states of the runs that start from an empty table over the given memory. -/
abbrev Reachable (c : SimtIntf C) (content : Memory) (s : Timed) : Prop :=
  ReflTransGen (Step c) (.init content) s

end Timed

/-- The bytes of a reply are those the memory held at one moment, not before the request it answered
was stored and not after the reply was delivered. Only if the lane's own request was late may this
moment be before that one was stored. -/
structure Ack.Held (a : Ack) (history : Nat → Memory) : Prop where
  sent : a.sent ≤ a.time
  delivered : a.time ≤ a.delivered
  data : a.pkt.data = readLine (history a.time) a.pkt.src
  since : a.late = false → a.since ≤ a.time

/-- What holds in every reachable state, beside the invariant of the table. -/
structure Fresh (s : Timed) : Prop where
  queue : s.queue.map Entry.item = s.sys.flight
  since : ∀ i, s.since i ≤ s.now
  sent : ∀ e ∈ s.queue, ∀ t, e.stamp = some t → s.since (slotOf e.item) ≤ t ∧ t ≤ s.now
  joined : ∀ e ∈ s.queue, ∀ t, e.stamp = some t → ∀ j, (s.sys.reqs j).reg.busy = true →
    SameRead e.item (s.sys.reqs j).reg.pkt → s.late j = false → s.since j ≤ t
  acks : ∀ i, (s.acks i).map Ack.pkt = s.sys.replies i
  held : ∀ i, ∀ a ∈ s.acks i, isSet a.pkt PACKET_READ = true →
    a.Held s.history ∧ a.delivered ≤ s.now

theorem fresh_init (content : Memory) : Fresh (.init content) where
  queue := rfl
  since _ := Nat.le_refl _
  sent _ h := nomatch h
  joined _ h := nomatch h
  acks _ := rfl
  held _ _ h := nomatch h

variable {c : SimtIntf C} {s s' : Timed}

omit [DecidableEq C] in
/-- The slot of a request in flight. -/
theorem slotOf_sentPacket (hrcv : c.rcv.truncate 32 = 0#32) {reqs : Reqs} {i : Nat}
    (hi : i < 2 ^ 32) :
    slotOf (c.sentPacket reqs i) = i := by
  rw [slotOf, sentPacket, extPacket_src]
  exact truncate_or hrcv hi

omit [DecidableEq C] in
/-- A request in flight is the one of its slot. -/
theorem Good.sent {s : System} {flying : List Nat} (hgood : Good c s flying)
    (hrcv : c.rcv.truncate 32 = 0#32) {p : Packet} (hp : p ∈ s.flight) :
    (s.reqs (slotOf p)).reg.busy = true ∧ p = c.sentPacket s.reqs (slotOf p) := by
  rw [hgood.inv.flight] at hp
  obtain ⟨i, hi, rfl⟩ := List.mem_map.1 hp
  have hbusy := (hgood.inv.sent i hi).1
  have hlt : i < 2 ^ 32 := (hgood.inv.request i hbusy).2.1 ▸ laneOf_lt _
  rw [slotOf_sentPacket hrcv hlt]
  exact ⟨hbusy, rfl⟩

/-- A run over the memory is a run of the table. -/
theorem Timed.Step.step (hstep : Timed.Step c s s') (hs : Fresh s) :
    ReflTransGen (System.Step c) s.sys s'.sys := by
  cases hstep with
  | clock answer hanswer ret reqs' flight' h =>
      exact .single (.clock answer hanswer ret reqs' flight' h)
  | request answer hanswer i hi sender hmem pkt haddr herror ret reqs' flight' h =>
      exact .single (.request answer hanswer i hi sender hmem pkt haddr herror ret reqs' flight' h)
  | apply before p after hqueue => exact .refl
  | write content => exact .refl
  | reply before p t after hqueue ret reqs' replies' h =>
      rw [List.map_append]
      refine .single (.reply (before.map Entry.item) p (after.map Entry.item) ?_
        (memReply s.history p t) ⟨_, rfl⟩ ret reqs' replies' h)
      rw [← hs.queue, hqueue]
      simp

/-! ## What a step keeps -/

omit [DecidableEq C] in
theorem Fresh.map_pushed (hs : Fresh s) {flight' : List Packet} (hpre : s.sys.flight <+: flight') :
    (s.pushed flight').map Entry.item = flight' := by
  obtain ⟨new, rfl⟩ := hpre
  have hlen : s.queue.length = s.sys.flight.length := by rw [← hs.queue, List.length_map]
  simp [Timed.pushed, hs.queue, hlen, Function.comp_def]

/-- A clock only adds requests that were not applied. -/
theorem Fresh.clock (hs : Fresh s) {reqs' : Reqs} {flight' : List Packet}
    (hpre : s.sys.flight <+: flight') (hreg : ∀ j, (reqs' j).reg = (s.sys.reqs j).reg) :
    Fresh { s with
      sys := { s.sys with reqs := reqs', flight := flight' }
      queue := s.pushed flight' } where
  queue := hs.map_pushed hpre
  since := hs.since
  sent e he t ht := hs.sent e (mem_of_mem_push he ht) t ht
  joined e he t ht j hbusy hsame := by
    dsimp only at hbusy hsame
    rw [hreg j] at hbusy hsame
    exact hs.joined e (mem_of_mem_push he ht) t ht j hbusy hsame
  acks := hs.acks
  held := hs.held

omit [DecidableEq C] in
/-- A lane's request is stored. -/
theorem Fresh.store (hs : Fresh s) {flying : List Nat} (hgood : Good c s.sys flying)
    (hrcv : c.rcv.truncate 32 = 0#32) {i : Nat} (hfree : (s.sys.reqs i).reg.busy = false)
    {pkt : Packet} (q : Bool) {flight' : List Packet} (hpre : s.sys.flight <+: flight')
    (stored : Nat → List Packet) :
    Fresh { s with
      sys := { s.sys with
        reqs := Function.update s.sys.reqs i ⟨⟨pkt, true⟩, q⟩
        flight := flight'
        stored := stored }
      queue := s.pushed flight'
      since := Function.update s.since i s.now
      late := Function.update s.late i (s.appliedRead pkt) } where
  queue := hs.map_pushed hpre
  since j := by
    by_cases hj : j = i
    · subst hj
      simp
    · simpa [hj] using hs.since j
  sent e he t ht := by
    -- the slot of a request in flight is not the free one
    have hold := mem_of_mem_push he ht
    have hbusy := (hgood.sent hrcv (hs.queue ▸ List.mem_map_of_mem hold)).1
    have hne : slotOf e.item ≠ i := by
      intro heq
      rw [heq, hfree] at hbusy
      cases hbusy
    dsimp only
    rw [Function.update_of_ne hne]
    exact hs.sent e hold t ht
  joined e he t ht j hbusy hsame hlate := by
    have hold := mem_of_mem_push he ht
    dsimp only at hbusy hsame hlate ⊢
    by_cases hj : j = i
    · -- the memory has applied a read of the address
      subst hj
      rw [Function.update_self] at hsame hlate
      have htrue : s.appliedRead pkt = true := by
        simp only [Timed.appliedRead, Bool.and_eq_true, List.any_eq_true, beq_iff_eq]
        exact ⟨hsame.right, e, hold, ⟨by rw [ht]; rfl, hsame.left⟩, hsame.dst⟩
      rw [htrue] at hlate
      cases hlate
    · rw [Function.update_of_ne hj] at hbusy hsame hlate ⊢
      exact hs.joined e hold t ht j hbusy hsame hlate
  acks := hs.acks
  held := hs.held

omit [DecidableEq C] in
/-- A moment that was not reached yet is not in the logs. -/
theorem Fresh.held_update (hs : Fresh s) (content : Memory) (i : Nat) (a : Ack) (ha : a ∈ s.acks i)
    (hread : isSet a.pkt PACKET_READ = true) :
    a.Held (Function.update s.history (s.now + 1) content) ∧ a.delivered ≤ s.now + 1 := by
  obtain ⟨hheld, hnow⟩ := hs.held i a ha hread
  have hle := hheld.delivered
  have hne : a.time ≠ s.now + 1 := by omega
  refine ⟨⟨hheld.sent, hle, ?_, hheld.since⟩, by omega⟩
  rw [Function.update_of_ne hne]
  exact hheld.data

/-- The memory applies a request, after all requests in the table were stored. -/
theorem Fresh.apply (hs : Fresh s) {before after : List (Entry Packet)} {p : Packet}
    (hqueue : s.queue = before ++ ⟨p, none⟩ :: after) :
    Fresh { s with
      now := s.now + 1
      history := Function.update s.history (s.now + 1) (applyRequest p (s.history s.now))
      queue := before ++ ⟨p, some (s.now + 1)⟩ :: after } := by
  have hold : ∀ e ∈ before ++ (⟨p, some (s.now + 1)⟩ : Entry Packet) :: after,
      e = ⟨p, some (s.now + 1)⟩ ∨ e ∈ s.queue := by
    rw [hqueue]
    exact fun e he => mem_of_mem_stamp he
  refine ⟨?_, fun i => (hs.since i).trans (Nat.le_succ _), ?_, ?_, hs.acks, hs.held_update _⟩
  · rw [← hs.queue, hqueue]
    simp
  · intro e he t ht
    rcases hold e he with rfl | he
    · cases ht
      exact ⟨(hs.since _).trans (Nat.le_succ _), Nat.le_refl _⟩
    · obtain ⟨hsent, hnow⟩ := hs.sent e he t ht
      exact ⟨hsent, hnow.trans (Nat.le_succ _)⟩
  · intro e he t ht j hbusy hsame hlate
    rcases hold e he with rfl | he
    · cases ht
      exact (hs.since j).trans (Nat.le_succ _)
    · exact hs.joined e he t ht j hbusy hsame hlate

/-- Another master writes the memory. -/
theorem Fresh.write (hs : Fresh s) (content : Memory) :
    Fresh { s with
      now := s.now + 1
      history := Function.update s.history (s.now + 1) content } where
  queue := hs.queue
  since i := (hs.since i).trans (Nat.le_succ _)
  sent e he t ht := ⟨(hs.sent e he t ht).1, (hs.sent e he t ht).2.trans (Nat.le_succ _)⟩
  joined := hs.joined
  acks := hs.acks
  held := hs.held_update content

omit [DecidableEq C] in
/-- A request that was applied is answered. Every lane that gets the bytes read their address. -/
theorem Fresh.reply (hs : Fresh s) {before after : List (Entry Packet)} {p : Packet} {t : Nat}
    (hqueue : s.queue = before ++ ⟨p, some t⟩ :: after) {reqs' : Reqs}
    {replies' : Nat → List Packet}
    (hdel : ∀ i, Delivered (fun _ pkt log => pkt :: log) (memReply s.history p t) s.sys.reqs
      s.sys.replies reqs' replies' i) :
    Fresh { s with
      sys := { s.sys with
        reqs := reqs'
        flight := (before ++ after).map Entry.item
        answers := memReply s.history p t :: s.sys.answers
        replies := replies' }
      queue := before ++ after
      acks := s.acked p t replies' } := by
  have hmem : (⟨p, some t⟩ : Entry Packet) ∈ s.queue := by simp [hqueue]
  have hsub : ∀ e ∈ before ++ after, e ∈ s.queue := by
    intro e he
    rw [hqueue]
    rcases List.mem_append.1 he with he | he <;> simp [he]
  have hreply : IsReply p (memReply s.history p t) := ⟨_, rfl⟩
  obtain ⟨hsent, hnow⟩ := hs.sent _ hmem t rfl
  have hcase : ∀ i, s.acked p t replies' i = s.acks i ∧ replies' i = s.sys.replies i ∨
      ∃ a : Ack, s.acked p t replies' i = a :: s.acks i ∧
        replies' i = a.pkt :: s.sys.replies i ∧
        (isSet a.pkt PACKET_READ = true → a.Held s.history ∧ a.delivered ≤ s.now) := by
    intro i
    cases hdel i with
    | other hreq hlane => exact Or.inl ⟨by simp [Timed.acked, hlane], hlane⟩
    | lane hbusy hreq hlane hans =>
        refine Or.inr ⟨⟨laneReply (s.sys.reqs i) (memReply s.history p t), s.since i,
          s.since (slotOf p), t, s.now, s.late i⟩, by simp [Timed.acked, hlane], hlane,
          fun hread => ?_⟩
        have hp : isSet p PACKET_READ = true := by rwa [← hreply.read]
        have hsame : SameRead p (s.sys.reqs i).reg.pkt := ⟨hp, hans.read.symm.trans hread, hans.src⟩
        refine ⟨⟨hsent, hnow, ?_, hs.joined _ hmem t rfl i hbusy hsame⟩, Nat.le_refl _⟩
        simp [laneReply, memReply, hp, response, setFlags]
  refine ⟨rfl, hs.since, fun e he => hs.sent e (hsub e he), fun e he u hu j hbusy hsame hlate => ?_,
    fun i => ?_, fun i a ha hread => ?_⟩
  · cases hdel j with
    | other hreq hlane =>
        dsimp only at hbusy hsame
        rw [hreq] at hbusy hsame
        exact hs.joined e (hsub e he) u hu j hbusy hsame hlate
    | lane hbusy' hreq hlane hans =>
        dsimp only at hbusy
        rw [hreq] at hbusy
        cases hbusy
  · show (s.acked p t replies' i).map Ack.pkt = replies' i
    rcases hcase i with ⟨hacked, hrep⟩ | ⟨a, hacked, hrep, -⟩
    · rw [hacked, hrep]
      exact hs.acks i
    · rw [hacked, hrep, List.map_cons, hs.acks i]
  · rcases hcase i with ⟨hacked, -⟩ | ⟨b, hacked, -, hheld⟩
    · exact hs.held i a (hacked ▸ ha) hread
    · rcases List.mem_cons.1 (hacked ▸ ha : a ∈ b :: s.acks i) with rfl | ha
      · exact hheld hread
      · exact hs.held i a ha hread

/-! ## The result -/

theorem Timed.Step.fresh (hrcv : c.rcv.truncate 32 = 0#32) (hstep : Timed.Step c s s')
    {flying : List Nat} (hgood : Good c s.sys flying) (hs : Fresh s) : Fresh s' := by
  cases hstep with
  | clock answer hanswer ret reqs' flight' h =>
      obtain ⟨reqs'', flight'', -, hsend, -, hpre, hreg⟩ :=
        sendQueued_inv hanswer (fun i hi => List.mem_range.1 hi) hgood.inv
      obtain ⟨-, rfl, rfl⟩ : Stat.OK = ret ∧ reqs'' = reqs' ∧ flight'' = flight' := by
        simpa using hsend.symm.trans h
      exact hs.clock hpre hreg
  | request answer hanswer i hi sender hmem pkt haddr herror ret reqs' flight' h =>
      have hint : i < 2 ^ 31 := haddr ▸ simtRiscv64Receive_lt hmem h
      obtain ⟨ret', reqs'', flight'', -, hrecv, -, -, hpre, hcase⟩ :=
        simtRiscv64Receive_inv hgood.inv hanswer hmem haddr hi hint herror
      obtain ⟨rfl, rfl, rfl⟩ : ret' = ret ∧ reqs'' = reqs' ∧ flight'' = flight' := by
        simpa using hrecv.symm.trans h
      cases hbusy : (s.sys.reqs i).reg.busy with
      | true =>
          rw [if_pos hbusy] at hcase
          obtain ⟨-, rfl, rfl⟩ := hcase
          exact hs.clock List.prefix_rfl fun _ => rfl
      | false =>
          rw [if_neg (by simp [hbusy])] at hcase
          obtain ⟨q, rfl⟩ := hcase
          exact hs.store hgood hrcv hbusy q hpre _
  | apply before p after hqueue => exact hs.apply hqueue
  | write content => exact hs.write content
  | reply before p t after hqueue ret reqs' replies' h =>
      have hflight : s.sys.flight = before.map Entry.item ++ p :: after.map Entry.item := by
        rw [← hs.queue, hqueue]
        simp
      obtain ⟨reqs'', replies'', -, hresp, -, hdel⟩ :=
        simtRiscv64Receive_mem (f := fun _ pkt log => pkt :: log) hgood.inv hrcv hflight
          (r := memReply s.history p t) ⟨_, rfl⟩ s.sys.replies
      obtain ⟨-, rfl, rfl⟩ : Stat.OK = ret ∧ reqs'' = reqs' ∧ replies'' = replies' := by
        simpa using hresp.symm.trans h
      exact hs.reply hqueue hdel

theorem Timed.Reachable.fresh (hrcv : c.rcv.truncate 32 = 0#32) {content : Memory}
    (h : Timed.Reachable c content s) : Fresh s ∧ SimtIntf.Reachable c s.sys := by
  induction h with
  | refl => exact ⟨fresh_init content, .refl⟩
  | tail _ hstep ih =>
      obtain ⟨hs, hsys⟩ := ih
      obtain ⟨flying, hgood⟩ := SimtIntf.Reachable.good hrcv hsys
      exact ⟨hstep.fresh hrcv hgood hs, hsys.trans (hstep.step hs)⟩

/-- For any number of lanes and on every run, the bytes a lane gets for a read are those the memory
held at one moment between the storing of the request that the memory answered and the delivery. If
the lane's own request was not late, this moment is not before its own storing either. -/
theorem simtRiscv64_coalescing (c : SimtIntf C) (hrcv : c.rcv.truncate 32 = 0#32) (content : Memory)
    (s : Timed) (h : Timed.Reachable c content s) (i : Nat) :
    (s.acks i).map Ack.pkt = s.sys.replies i ∧
    ∀ a ∈ s.acks i, isSet a.pkt PACKET_READ = true → a.Held s.history ∧ a.delivered ≤ s.now := by
  obtain ⟨hs, -⟩ := h.fresh hrcv
  exact ⟨hs.acks i, hs.held i⟩

/-- The memory applies the read of lane 0 at moment 1, another master then writes 1 to every byte at
moment 2, and lane 1 reads the same line before the reply arrives. -/
theorem late_load_reachable : ∃ s a, Timed.Reachable twoLanes (fun _ => 0) s ∧ s.acks 1 = [a] ∧
    isSet a.pkt PACKET_READ = true ∧ a.pkt.mask = 0xff ∧ a.pkt.data 0 = 0 ∧ a.since = 2 ∧
    a.delivered = 2 ∧ s.history 2 = fun _ => 1 := by
  have hinit : Timed.Reachable twoLanes (fun _ => 0) (.init fun _ => 0) := .refl
  have hfirst := hinit.tail
    (.request (fun _ => .OK) (fun _ => Or.inl rfl) 0 (by decide) 1 (by decide)
    (loadBy 0) (by decide) (by decide) .OK _ _ rfl)
  have happly := hfirst.tail (.apply [] _ [] rfl)
  have hwrite := happly.tail (.write fun _ => 1)
  have hsecond := hwrite.tail
    (.request (fun _ => .OK) (fun _ => Or.inl rfl) 1 (by decide) 2 (by decide)
    (loadBy 1) (by decide) (by decide) .OK _ _ rfl)
  have hreply := hsecond.tail (.reply [] _ 1 [] rfl .OK _ _ rfl)
  exact ⟨_, _, hreply, rfl, rfl, rfl, rfl, rfl, rfl, rfl⟩

/-- `simtRiscv64_coalescing` on that run. -/
theorem simtRiscv64_coalescing_late : ∃ (s : Timed) (a : Ack), s.acks 1 = [a] ∧ a.since = 2 ∧
    a.Held s.history ∧ a.delivered ≤ s.now := by
  obtain ⟨s, a, hs, hacks, hread, -, -, hsince, -⟩ := late_load_reachable
  have hheld := (simtRiscv64_coalescing twoLanes (by decide) _ s hs 1).2 a (by simp [hacks]) hread
  exact ⟨s, a, hacks, hsince, hheld⟩

/-- A byte that lane 1 got is not what the memory held at any moment since the lane's request was
stored. -/
theorem simtRiscv64_stale : ∃ s, Timed.Reachable twoLanes (fun _ => 0) s ∧
    ∃ a ∈ s.acks 1, isSet a.pkt PACKET_READ = true ∧ ∃ k : Fin 64, a.pkt.mask.getLsbD k = true ∧
      ∀ t, a.since ≤ t → t ≤ a.delivered →
        a.pkt.data k ≠ s.history t (a.pkt.src + BitVec.ofNat 64 k) := by
  obtain ⟨s, a, hs, hacks, hread, hmask, hdata, hsince, hdelivered, hhistory⟩ := late_load_reachable
  refine ⟨s, hs, a, by simp [hacks], hread, 0, by rw [hmask]; decide, fun t hle hge => ?_⟩
  obtain rfl : t = 2 := by omega
  rw [hdata, hhistory]
  exact fun h : (0 : BitVec 8) = 1 => absurd h (by decide)

end Gran.SimtIntf
