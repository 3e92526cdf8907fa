import Gran.Simt.CacheInvariant
import Mathlib.Data.Finset.Card
import Mathlib.Logic.Relation

/-!
# The shared cache answers every request once

A run interleaves clocks, requests of lanes and replies of a memory that answers the requests to
each 64-byte line in the order it accepted them. `simtCache_answers_once` says that on every run no
assertion fires, that each lane's accepted requests are answered one by one, and where the requests
that still wait for an answer are.
-/

namespace Gran.SimtCache

open Simt Relation

variable {C : Type} [DecidableEq C]

/-- The cache with its neighbours, and the requests accepted from each lane, newest first. -/
structure System where
  cache : State
  env : Env
  accepted : Nat → List Packet

/-- A cache that was just created. -/
def System.init : System := ⟨.init, ⟨[], fun _ => []⟩, fun _ => []⟩

/-- The ports of a call during which nothing is sent to memory. -/
abbrev quiet : Ports Env := ports fun _ => .OK

/-- The line of a packet. -/
def line (pkt : Packet) : Nat := pkt.dst.toNat / 64

/-- One step of a run. -/
inductive System.Step (c : SimtCache C) (s : System) : System → Prop where
  | clock (answer : Packet → Stat) (hanswer : ∀ pkt, answer pkt = .OK ∨ answer pkt = .EBUSY)
      (ret : Stat) (s' : State) (w' : Env)
      (h : c.simtCacheClock (ports answer) s.cache s.env = some (ret, s', w')) :
      Step c s ⟨s', w', s.accepted⟩
  | request (i : Nat) (hi : i < c.len) (sender : C) (hlane : c.lanes i = some sender)
      (hmem : c.mem ≠ sender) (pkt : Packet) (haddr : laneOf pkt.src = i)
      (hreq : Simt.IsRequest pkt)
      (ret : Stat) (s' : State) (w' : Env)
      (h : c.simtCacheReceive quiet sender pkt s.cache s.env = some (ret, s', w')) :
      Step c s ⟨s', w', if ret = .OK then Function.update s.accepted i (pkt :: s.accepted i)
        else s.accepted⟩
  | reply (before : List Packet) (p : Packet) (after : List Packet)
      (hflight : s.env.flight = before ++ p :: after) (hfirst : ∀ q ∈ before, line q ≠ line p)
      (r : Packet) (hr : IsReply p r) (ret : Stat) (s' : State) (w' : Env)
      (h : c.simtCacheReceive quiet c.mem r s.cache { s.env with flight := before ++ after } =
        some (ret, s', w')) :
      Step c s ⟨s', w', s.accepted⟩

/-- The states of the runs that start from a new cache. -/
abbrev Reachable (c : SimtCache C) (s : System) : Prop := ReflTransGen (System.Step c) .init s

/-- The request a lane still waits for, if any. -/
def pending (s : State) (i : Nat) : List Packet :=
  if (s.reqs i).reg.busy then [(s.reqs i).reg.pkt] else []

/-- A lane's accepted requests are those that were answered, in order and once each, and the one it
still waits for. -/
def LaneServed (s : State) (accepted replies : List Packet) (i : Nat) : Prop :=
  ∃ done, accepted = pending s i ++ done ∧ List.Forall₂ Answered done replies

variable {c : SimtCache C} {s s' : System}

/-! ## The three kinds of steps -/

omit [DecidableEq C] in
/-- A lane is served the same way as long as its register and its logs do not change. -/
theorem LaneServed.congr {t t' : State} {accepted replies : List Packet} {i : Nat}
    (hreg : (t'.reqs i).reg = (t.reqs i).reg) (h : LaneServed t accepted replies i) :
    LaneServed t' accepted replies i := by
  unfold LaneServed pending at *
  rwa [hreg]

omit [DecidableEq C] in
theorem Delivered.laneServed {r : Packet} {t t' : State} {w w' : Env} {i : Nat}
    {accepted : List Packet} (hd : Delivered r t w t' w' i)
    (h : LaneServed t accepted (w.replies i) i) : LaneServed t' accepted (w'.replies i) i := by
  cases hd with
  | other hreq hreplies => rw [hreplies]; exact h.congr (by rw [hreq])
  | lane hbusy hreq hreplies hans hmask =>
      obtain ⟨done, haccepted, hdone⟩ := h
      refine ⟨(t.reqs i).reg.pkt :: done, ?_, ?_⟩
      · simp [haccepted, pending, hbusy, hreq, Req.freed]
      · rw [hreplies]; exact .cons hans hdone

/-- A request of a lane is refused, and then its slot is busy, or it fills its free slot. -/
theorem simtCacheReceive_lane {i : Nat} {sender : C} {pkt : Packet} {t : State} {w : Env}
    {flying : List Nat} (hs : Inv c t w.flight flying) (hi : i < c.len)
    (hlane : c.lanes i = some sender) (hmem : c.mem ≠ sender) (haddr : laneOf pkt.src = i) :
    c.simtCacheReceive quiet sender pkt t w = some (if (t.reqs i).reg.busy then (.EBUSY, t, w)
      else (.OK, t.setReq i ⟨⟨pkt, true⟩, true⟩, w)) := by
  have hqueued : (t.reqs i).reg.busy = false → (t.reqs i).queued = false := by
    intro hfree
    by_contra h
    have := hs.queued i (by simpa using h)
    simp [hfree] at this
  have hat : c.reqsAt t i = some (t.reqs i) := reqsAt_of_lt hi
  simp only [simtCacheReceive, if_neg hmem, haddr, lanesAt, if_pos hi, hlane, hat,
    Option.bind_eq_bind, Option.bind_some, ne_eq, not_true_eq_false, if_false]
  cases hbusy : (t.reqs i).reg.busy with
  | true => rfl
  | false => simp [hqueued hbusy]

/-- The two outcomes of a request. -/
theorem receive_lane_cases {i : Nat} {sender : C} {pkt : Packet} {t t' : State} {w w' : Env}
    {flying : List Nat} {ret : Stat} (hs : Inv c t w.flight flying) (hi : i < c.len)
    (hlane : c.lanes i = some sender) (hmem : c.mem ≠ sender) (haddr : laneOf pkt.src = i)
    (h : c.simtCacheReceive quiet sender pkt t w = some (ret, t', w')) :
    ((t.reqs i).reg.busy = true ∧ ret = .EBUSY ∧ t' = t ∧ w' = w) ∨
      ((t.reqs i).reg.busy = false ∧ ret = .OK ∧ t' = t.setReq i ⟨⟨pkt, true⟩, true⟩ ∧ w' = w) := by
  rw [simtCacheReceive_lane hs hi hlane hmem haddr] at h
  cases hbusy : (t.reqs i).reg.busy with
  | true =>
      obtain ⟨rfl, rfl, rfl⟩ : Stat.EBUSY = ret ∧ t = t' ∧ w = w' := by simpa [hbusy] using h
      exact Or.inl ⟨rfl, rfl, rfl, rfl⟩
  | false =>
      obtain ⟨rfl, rfl, rfl⟩ : Stat.OK = ret ∧ t.setReq i ⟨⟨pkt, true⟩, true⟩ = t' ∧ w = w' := by
        simpa [hbusy] using h
      exact Or.inr ⟨rfl, rfl, rfl, rfl⟩

omit [DecidableEq C] in
/-- A request that fills a free slot is queued. -/
theorem Inv.request_set {t : State} {flight : List Packet} {flying : List Nat} {i : Nat}
    {pkt : Packet} (hs : Inv c t flight flying) (hfree : (t.reqs i).reg.busy = false)
    (hi : i < c.len) (hlane : (c.lanes i).isSome = true) (haddr : laneOf pkt.src = i)
    (hreq : Simt.IsRequest pkt) : Inv c (t.setReq i ⟨⟨pkt, true⟩, true⟩) flight flying := by
  have hnot : ∀ j, (t.reqs j).reg.busy = true → j ≠ i := by
    rintro j hj rfl
    simp [hfree] at hj
  have hne : ∀ j ∈ flying, j ≠ i := fun j hj => hnot j (hs.sent j hj).1
  refine ⟨hs.rr, ?_, hs.nodup, ?_, ?_, ?_, ?_, ?_, ?_⟩
  · rw [hs.flight]
    exact (map_sentPacket_congr fun j hj => by rw [setReq_ne (hne j hj)]).symm
  · intro j hj
    rw [setReq_ne (hne j hj)]
    exact hs.sent j hj
  · intro j hj
    by_cases h : j = i
    · subst h; simp
    · rw [setReq_ne h] at hj ⊢; exact hs.queued j hj
  · intro j hj
    by_cases h : j = i
    · subst h; simpa using ⟨hi, hlane, haddr, hreq⟩
    · rw [setReq_ne h] at hj ⊢; exact hs.request j hj
  · intro j hj
    by_cases h : j = i
    · subst h; simp
    · rw [setReq_ne h] at hj ⊢
      refine (hs.covered j hj).imp_right (Or.imp_right fun hco => ?_)
      have hrr : ((t.setReq i ⟨⟨pkt, true⟩, true⟩).reqs t.rr.toNat) = t.reqs t.rr.toNat :=
        setReq_ne (hnot _ hco.busy) _
      exact ⟨hco.ne, by rw [setReq_rr, hrr]; exact hco.busy,
        by rw [setReq_rr, hrr, setReq_ne h]; exact hco.read⟩
  · intro j hj hrr
    rw [setReq_ne (hne j hj)]
    exact hs.owner j hj hrr
  · refine hs.order.imp_of_mem fun {j k} hj hk h => ?_
    rwa [setReq_ne (hne j hj), setReq_ne (hne k hk)]

omit [DecidableEq C] in
/-- A split of the packets in flight is a split of the slots. -/
theorem split_flying {t : State} {flying : List Nat} {before after : List Packet} {p : Packet}
    (h : before ++ p :: after = flying.map (c.sentPacket t)) :
    ∃ b i a, flying = b ++ i :: a ∧ before = b.map (c.sentPacket t) ∧ p = c.sentPacket t i ∧
      after = a.map (c.sentPacket t) := by
  obtain ⟨b, rest, rfl, hb, hrest⟩ := List.map_eq_append_iff.1 h.symm
  obtain ⟨i, a, rfl, hi, ha⟩ := List.map_eq_cons_iff.1 hrest
  exact ⟨b, i, a, rfl, hb.symm, hi.symm, ha.symm⟩

omit [DecidableEq C] in
/-- The reply to the first request to a line in flight is the one to the slot of that request. -/
theorem split_first {t : State} {flight : List Packet} {flying : List Nat}
    (hs : Inv c t flight flying) {before after : List Packet} {p r : Packet}
    (hflight : flight = before ++ p :: after) (hfirst : ∀ q ∈ before, line q ≠ line p)
    (hr : IsReply p r) :
    ∃ b i a, flying = b ++ i :: a ∧ before = b.map (c.sentPacket t) ∧ p = c.sentPacket t i ∧
      after = a.map (c.sentPacket t) ∧ IsFirst c t b i r := by
  obtain ⟨b, i, a, rfl, hb, hp, ha⟩ := split_flying (hflight.symm.trans hs.flight)
  subst hp hb ha
  refine ⟨b, i, a, rfl, rfl, rfl, rfl, fun j hj => ?_, hr⟩
  have := hfirst _ (List.mem_map_of_mem hj)
  simpa [line, sentPacket] using this

/-- A reply of the memory is taken, and keeps the invariant. -/
theorem simtCacheReceive_mem {t : State} {w : Env} {flying : List Nat}
    (hs : Inv c t w.flight flying) (hrcv : c.rcv.truncate 32 = 0#32) {before after : List Packet}
    {p r : Packet} (hflight : w.flight = before ++ p :: after)
    (hfirst : ∀ q ∈ before, line q ≠ line p) (hr : IsReply p r) :
    ∃ t' w' flying' i, c.simtCacheReceive quiet c.mem r t { w with flight := before ++ after } =
        some (.OK, t', w') ∧ Inv c t' w'.flight flying' ∧ w'.flight = before ++ after ∧
      (∀ j, Delivered r t w t' w' j) ∧ p = c.sentPacket t i ∧ w'.replies i ≠ w.replies i := by
  obtain ⟨b, i, a, rfl, rfl, rfl, rfl, hisFirst⟩ := split_first hs hflight hfirst hr
  obtain ⟨t', w', hresp, hinv, hfl, hdel, hlast⟩ := simtCacheHandleResponse_inv
    (w := { w with flight := b.map (c.sentPacket t) ++ a.map (c.sentPacket t) }) hs hrcv hisFirst
    (by rw [List.map_append])
  refine ⟨t', w', b ++ a, i, ?_, hinv, hfl, fun j => ?_, rfl, hlast⟩
  · simpa [simtCacheReceive] using hresp
  · cases hdel j with
    | other hreq hreplies => exact .other hreq hreplies
    | lane hbusy hreq hreplies hans hmask => exact .lane hbusy hreq hreplies hans hmask

/-! ## Every reachable state -/

/-- What holds in every reachable state. -/
structure Good (c : SimtCache C) (s : System) (flying : List Nat) : Prop where
  inv : Inv c s.cache s.env.flight flying
  served : ∀ i, LaneServed s.cache (s.accepted i) (s.env.replies i) i

theorem System.Step.good (hrcv : c.rcv.truncate 32 = 0#32) (hstep : System.Step c s s')
    {flying : List Nat} (hs : Good c s flying) : ∃ flying', Good c s' flying' := by
  cases hstep with
  | clock answer hanswer ret t' w' h =>
      obtain ⟨t'', w'', flying', hclock, hinv, hreg, hreplies, -⟩ :=
        simtCacheClock_inv hanswer hs.inv
      obtain ⟨-, rfl, rfl⟩ : Stat.OK = ret ∧ t'' = t' ∧ w'' = w' := by
        simpa using hclock.symm.trans h
      exact ⟨flying', hinv, fun i => by rw [hreplies]; exact (hs.served i).congr (hreg i)⟩
  | request i hi sender hlane hmem pkt haddr hreq ret t' w' h =>
      rcases receive_lane_cases hs.inv hi hlane hmem haddr h with
        ⟨-, rfl, rfl, rfl⟩ | ⟨hfree, rfl, rfl, rfl⟩
      · exact ⟨flying, hs.inv, hs.served⟩
      · refine ⟨flying, hs.inv.request_set hfree hi (by simp [hlane]) haddr hreq, fun j => ?_⟩
        by_cases hj : j = i
        · subst hj
          obtain ⟨done, haccepted, hdone⟩ := hs.served j
          refine ⟨done, ?_, hdone⟩
          simpa [pending, hfree] using haccepted
        · simpa [hj] using (hs.served j).congr (by rw [setReq_ne hj])
  | reply before p after hflight hfirst r hr ret t' w' h =>
      obtain ⟨t'', w'', flying', -, hresp, hinv, -, hdel, -, -⟩ :=
        simtCacheReceive_mem hs.inv hrcv hflight hfirst hr
      obtain ⟨-, rfl, rfl⟩ : Stat.OK = ret ∧ t'' = t' ∧ w'' = w' := by
        simpa using hresp.symm.trans h
      exact ⟨flying', hinv, fun i => (hdel i).laneServed (hs.served i)⟩

theorem Reachable.good (hlen : 0 < c.len) (hrcv : c.rcv.truncate 32 = 0#32)
    (h : Reachable c s) : ∃ flying, Good c s flying := by
  induction h with
  | refl => exact ⟨[], inv_init hlen, fun _ => ⟨[], rfl, .nil⟩⟩
  | tail _ hstep ih =>
      obtain ⟨flying, hs⟩ := ih
      exact hstep.good hrcv hs

/-! ## The result -/

/-- No assertion fires in the next step, whatever it is. -/
structure NeverAborts (c : SimtCache C) (s : System) : Prop where
  clock : ∀ answer : Packet → Stat, (∀ pkt, answer pkt = .OK ∨ answer pkt = .EBUSY) →
    ∃ s' w', c.simtCacheClock (ports answer) s.cache s.env = some (.OK, s', w')
  request : ∀ i < c.len, ∀ sender, c.lanes i = some sender → c.mem ≠ sender →
    ∀ pkt, laneOf pkt.src = i →
      ∃ ret s' w', c.simtCacheReceive quiet sender pkt s.cache s.env = some (ret, s', w') ∧
        (ret = .OK ∨ ret = .EBUSY)
  reply : ∀ before p after, s.env.flight = before ++ p :: after →
    (∀ q ∈ before, line q ≠ line p) → ∀ r, IsReply p r →
      ∃ s' w', c.simtCacheReceive quiet c.mem r s.cache { s.env with flight := before ++ after } =
        some (.OK, s', w')

/-- Each lane's accepted requests are answered in order, once each and at their own address and
mask, up to one it still waits for, and no lane waits once nothing is queued or in flight. -/
structure AnswersOnce (s : System) : Prop where
  served : ∀ i, LaneServed s.cache (s.accepted i) (s.env.replies i) i
  settled : s.env.flight = [] → (∀ i, (s.cache.reqs i).queued = false) →
    ∀ i, List.Forall₂ Answered (s.accepted i) (s.env.replies i)

/-- The slots in flight are those of the packets in flight, every busy slot is queued, in flight, or
a read of the line of a busy read in slot `rr`, and the reads of one line in flight are those of its
block owner and of slot `rr`. -/
structure Accounted (c : SimtCache C) (s : System) (flying : List Nat) : Prop where
  nodup : flying.Nodup
  flight : s.env.flight = flying.map (c.sentPacket s.cache)
  busy : ∀ i ∈ flying, (s.cache.reqs i).reg.busy = true
  covered : ∀ i, (s.cache.reqs i).reg.busy = true →
    (s.cache.reqs i).queued = true ∨ i ∈ flying ∨ Coalesced s.cache i
  reads : ∀ i ∈ flying, i = c.blockIdx (s.cache.reqs i).reg.pkt ∨ i = s.cache.rr.toNat
  two : ∀ l, (s.env.flight.filter fun p => isSet p PACKET_READ && line p == l).length ≤ 2

omit [DecidableEq C] in
/-- At most two slots may have requests to one line in flight. -/
theorem Inv.length_line_le {t : State} {flight : List Packet} {flying : List Nat}
    (hs : Inv c t flight flying) (l : Nat) :
    (flight.filter fun p => isSet p PACKET_READ && line p == l).length ≤ 2 := by
  let reads := flying.filter fun i =>
    isSet (c.sentPacket t i) PACKET_READ && line (c.sentPacket t i) == l
  have hlength : (flight.filter fun p => isSet p PACKET_READ && line p == l).length =
      reads.length := by
    rw [hs.flight, List.filter_map, List.length_map]
    rfl
  have hsub : reads.toFinset ⊆ {t.rr.toNat, l % c.len} := by
    intro i hi
    obtain ⟨hmem, hline⟩ : i ∈ flying ∧ _ := by simpa [reads] using hi
    by_cases hrr : i = t.rr.toNat
    · simp [hrr]
    · have howner := hs.owner i hmem hrr
      have : line (c.sentPacket t i) = l := hline.2
      rw [line, sentPacket, extPacket_dst] at this
      rw [blockIdx, this] at howner
      simp [howner.symm]
  rw [hlength, ← List.toFinset_card_of_nodup (hs.nodup.sublist List.filter_sublist)]
  exact (Finset.card_le_card hsub).trans Finset.card_le_two

/-- `simt_cache` answers every lane request exactly once, and its assertions never fire: for any
number of lanes, on every run in which the memory accepts or refuses freely and answers the requests
to each line in order. -/
theorem simtCache_answers_once (c : SimtCache C) (hlen : 0 < c.len)
    (hrcv : c.rcv.truncate 32 = 0#32) (s : System) (h : Reachable c s) :
    NeverAborts c s ∧ AnswersOnce s ∧ ∃ flying, Accounted c s flying := by
  obtain ⟨flying, hs⟩ := h.good hlen hrcv
  refine ⟨⟨fun answer hanswer => ?_, fun i hi sender hlane hmem pkt haddr => ?_, ?_⟩,
    ⟨hs.served, fun hflight hqueued i => ?_⟩, flying, ?_⟩
  · obtain ⟨t', w', -, hclock, -⟩ := simtCacheClock_inv hanswer hs.inv
    exact ⟨t', w', hclock⟩
  · rw [simtCacheReceive_lane hs.inv hi hlane hmem haddr]
    split
    · exact ⟨_, _, _, rfl, Or.inr rfl⟩
    · exact ⟨_, _, _, rfl, Or.inl rfl⟩
  · intro before p after hflight hfirst r hr
    obtain ⟨t', w', -, -, hresp, -⟩ := simtCacheReceive_mem hs.inv hrcv hflight hfirst hr
    exact ⟨t', w', hresp⟩
  · have hnil : flying = [] := List.map_eq_nil_iff.1 (hs.inv.flight.symm.trans hflight)
    have hnone : ∀ j, (s.cache.reqs j).reg.busy = true → Coalesced s.cache j := by
      intro j hj
      rcases hs.inv.covered j hj with h | h | h
      · simp [hqueued j] at h
      · simp [hnil] at h
      · exact h
    have hfree : (s.cache.reqs i).reg.busy = false := by
      by_contra hbusy
      have hco := hnone i (by simpa using hbusy)
      exact (hnone _ hco.busy).ne rfl
    obtain ⟨done, haccepted, hdone⟩ := hs.served i
    rw [haccepted]
    simpa [pending, hfree] using hdone
  · refine ⟨hs.inv.nodup, hs.inv.flight, fun i hi => (hs.inv.sent i hi).1, hs.inv.covered,
      fun i hi => ?_, hs.inv.length_line_le⟩
    by_cases hrr : i = s.cache.rr.toNat
    · exact Or.inr hrr
    · exact Or.inl (hs.inv.owner i hi hrr)

/-- Two lanes, named 1 and 2, in front of memory 0. -/
def twoLanes : SimtCache Nat := ⟨0, fun i => some (i + 1), 2, 0⟩

/-- A read of the line at address 64 by lane 0. -/
def load : Packet := { Packet.zero with dst := 64, mask := 0xff, flags := PACKET_READ }

/-- A read of other bytes of that line by lane 1. -/
def otherLoad : Packet := { load with src := 1 <<< 32, mask := 0xff00 }

/-- Both lanes read one line, and one reply is broadcast to them. -/
theorem load_reachable : ∃ s, Reachable twoLanes s ∧ s.accepted 0 = [load] ∧
    s.accepted 1 = [otherLoad] ∧ (s.env.replies 0).map Packet.mask = [0xff] ∧
    (s.env.replies 1).map Packet.mask = [0xff00] ∧ s.env.flight = [] ∧
    ∀ i, (s.cache.reqs i).queued = false := by
  have hinit : Reachable twoLanes .init := .refl
  have hfirst := hinit.tail (.request 0 (by decide) 1 rfl (by decide) load (by decide)
    ⟨by decide, by decide⟩ .OK _ _ rfl)
  have hsecond := hfirst.tail (.request 1 (by decide) 2 rfl (by decide) otherLoad (by decide)
    ⟨by decide, by decide⟩ .OK _ _ rfl)
  have hclock := hsecond.tail (.clock (fun _ => .OK) (fun _ => Or.inl rfl) .OK _ _ rfl)
  have hreply := hclock.tail (.reply [] _ [] rfl (by simp) _ ⟨fun _ => 7, rfl⟩ .OK _ _ rfl)
  refine ⟨_, hreply, rfl, rfl, rfl, rfl, rfl, fun i => ?_⟩
  match i with
  | 0 => rfl
  | 1 => rfl
  | i + 2 => rfl

/-- `simtCache_answers_once` on the run that broadcasts the reply to `load`. -/
theorem simtCache_answers_once_load : ∃ s, s.accepted 0 = [load] ∧ s.accepted 1 = [otherLoad] ∧
    (s.env.replies 0).map Packet.mask = [0xff] ∧ (s.env.replies 1).map Packet.mask = [0xff00] ∧
    NeverAborts twoLanes s ∧ AnswersOnce s ∧
    (∀ i, List.Forall₂ Answered (s.accepted i) (s.env.replies i)) ∧
    ∃ flying, Accounted twoLanes s flying := by
  obtain ⟨s, hs, hload, hother, hmask, hmask', hflight, hqueued⟩ := load_reachable
  obtain ⟨hnever, hanswers, haccounted⟩ :=
    simtCache_answers_once twoLanes (by decide) (by decide) s hs
  exact ⟨s, hload, hother, hmask, hmask', hnever, hanswers, hanswers.settled hflight hqueued,
    haccounted⟩

end Gran.SimtCache
