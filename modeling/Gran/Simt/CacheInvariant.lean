import Gran.Simt.Cache
import Gran.Foundations.Fold

/-!
# The invariant of the shared cache

`Inv` describes the slots by the list of those whose request is in flight. A busy slot is queued,
in flight, or `Coalesced`: a read of the line that slot `rr` reads. What makes the late reply to a
coalesced read impossible is `order`: behind the read of slot `rr` no other read of its line is in
flight, and a memory that answers each line in order answers the reads in front of it first.

`sendSlot_inv`, `advance_inv`, `broadcast_inv` and `respond_inv` say what each part of the cache
preserves.
-/

namespace Gran.SimtCache

open Simt

variable {C : Type} {c : SimtCache C}

/-- The neighbours of the cache: the requests the memory accepted and has not answered, oldest
first, and the replies each lane was handed, newest first. -/
structure Env where
  flight : List Packet
  replies : Nat → List Packet

/-- Hand a reply to a lane. -/
def Env.reply (w : Env) (i : Nat) (pkt : Packet) : Env :=
  { w with replies := Function.update w.replies i (pkt :: w.replies i) }

/-- A memory that answers `answer` to what it is sent, and lanes that accept every reply. -/
def ports (answer : Packet → Stat) : Ports Env where
  mem pkt w :=
    some (answer pkt, if answer pkt = .OK then { w with flight := w.flight ++ [pkt] } else w)
  lane i pkt w := some (.OK, w.reply i pkt)

/-- A slot waits for the reply to slot `rr`. -/
structure Coalesced (s : State) (i : Nat) : Prop where
  ne : i ≠ s.rr.toNat
  busy : (s.reqs s.rr.toNat).reg.busy = true
  read : SameRead (s.reqs i).reg.pkt (s.reqs s.rr.toNat).reg.pkt

/-- The request of slot `i` as it was sent to memory. -/
def sentPacket (c : SimtCache C) (s : State) (i : Nat) : Packet :=
  extPacket (c.rcv ||| BitVec.ofNat 64 i) (s.reqs i).reg.pkt

/-- The block an address belongs to, out of as many as there are lanes. -/
def blockIdx (c : SimtCache C) (pkt : Packet) : Nat := pkt.dst.toNat / 64 % c.len

/-- The slots `flying` are those whose request is in flight, oldest first. -/
structure Inv (c : SimtCache C) (s : State) (flight : List Packet) (flying : List Nat) : Prop where
  rr : s.rr.toNat < c.len
  flight : flight = flying.map (c.sentPacket s)
  nodup : flying.Nodup
  sent : ∀ i ∈ flying, (s.reqs i).reg.busy = true ∧ (s.reqs i).queued = false
  queued : ∀ i, (s.reqs i).queued = true → (s.reqs i).reg.busy = true
  request : ∀ i, (s.reqs i).reg.busy = true →
    i < c.len ∧ (c.lanes i).isSome = true ∧ laneOf (s.reqs i).reg.pkt.src = i ∧
      Simt.IsRequest (s.reqs i).reg.pkt
  covered : ∀ i, (s.reqs i).reg.busy = true →
    (s.reqs i).queued = true ∨ i ∈ flying ∨ Coalesced s i
  owner : ∀ i ∈ flying, i ≠ s.rr.toNat → i = c.blockIdx (s.reqs i).reg.pkt
  order : flying.Pairwise fun i j => i = s.rr.toNat →
    ¬ SameRead (s.reqs i).reg.pkt (s.reqs j).reg.pkt

/-- The invariant holds of a new cache. -/
theorem inv_init (hlen : 0 < c.len) : Inv c .init [] [] where
  rr := hlen
  flight := rfl
  nodup := List.nodup_nil
  sent _ h := by cases h
  queued _ h := by cases h
  request _ h := by cases h
  covered _ h := by cases h
  owner _ h := by cases h
  order := List.Pairwise.nil

variable {s : State} {flight : List Packet} {flying : List Nat}

@[simp] theorem setReq_self (i : Nat) (r : Req) : (s.setReq i r).reqs i = r := by
  simp [State.setReq]

/-- Writing an entry leaves the others alone. -/
theorem setReq_ne {i j : Nat} (h : j ≠ i) (r : Req) : (s.setReq i r).reqs j = s.reqs j := by
  simp [State.setReq, h]

@[simp] theorem setReq_rr (i : Nat) (r : Req) : (s.setReq i r).rr = s.rr := rfl

/-- Slots of lanes are inside of the table. -/
theorem reqsAt_of_lt {i : Nat} (h : i < c.len) : c.reqsAt s i = some (s.reqs i) := by
  simp [reqsAt, h]

/-- Requests in flight are those of the slots as long as these keep their packets. -/
theorem map_sentPacket_congr {s' : State} {l : List Nat}
    (h : ∀ i ∈ l, (s'.reqs i).reg.pkt = (s.reqs i).reg.pkt) :
    l.map (c.sentPacket s') = l.map (c.sentPacket s) :=
  List.map_congr_left fun i hi => by rw [sentPacket, sentPacket, h i hi]

/-! ## The first loop of the clock -/

/-- Only the `queued` flag of one slot changes. -/
theorem setQueued_pkt {i : Nat} {q : Bool} (j : Nat) :
    ((s.setReq i { s.reqs i with queued := q }).reqs j).reg = (s.reqs j).reg := by
  by_cases h : j = i
  · subst h; simp
  · rw [setReq_ne h]

/-- A queued read of the line of slot `rr` stops queuing. -/
theorem Inv.coalesce (hs : Inv c s flight flying) {i : Nat} (hbusy : (s.reqs i).reg.busy = true)
    (hshare : shares s.rr i (s.reqs i) (s.reqs s.rr.toNat) = true) :
    Inv c (s.setReq i { s.reqs i with queued := false }) flight flying := by
  simp only [shares, Bool.and_eq_true, beq_iff_eq, bne_iff_ne] at hshare
  obtain ⟨⟨⟨⟨hrr, hread⟩, hread'⟩, hdst⟩, hne⟩ := hshare
  have hreg := fun j => setQueued_pkt (s := s) (i := i) (q := false) j
  refine ⟨hs.rr, ?_, hs.nodup, ?_, ?_, ?_, ?_, ?_, ?_⟩
  · rw [hs.flight]
    exact (map_sentPacket_congr fun j _ => by rw [hreg]).symm
  · intro j hj
    rw [hreg]
    refine ⟨(hs.sent j hj).1, ?_⟩
    by_cases h : j = i
    · subst h; simp
    · rw [setReq_ne h]; exact (hs.sent j hj).2
  · intro j hj
    rw [hreg]
    by_cases h : j = i
    · subst h; exact hbusy
    · rw [setReq_ne h] at hj; exact hs.queued j hj
  · intro j hj
    rw [hreg] at hj ⊢
    exact hs.request j hj
  · intro j hj
    rw [hreg] at hj
    have hco : ∀ k, Coalesced s k → Coalesced (s.setReq i { s.reqs i with queued := false }) k := by
      intro k hk
      exact ⟨hk.ne, by rw [hreg]; exact hk.busy, by rw [hreg, hreg]; exact hk.read⟩
    by_cases h : j = i
    · subst h
      exact Or.inr (Or.inr (hco j ⟨hne, hrr, hread', hread, hdst⟩))
    · rw [setReq_ne h]
      exact (hs.covered j hj).imp_right (Or.imp_right (hco j))
  · intro j hj
    rw [hreg]
    exact hs.owner j hj
  · exact hs.order.imp fun h => by rwa [hreg, hreg]

/-- The memory accepts a queued request. -/
theorem Inv.send (hs : Inv c s flight flying) {i : Nat} (hbusy : (s.reqs i).reg.busy = true)
    (hqueued : (s.reqs i).queued = true)
    (hshare : shares s.rr i (s.reqs i) (s.reqs s.rr.toNat) = false)
    (hblock : c.blockIdx (s.reqs i).reg.pkt = i ∨ s.rr.toNat = i) :
    Inv c (s.setReq i { s.reqs i with queued := false }) (flight ++ [c.sentPacket s i])
      (flying ++ [i]) := by
  have hreg := fun j => setQueued_pkt (s := s) (i := i) (q := false) j
  have hnot : i ∉ flying := fun h => by simp [(hs.sent i h).2] at hqueued
  refine ⟨hs.rr, ?_, ?_, ?_, ?_, ?_, ?_, ?_, ?_⟩
  · rw [map_sentPacket_congr (s := s) fun j _ => by rw [hreg], List.map_append, ← hs.flight]
    rfl
  · rw [← List.concat_eq_append]
    exact hs.nodup.concat hnot
  · intro j hj
    rw [hreg]
    by_cases h : j = i
    · subst h; exact ⟨hbusy, by simp⟩
    · rw [setReq_ne h]
      exact hs.sent j (by simpa [h] using hj)
  · intro j hj
    rw [hreg]
    by_cases h : j = i
    · subst h; exact hbusy
    · rw [setReq_ne h] at hj; exact hs.queued j hj
  · intro j hj
    rw [hreg] at hj ⊢
    exact hs.request j hj
  · intro j hj
    rw [hreg] at hj
    by_cases h : j = i
    · subst h; simp
    · rw [setReq_ne h]
      rcases hs.covered j hj with hq | hf | hco
      · exact Or.inl hq
      · exact Or.inr (Or.inl (by simp [hf]))
      · exact Or.inr (Or.inr ⟨hco.ne, by rw [hreg]; exact hco.busy,
          by rw [hreg, hreg]; exact hco.read⟩)
  · intro j hj hne
    rw [hreg]
    rcases List.mem_append.1 hj with hj | hj
    · exact hs.owner j hj hne
    · obtain rfl : j = i := by simpa using hj
      exact (hblock.resolve_right fun h => hne h.symm).symm
  · refine List.pairwise_append.2 ⟨hs.order.imp fun h => by rwa [hreg, hreg],
      List.pairwise_singleton _ _, ?_⟩
    intro j hj k hk hrr hsame
    obtain rfl : k = i := by simpa using hk
    rw [hreg, hreg] at hsame
    simp only [setReq_rr] at hrr
    subst hrr
    -- slot `rr` reads the same line, so this request would have been coalesced
    have hne : k ≠ s.rr.toNat := fun h => hnot (h ▸ hj)
    simp [shares, (hs.sent _ hj).1, hsame.left, hsame.right, hsame.dst, hne] at hshare

/-- What serving queued requests leaves alone. -/
structure Served (s : State) (w : Env) (s' : State) (w' : Env) : Prop where
  reg : ∀ i, (s'.reqs i).reg = (s.reqs i).reg
  rr : s'.rr = s.rr
  replies : w'.replies = w.replies
  flight : ∃ new, w'.flight = w.flight ++ new

/-- Doing nothing leaves all of it alone. -/
theorem Served.refl (s : State) (w : Env) : Served s w s w :=
  ⟨fun _ => rfl, rfl, rfl, [], by simp⟩

/-- Serving requests twice leaves the same alone. -/
theorem Served.trans {s s' s'' : State} {w w' w'' : Env} (h : Served s w s' w')
    (h' : Served s' w' s'' w'') : Served s w s'' w'' := by
  obtain ⟨new, hnew⟩ := h.flight
  obtain ⟨new', hnew'⟩ := h'.flight
  exact ⟨fun i => (h'.reg i).trans (h.reg i), h'.rr.trans h.rr, h'.replies.trans h.replies,
    new ++ new', by rw [hnew', hnew, List.append_assoc]⟩

variable {answer : Packet → Stat} {w : Env}

section Clock

variable (hanswer : ∀ pkt, answer pkt = .OK ∨ answer pkt = .EBUSY)
include hanswer

/-- One iteration skips its slot, coalesces it, or offers its request to the memory. -/
theorem sendSlot_inv (hs : Inv c s w.flight flying) {i : Nat} (hi : i < c.len) :
    ∃ ok s' w' flying', c.sendSlot (ports answer) s w i = some (ok, s', w') ∧
      (ok = .OK ∨ ok = .EBUSY) ∧ Inv c s' w'.flight flying' ∧ Served s w s' w' := by
  have hskip : ∃ ok s' w' flying', some (Stat.OK, s, w) = some (ok, s', w') ∧
      (ok = .OK ∨ ok = .EBUSY) ∧ Inv c s' w'.flight flying' ∧ Served s w s' w' :=
    ⟨_, _, _, flying, rfl, Or.inl rfl, hs, .refl s w⟩
  simp only [sendSlot, reqsAt_of_lt hs.rr, reqsAt_of_lt hi, Option.bind_eq_bind, Option.bind_some,
    Option.pure_def]
  cases hqueued : (s.reqs i).queued with
  | false => simpa using hskip
  | true =>
      have hbusy := hs.queued i hqueued
      cases hshare : shares s.rr i (s.reqs i) (s.reqs s.rr.toNat) with
      | true =>
          refine ⟨.OK, _, w, flying, by simp [hbusy], Or.inl rfl, hs.coalesce hbusy hshare,
            fun j => setQueued_pkt j, rfl, rfl, [], by simp⟩
      | false =>
          by_cases hblock : c.blockIdx (s.reqs i).reg.pkt = i ∨ s.rr.toNat = i
          · have hcond : (s.reqs i).reg.pkt.dst.toNat / 64 % c.len = i ∨ s.rr.toNat = i := hblock
            rcases hanswer (c.sentPacket s i) with hans | hans
            · refine ⟨.OK, _, { w with flight := w.flight ++ [c.sentPacket s i] }, flying ++ [i],
                ?_, Or.inl rfl, hs.send hbusy hqueued hshare hblock, fun j => setQueued_pkt j, rfl,
                rfl, _, rfl⟩
              unfold sentPacket at hans
              simp [hbusy, hcond, extSend, ports, hans]
              rfl
            · refine ⟨.EBUSY, s, w, flying, ?_, Or.inr rfl, hs, .refl s w⟩
              unfold sentPacket at hans
              simp [hbusy, hcond, extSend, ports, hans]
          · have hcond : ¬ ((s.reqs i).reg.pkt.dst.toNat / 64 % c.len = i ∨ s.rr.toNat = i) :=
              hblock
            simpa [hbusy, hcond] using hskip

/-- Sending the queued requests keeps the invariant. -/
theorem sendQueued_inv {l : List Nat} (hl : ∀ i ∈ l, i < c.len)
    (hs : Inv c s w.flight flying) :
    ∃ s' w' flying', c.sendQueued (ports answer) s w l = some (.OK, s', w') ∧
      Inv c s' w'.flight flying' ∧ Served s w s' w' := by
  induction l generalizing s w flying with
  | nil => exact ⟨s, w, flying, rfl, hs, .refl s w⟩
  | cons i l ih =>
      obtain ⟨ok, s', w', flying', hslot, hok, hs', hserved⟩ :=
        sendSlot_inv hanswer hs (hl i (by simp))
      obtain ⟨s'', w'', flying'', hrest, hs'', hserved'⟩ :=
        ih (fun j hj => hl j (by simp [hj])) hs'
      refine ⟨s'', w'', flying'', ?_, hs'', hserved.trans hserved'⟩
      simp only [sendQueued, hslot, Option.bind_eq_bind, Option.bind_some, hok, if_true]
      exact hrest

end Clock

/-! ## Freeing slots -/

/-- Slots are freed and their requests leave the flight while `rr` stays. -/
theorem Inv.free (hs : Inv c s flight flying) {s' : State} {flying' : List Nat}
    (hsub : flying'.Sublist flying) (hkeep : ∀ j ∈ flying', s'.reqs j = s.reqs j)
    (hreqs : ∀ j, s'.reqs j = s.reqs j ∨ s'.reqs j = Req.freed (s.reqs j))
    (hlen : s'.rr.toNat < c.len)
    (hcovered : ∀ j, (s'.reqs j).reg.busy = true →
      (s'.reqs j).queued = true ∨ j ∈ flying' ∨ Coalesced s' j)
    (howner : ∀ j ∈ flying', j ≠ s'.rr.toNat → j = c.blockIdx (s.reqs j).reg.pkt)
    (horder : flying'.Pairwise fun i j => i = s'.rr.toNat →
      ¬ SameRead (s.reqs i).reg.pkt (s.reqs j).reg.pkt) :
    Inv c s' (flying'.map (c.sentPacket s)) flying' := by
  refine ⟨hlen, ?_, hs.nodup.sublist hsub, ?_, ?_, ?_, hcovered, ?_, ?_⟩
  · exact (map_sentPacket_congr fun j hj => by rw [hkeep j hj]).symm
  · intro j hj
    rw [hkeep j hj]
    exact hs.sent j (hsub.subset hj)
  · intro j hj
    rcases hreqs j with h | h
    · rw [h] at hj ⊢; exact hs.queued j hj
    · rw [h] at hj; simp [Req.freed] at hj
  · intro j hj
    rcases hreqs j with h | h
    · rw [h] at hj ⊢; exact hs.request j hj
    · rw [h] at hj; simp [Req.freed] at hj
  · intro j hj hne
    rw [hkeep j hj]
    exact howner j hj hne
  · exact horder.imp_of_mem fun hi hj h hrr => by rw [hkeep _ hi, hkeep _ hj]; exact h hrr

/-- When no slot relies on `rr`, slots may be freed and `rr` may move anywhere. -/
theorem Inv.free_move (hs : Inv c s flight flying) {s' : State} {flying' : List Nat}
    (hsub : flying'.Sublist flying) (hne : ∀ j ∈ flying', j ≠ s.rr.toNat)
    (hkeep : ∀ j ∈ flying', s'.reqs j = s.reqs j)
    (hreqs : ∀ j, s'.reqs j = s.reqs j ∨ s'.reqs j = Req.freed (s.reqs j))
    (hlen : s'.rr.toNat < c.len)
    (hcovered : ∀ j, (s'.reqs j).reg.busy = true → (s'.reqs j).queued = true ∨ j ∈ flying') :
    Inv c s' (flying'.map (c.sentPacket s)) flying' := by
  have howner : ∀ j ∈ flying', j = c.blockIdx (s.reqs j).reg.pkt := fun j hj =>
    hs.owner j (hsub.subset hj) (hne j hj)
  refine hs.free hsub hkeep hreqs hlen (fun j hj => ?_) (fun j hj _ => howner j hj) ?_
  · exact (hcovered j hj).imp_right Or.inl
  · -- two reads of one line in flight would have the same owner
    have hnodup : flying'.Pairwise (· ≠ ·) := hs.nodup.sublist hsub
    refine hnodup.imp_of_mem fun {i j} hi hj hij _ hsame => hij ?_
    rw [howner i hi, howner j hj, blockIdx, blockIdx, hsame.dst]

/-! ## The second loop of the clock -/

/-- `rr` stays inside of the table. -/
theorem nextRr_lt (hlen : 0 < c.len) (rr : BitVec 32) : (c.nextRr rr).toNat < c.len := by
  have hmod : (rr + 1).toNat % c.len < c.len := Nat.mod_lt _ hlen
  have hle : (rr + 1).toNat % c.len ≤ (rr + 1).toNat := Nat.mod_le _ _
  have hlt := (rr + 1).isLt
  rw [nextRr, BitVec.toNat_ofNat, Nat.mod_eq_of_lt (by omega)]
  exact hmod

/-- While slot `rr` is free, `rr` may move on. -/
theorem Inv.move (hs : Inv c s flight flying) (hfree : (s.reqs s.rr.toNat).reg.busy = false)
    {rr : BitVec 32} (hlen : rr.toNat < c.len) : Inv c { s with rr } flight flying := by
  have hnot : ∀ j ∈ flying, j ≠ s.rr.toNat := by
    rintro j hj rfl
    simp [(hs.sent _ hj).1] at hfree
  rw [hs.flight]
  refine hs.free_move (List.Sublist.refl _) hnot (fun _ _ => rfl) (fun _ => Or.inl rfl) hlen ?_
  intro j hj
  rcases hs.covered j hj with h | h | h
  · exact Or.inl h
  · exact Or.inr h
  · simp [h.busy] at hfree

/-- Moving `rr` on keeps the invariant. -/
theorem advance_inv (k : Nat) (hs : Inv c s flight flying)
    (hfree : (s.reqs s.rr.toNat).reg.busy = false) :
    ∃ s', c.advance s k = some s' ∧ Inv c s' flight flying ∧ s'.reqs = s.reqs := by
  induction k generalizing s with
  | zero => exact ⟨s, rfl, hs, rfl⟩
  | succ k ih =>
      have hlen := nextRr_lt (Nat.zero_lt_of_lt hs.rr) s.rr
      have hs' := hs.move hfree hlen
      have hat := reqsAt_of_lt (s := { s with rr := c.nextRr s.rr }) hlen
      cases hbusy : (s.reqs (c.nextRr s.rr).toNat).reg.busy with
      | true => exact ⟨_, by simp [advance, hat, hbusy], hs', rfl⟩
      | false =>
          obtain ⟨s'', hadv, hs'', hreqs⟩ := ih hs' hbusy
          exact ⟨s'', by simp [advance, hat, hbusy, hadv], hs'', hreqs⟩

/-- A clock keeps the invariant. -/
theorem simtCacheClock_inv (hanswer : ∀ pkt, answer pkt = .OK ∨ answer pkt = .EBUSY)
    (hs : Inv c s w.flight flying) :
    ∃ s' w' flying', c.simtCacheClock (ports answer) s w = some (.OK, s', w') ∧
      Inv c s' w'.flight flying' ∧ (∀ i, (s'.reqs i).reg = (s.reqs i).reg) ∧
      w'.replies = w.replies ∧ ∃ new, w'.flight = w.flight ++ new := by
  obtain ⟨s', w', flying', hsend, hs', hserved⟩ :=
    sendQueued_inv hanswer (l := List.range c.len) (fun i hi => List.mem_range.1 hi) hs
  simp only [simtCacheClock, hsend, Option.bind_eq_bind, Option.bind_some, reqsAt_of_lt hs'.rr,
    Option.pure_def]
  cases hfree : (s'.reqs s'.rr.toNat).reg.busy with
  | true => exact ⟨s', w', flying', by simp, hs', hserved.reg, hserved.replies, hserved.flight⟩
  | false =>
      obtain ⟨s'', hadv, hs'', hreqs⟩ := advance_inv c.len hs' hfree
      exact ⟨s'', w', flying', by simp [hadv], hs'', fun i => by rw [hreqs]; exact hserved.reg i,
        hserved.replies, hserved.flight⟩

/-! ## Replies -/

/-- What one iteration of a broadcast does. -/
theorem broadcastSlot_eq {pkt : Packet} {i : Nat} (hi : i < c.len)
    (hlane : (s.reqs i).reg.busy = true → (c.lanes i).isSome = true) :
    c.broadcastSlot (ports answer) pkt (s, w) i = some (if hit pkt (s.reqs i) then
      (s.setReq i (s.reqs i).freed, w.reply i (laneReply (s.reqs i) pkt)) else (s, w)) := by
  simp only [broadcastSlot, reqsAt_of_lt hi, Option.bind_eq_bind, Option.bind_some, lanesAt, hi,
    if_true]
  by_cases hbusy : (s.reqs i).reg.busy = true
  · by_cases hdst : (s.reqs i).reg.pkt.dst = pkt.src
    · by_cases hread : isSet (s.reqs i).reg.pkt PACKET_READ = true
      · simp [hit, hbusy, hdst, hread, hlane, ports, laneReply, Req.freed]
      · simp [hit, hbusy, hdst, hread]
    · simp [hit, hbusy, hdst]
  · simp [hit, hbusy]

/-- A broadcast answers the busy reads of the line and leaves the other slots alone. -/
theorem broadcast_loop (answer : Packet → Stat) (pkt : Packet) (l : List Nat)
    (hl : ∀ i ∈ l, i < c.len) (s : State) (w : Env)
    (hlane : ∀ i, (s.reqs i).reg.busy = true → (c.lanes i).isSome = true) :
    ∃ s' w', l.foldlM (c.broadcastSlot (ports answer) pkt) (s, w) = some (s', w') ∧
      s'.rr = s.rr ∧ w'.flight = w.flight ∧
      (∀ j, s'.reqs j =
        if j ∈ l ∧ hit pkt (s.reqs j) = true then (s.reqs j).freed else s.reqs j) ∧
      ∀ j, w'.replies j =
        if j ∈ l ∧ hit pkt (s.reqs j) = true then laneReply (s.reqs j) pkt :: w.replies j
        else w.replies j := by
  induction l generalizing s w with
  | nil => exact ⟨s, w, rfl, rfl, rfl, by simp, by simp⟩
  | cons i l ih =>
      have hstep : c.broadcastSlot (ports answer) pkt (s, w) i = _ :=
        broadcastSlot_eq (hl i (by simp)) (hlane i)
      cases hhit : hit pkt (s.reqs i) with
      | false =>
          obtain ⟨s', w', hrest, hrr, hflight, hreqs, hreplies⟩ :=
            ih (fun j hj => hl j (by simp [hj])) s w hlane
          have hsame : ∀ j, (j ∈ i :: l ∧ hit pkt (s.reqs j) = true) ↔
              (j ∈ l ∧ hit pkt (s.reqs j) = true) := by
            intro j
            by_cases h : j = i
            · subst h; simp [hhit]
            · simp [h]
          refine ⟨s', w', ?_, hrr, hflight, fun j => ?_, fun j => ?_⟩
          · simp only [List.foldlM_cons, hstep, hhit]
            exact hrest
          · simp only [hsame]; exact hreqs j
          · simp only [hsame]; exact hreplies j
      | true =>
          have hlane' : ∀ j, ((s.setReq i (s.reqs i).freed).reqs j).reg.busy = true →
              (c.lanes j).isSome = true := by
            intro j hj
            by_cases h : j = i
            · subst h; simp [Req.freed] at hj
            · rw [setReq_ne h] at hj; exact hlane j hj
          obtain ⟨s', w', hrest, hrr, hflight, hreqs, hreplies⟩ :=
            ih (fun j hj => hl j (by simp [hj])) (s.setReq i (s.reqs i).freed)
              (w.reply i (laneReply (s.reqs i) pkt)) hlane'
          refine ⟨s', w', ?_, hrr, hflight, fun j => ?_, fun j => ?_⟩
          · simp only [List.foldlM_cons, hstep, hhit]
            exact hrest
          · rw [hreqs j]
            by_cases h : j = i
            · subst h; simp [hit_freed, hhit]
            · simp [setReq_ne h, h]
          · rw [hreplies j]
            by_cases h : j = i
            · subst h; simp [hit_freed, hhit, Env.reply]
            · simp [setReq_ne h, h, Env.reply]

/-- `r` answers the request of slot `i`, which no older request to its line is in flight before. -/
structure IsFirst (c : SimtCache C) (s : State) (before : List Nat) (i : Nat) (r : Packet) :
    Prop where
  first : ∀ j ∈ before, (s.reqs j).reg.pkt.dst.toNat / 64 ≠ (s.reqs i).reg.pkt.dst.toNat / 64
  reply : IsReply (c.sentPacket s i) r

/-- What a reply does to a slot and its lane: nothing, or the lane gets the reply to its request and
the slot is free again. -/
inductive Delivered (r : Packet) (s : State) (w : Env) (s' : State) (w' : Env) (j : Nat) :
    Prop where
  | other (hreq : s'.reqs j = s.reqs j) (hreplies : w'.replies j = w.replies j)
  | lane (hbusy : (s.reqs j).reg.busy = true) (hreq : s'.reqs j = (s.reqs j).freed)
      (hreplies : w'.replies j = laneReply (s.reqs j) r :: w.replies j)
      (hans : Answered (s.reqs j).reg.pkt (laneReply (s.reqs j) r))
      (hmask : isSet r PACKET_READ = false → (s.reqs j).reg.pkt.mask = r.mask)

section Response

variable {before after : List Nat} {i : Nat} {r : Packet}

/-- What the assertions of `simt_cache_handle_response` ask of a reply. -/
theorem IsFirst.checks (hr : IsFirst c s before i r) (hreq : Simt.IsRequest (s.reqs i).reg.pkt) :
    isSet r PACKET_ERROR = false ∧ isSet r PACKET_DONE = true ∧
      (isSet r PACKET_READ = true → r.mask = -1) ∧ r.src = (s.reqs i).reg.pkt.dst ∧
      isSet r PACKET_READ = isSet (s.reqs i).reg.pkt PACKET_READ := by
  obtain ⟨herror, hmask, hsrc, hread⟩ := hr.reply.checks hreq.error
  exact ⟨herror, hr.reply.done, hmask, hsrc, hread⟩

/-- The reply to a slot's own request answers it. -/
theorem IsFirst.answered (hr : IsFirst c s before i r) (hreq : Simt.IsRequest (s.reqs i).reg.pkt) :
    Answered (s.reqs i).reg.pkt (laneReply (s.reqs i) r) := by
  obtain ⟨herror, hdone, -, hsrc, hread⟩ := hr.checks hreq
  exact ⟨hsrc, rfl, rfl, hread, hdone, herror⟩

/-- The slots that stay in flight do not change. -/
theorem not_mem_of_nodup (hnodup : (before ++ i :: after).Nodup) : i ∉ before ++ after := by
  have hperm : (before ++ i :: after).Perm (i :: (before ++ after)) := List.perm_middle
  exact (List.nodup_cons.1 (hperm.nodup_iff.1 hnodup)).1

variable (hs : Inv c s flight (before ++ i :: after))
include hs

/-- A reply to the slot's own request frees it. -/
theorem respond_eq (hr : IsFirst c s before i r) {rr : BitVec 32} :
    c.respond (ports answer) r i { s with rr } w =
      some (.OK, { s with rr }.setReq i (s.reqs i).freed, w.reply i (laneReply (s.reqs i) r)) := by
  have hmem : i ∈ before ++ i :: after := by simp
  obtain ⟨hbusy, hqueued⟩ := hs.sent i hmem
  obtain ⟨hlt, hlane, -, hreq⟩ := hs.request i hbusy
  obtain ⟨-, -, -, hsrc, -⟩ := hr.checks hreq
  have hat : c.reqsAt { s with rr } i = some (s.reqs i) := reqsAt_of_lt hlt
  have hlanes : c.lanesAt i = some (c.lanes i) := by simp [lanesAt, hlt]
  simp [respond, hat, hqueued, hbusy, hsrc, hlanes, hlane, ports, laneReply, Req.freed]

/-- The reply to a slot that is freed while `rr` moves or stays. -/
theorem delivered_setReq (hr : IsFirst c s before i r) {rr : BitVec 32} (j : Nat) :
    Delivered r s w ({ s with rr }.setReq i (s.reqs i).freed)
      (w.reply i (laneReply (s.reqs i) r)) j := by
  have hmem : i ∈ before ++ i :: after := by simp
  by_cases h : j = i
  · subst h
    refine .lane (hs.sent _ hmem).1 (by simp) (by simp [Env.reply])
      (hr.answered (hs.request _ (hs.sent _ hmem).1).2.2.2) fun hwrite => ?_
    rw [hr.reply.read, sentPacket, isSet_extPacket] at hwrite
    rw [hr.reply.mask, sentPacket, extPacket_mask_of_write hwrite]
  · exact .other (by rw [setReq_ne h]) (by simp [Env.reply, h])

omit hs in
/-- A slot that is freed changes or stays, whatever `rr` is. -/
theorem setReq_freed (rr : BitVec 32) (j : Nat) :
    ({ s with rr }.setReq i (s.reqs i).freed).reqs j = s.reqs j ∨
      ({ s with rr }.setReq i (s.reqs i).freed).reqs j = (s.reqs j).freed := by
  by_cases h : j = i
  · subst h
    simp
  · rw [setReq_ne h]
    exact Or.inl rfl

/-- The requests that stay in flight are not touched. -/
theorem setReq_flying (rr : BitVec 32) :
    ∀ j ∈ before ++ after, ({ s with rr }.setReq i (s.reqs i).freed).reqs j = s.reqs j := by
  intro j hj
  exact setReq_ne (by rintro rfl; exact not_mem_of_nodup hs.nodup hj) _

/-- Another slot that waits for no other request is still queued or in flight. -/
theorem covered_of_ne {j : Nat} (hj : j ≠ i) (hbusy : (s.reqs j).reg.busy = true)
    (hco : ¬ Coalesced s j) : (s.reqs j).queued = true ∨ j ∈ before ++ after := by
  rcases hs.covered j hbusy with h | h | h
  · exact Or.inl h
  · refine Or.inr ?_
    simp only [List.mem_append, List.mem_cons, hj, false_or] at h
    exact List.mem_append.2 h
  · exact absurd h hco

/-- The request of slot `rr` is not among those that stay in flight. -/
theorem ne_rr_of_flying (hrr : s.rr.toNat = i) : ∀ j ∈ before ++ after, j ≠ s.rr.toNat := by
  rintro j hj rfl
  exact not_mem_of_nodup hs.nodup (hrr ▸ hj)

/-- `simt_cache_handle_response` past its assertions: only the reply to a read of slot `rr` is
broadcast, and the reply to any request of that slot moves `rr`. -/
theorem handleResponse_eq (hrcv : c.rcv.truncate 32 = 0#32) (hr : IsFirst c s before i r) :
    c.simtCacheHandleResponse (ports answer) r s w =
      if s.rr.toNat = i then
        (if isSet r PACKET_READ then
          c.simtCacheBroadcast (ports answer) r { s with rr := c.nextRr s.rr } w
        else c.respond (ports answer) r i { s with rr := c.nextRr s.rr } w)
      else c.respond (ports answer) r i s w := by
  obtain ⟨-, -, hsrc, hreq⟩ := hs.request i (hs.sent i (by simp)).1
  obtain ⟨herror, hdone, hmask, -, -⟩ := hr.checks hreq
  have hidx : (r.dst.truncate 32).toNat = i := hr.reply.index hrcv (hsrc ▸ laneOf_lt _)
  have hiff : s.rr = r.dst.truncate 32 ↔ s.rr.toNat = i := by
    rw [← BitVec.toNat_inj, hidx]
  have hguard : (guard (isSet r PACKET_READ → r.mask = -1) : Option Unit) = some () :=
    if_pos hmask
  simp only [simtCacheHandleResponse, herror, hdone, hguard, Option.bind_eq_bind, hiff, hidx]
  simp

/-- Freeing a slot other than `rr` keeps the invariant. -/
theorem respond_inv (hrr : s.rr.toNat ≠ i) :
    Inv c (s.setReq i (s.reqs i).freed) ((before ++ after).map (c.sentPacket s))
      (before ++ after) := by
  have hsub : (before ++ after).Sublist (before ++ i :: after) := by simp
  have hrrreq : (s.setReq i (s.reqs i).freed).reqs s.rr.toNat = s.reqs s.rr.toNat :=
    setReq_ne hrr _
  refine hs.free hsub (setReq_flying hs s.rr) (setReq_freed s.rr) hs.rr (fun j hj => ?_)
    (fun j hj => hs.owner j (hsub.subset hj)) (hs.order.sublist hsub)
  by_cases h : j = i
  · subst h
    simp [Req.freed] at hj
  · rw [setReq_ne h] at hj ⊢
    by_cases hco : Coalesced s j
    · refine Or.inr (Or.inr ⟨hco.ne, ?_, ?_⟩)
      · rw [setReq_rr, hrrreq]
        exact hco.busy
      · rw [setReq_rr, hrrreq, setReq_ne h]
        exact hco.read
    · exact (covered_of_ne hs h hj hco).imp_right Or.inl

/-- Freeing slot `rr` keeps the invariant if it held a write, which no read waits for. -/
theorem respond_write_inv (hrr : s.rr.toNat = i)
    (hwrite : isSet (s.reqs i).reg.pkt PACKET_READ = false) :
    Inv c ({ s with rr := c.nextRr s.rr }.setReq i (s.reqs i).freed)
      ((before ++ after).map (c.sentPacket s)) (before ++ after) := by
  refine hs.free_move (by simp) (ne_rr_of_flying hs hrr) (setReq_flying hs _) (setReq_freed _)
    (nextRr_lt (Nat.zero_lt_of_lt hs.rr) s.rr) fun j hj => ?_
  by_cases h : j = i
  · subst h
    simp [Req.freed] at hj
  · rw [setReq_ne h] at hj ⊢
    refine covered_of_ne hs h hj fun hco => ?_
    have hread := hco.read.right
    rw [hrr, hwrite] at hread
    cases hread

/-- A broadcast answers and frees the busy reads of its line, of all lanes. -/
theorem broadcast_eq (answer : Packet → Stat) (w : Env) (rr : BitVec 32)
    (hkind : isSet r PACKET_READ = true) :
    ∃ s' w', c.simtCacheBroadcast (ports answer) r { s with rr } w = some (.OK, s', w') ∧
      s'.rr = rr ∧ w'.flight = w.flight ∧
      (∀ j, s'.reqs j = if hit r (s.reqs j) then (s.reqs j).freed else s.reqs j) ∧
      ∀ j, w'.replies j =
        if hit r (s.reqs j) then laneReply (s.reqs j) r :: w.replies j else w.replies j := by
  obtain ⟨s', w', hloop, hrr', hflight', hreqs', hreplies'⟩ := broadcast_loop answer r
    (List.range c.len) (fun j hj => List.mem_range.1 hj) { s with rr } w
    fun j hj => (hs.request j hj).2.1
  -- a slot that is hit is busy, so it is one of the lanes
  have hall : ∀ j, (j ∈ List.range c.len ∧ hit r (s.reqs j) = true) ↔ hit r (s.reqs j) = true :=
    fun j => and_iff_right_of_imp fun h => List.mem_range.2 (hs.request j (hit_iff.1 h).1).1
  simp only [hall] at hreqs' hreplies'
  refine ⟨s', w', ?_, hrr', hflight', hreqs', hreplies'⟩
  simp only [simtCacheBroadcast, hkind, guard_true, Option.bind_eq_bind, hloop]
  rfl

/-- The reply to a read of slot `rr` hits that slot. -/
theorem hit_self (hr : IsFirst c s before i r) (hkind : isSet r PACKET_READ = true) :
    hit r (s.reqs i) = true := by
  have hbusy := (hs.sent i (by simp)).1
  obtain ⟨-, -, -, hrsrc, hread⟩ := hr.checks (hs.request i hbusy).2.2.2
  exact hit_iff.2 ⟨hbusy, hrsrc.symm, hread ▸ hkind⟩

/-- It hits no request that stays in flight: in front of it the memory would have answered that one
first, and behind it `order` leaves no read of the line. -/
theorem not_hit_of_flying (hr : IsFirst c s before i r) (hrr : s.rr.toNat = i)
    (hkind : isSet r PACKET_READ = true) : ∀ j ∈ before ++ after, hit r (s.reqs j) = false := by
  obtain ⟨-, -, -, hrsrc, hread⟩ := hr.checks (hs.request i (hs.sent i (by simp)).1).2.2.2
  intro j hj
  rw [Bool.eq_false_iff]
  intro h
  obtain ⟨-, hdst, hjread⟩ := hit_iff.1 h
  rcases List.mem_append.1 hj with hj | hj
  · exact hr.first j hj (by rw [hdst, hrsrc])
  · have horder := (List.pairwise_cons.1 (List.pairwise_append.1 hs.order).2.1).1 j hj
    exact horder hrr.symm ⟨hread ▸ hkind, hjread, by rw [hdst, hrsrc]⟩

/-- A broadcast for slot `rr` keeps the invariant: the reads that wait for the slot are answered. -/
theorem broadcast_inv (hr : IsFirst c s before i r) (hrr : s.rr.toNat = i)
    (hkind : isSet r PACKET_READ = true) {s' : State} (hrr' : s'.rr = c.nextRr s.rr)
    (hreqs : ∀ j, s'.reqs j = if hit r (s.reqs j) then (s.reqs j).freed else s.reqs j) :
    Inv c s' ((before ++ after).map (c.sentPacket s)) (before ++ after) := by
  obtain ⟨-, -, -, hrsrc, -⟩ := hr.checks (hs.request i (hs.sent i (by simp)).1).2.2.2
  have hhit := hit_self hs hr hkind
  have hmiss := not_hit_of_flying hs hr hrr hkind
  refine hs.free_move (by simp) (ne_rr_of_flying hs hrr)
    (fun j hj => by rw [hreqs j, hmiss j hj]; rfl) (fun j => ?_)
    (hrr' ▸ nextRr_lt (Nat.zero_lt_of_lt hs.rr) s.rr) fun j hj => ?_
  · rw [hreqs j]
    cases hit r (s.reqs j) <;> simp
  · cases h : hit r (s.reqs j) with
    | true =>
        rw [hreqs j, h] at hj
        simp [Req.freed] at hj
    | false =>
        rw [hreqs j, h] at hj ⊢
        have hji : j ≠ i := by
          rintro rfl
          rw [hhit] at h
          cases h
        refine covered_of_ne hs hji hj fun hco => ?_
        have hjhit : hit r (s.reqs j) = true :=
          hit_iff.2 ⟨hj, by rw [hco.read.dst, hrr, hrsrc], hco.read.left⟩
        rw [hjhit] at h
        cases h

/-- What a broadcast does to each slot and its lane. -/
theorem delivered_broadcast (hr : IsFirst c s before i r) (hkind : isSet r PACKET_READ = true)
    {s' : State} {w' : Env}
    (hreqs : ∀ j, s'.reqs j = if hit r (s.reqs j) then (s.reqs j).freed else s.reqs j)
    (hreplies : ∀ j, w'.replies j =
      if hit r (s.reqs j) then laneReply (s.reqs j) r :: w.replies j else w.replies j) (j : Nat) :
    Delivered r s w s' w' j := by
  obtain ⟨herror, hdone, -, -, -⟩ := hr.checks (hs.request i (hs.sent i (by simp)).1).2.2.2
  cases h : hit r (s.reqs j) with
  | true =>
      obtain ⟨hjbusy, hjdst, hjread⟩ := hit_iff.1 h
      refine .lane hjbusy (by rw [hreqs j, h]; rfl) (by rw [hreplies j, h]; rfl)
        ⟨hjdst.symm, rfl, rfl, hkind.trans hjread.symm, hdone, herror⟩ fun hwrite => ?_
      rw [hkind] at hwrite
      cases hwrite
  | false => exact .other (by rw [hreqs j, h]; rfl) (by rw [hreplies j, h]; rfl)

/-- A reply keeps the invariant: it takes its request out of the flight, and answers and frees the
slot of the request, with the reads that wait for it when it is the one of slot `rr`. -/
theorem simtCacheHandleResponse_inv (hrcv : c.rcv.truncate 32 = 0#32)
    (hr : IsFirst c s before i r) (hflight : w.flight = (before ++ after).map (c.sentPacket s)) :
    ∃ s' w', c.simtCacheHandleResponse (ports answer) r s w = some (.OK, s', w') ∧
      Inv c s' w'.flight (before ++ after) ∧ w'.flight = w.flight ∧
      (∀ j, Delivered r s w s' w' j) ∧ w'.replies i ≠ w.replies i := by
  obtain ⟨-, -, -, -, hread⟩ := hr.checks (hs.request i (hs.sent i (by simp)).1).2.2.2
  have hlast : (w.reply i (laneReply (s.reqs i) r)).replies i ≠ w.replies i := by
    simp [Env.reply]
  rw [handleResponse_eq hs hrcv hr]
  by_cases hrr : s.rr.toNat = i
  · rw [if_pos hrr]
    cases hkind : isSet r PACKET_READ with
    | false =>
        rw [if_neg (by simp), respond_eq hs hr]
        exact ⟨_, _, rfl, hflight ▸ respond_write_inv hs hrr (hread ▸ hkind), rfl,
          delivered_setReq hs hr, hlast⟩
    | true =>
        obtain ⟨s', w', hbroadcast, hrr', hflight', hreqs, hreplies⟩ :=
          broadcast_eq hs answer w (c.nextRr s.rr) hkind
        rw [if_pos rfl, hbroadcast]
        refine ⟨s', w', rfl, ?_, hflight', delivered_broadcast hs hr hkind hreqs hreplies, ?_⟩
        · rw [hflight', hflight]
          exact broadcast_inv hs hr hrr hkind hrr' hreqs
        · rw [hreplies i, hit_self hs hr hkind]
          simp
  · rw [if_neg hrr, respond_eq hs hr]
    exact ⟨_, _, rfl, hflight ▸ respond_inv hs hrr, rfl, delivered_setReq hs hr, hlast⟩

end Response

end Gran.SimtCache
