import Gran.Mem.IdealAlloc

/-!
# Which requests to the region allocator are answered

Every clock of the allocator does one of the four things of `Clocks`. Two of them break what the two
registers are there for: a clock that finds no request offers no pending reply, and a request of
another operation is never taken out of the input register. `idealAlloc_answers_once` says that
every request is answered exactly once exactly if no clock of the run does either.
-/

namespace Gran.Alloc

open SearchTree

variable {tree : Store Region regionCmp}

/-- The operations of the `switch` of `alloc_clock`. -/
def Known (pkt : Packet) : Prop :=
  let off : BitVec 32 := pkt.dst.truncate 32
  off = ALLOC_IF_NEW ∨ off = ALLOC_IF_RM ∨ off = ALLOC_IF_Q

/-- A reply goes back where its request came from, and carries it otherwise but for the data. -/
def IsReply (request reply : Packet) : Prop :=
  ∃ r start stop, reply = { response request with data := writeAllocIfR request.data r start stop }

/-! ## What an operation does -/

/-- What an operation decides, and the allocator it leaves before the reply is sent. -/
structure Outcome (tree : Store Region regionCmp) where
  ret : AllocIfRet
  start : Word
  stop : Word
  alloc : Alloc tree

/-- The outcome of `alloc_new`. -/
def newOutcome (a : Alloc tree) : Outcome tree :=
  let n := a.inn.pkt.allocIfNew
  if n.space ≥ a.maxSpaces then ⟨.ERR_SPACE, 0, 0, a⟩
  else
    let inserted := tree.insert (a.spaces n.space) ⟨n.start, n.stop⟩
    if inserted.1 then ⟨.OK, n.start, n.stop, a.setSpace n.space inserted.2⟩
    else ⟨.ERR_RANGE, 0, 0, a.setSpace n.space inserted.2⟩

/-- The outcome of `alloc_rm`. -/
def rmOutcome (a : Alloc tree) : Outcome tree :=
  let rm := a.inn.pkt.allocIfNew
  if rm.space ≥ a.maxSpaces then ⟨.ERR_SPACE, 0, 0, a⟩
  else
    let found := tree.find (a.spaces rm.space) ⟨rm.start, rm.stop⟩
    match found.1 with
    | none => ⟨.ERR_RANGE, 0, 0, a.setSpace rm.space found.2⟩
    | some region => ⟨.OK, 0, 0, a.setSpace rm.space (tree.remove found.2 region)⟩

/-- The outcome of `alloc_q`. -/
def qOutcome (a : Alloc tree) : Outcome tree :=
  let q := a.inn.pkt.allocIfQ
  if q.space ≥ a.maxSpaces then ⟨.ERR_SPACE, 0, 0, a⟩
  else
    let found := tree.find (a.spaces q.space) ⟨q.addr, q.addr⟩
    match found.1 with
    | none => ⟨.ERR_RANGE, 0, 0, a.setSpace q.space found.2⟩
    | some region => ⟨.OK, region.start, region.stop, a.setSpace q.space found.2⟩

/-- The outcome of the `switch`, for the three operations. -/
def outcome (a : Alloc tree) : Outcome tree :=
  let off : BitVec 32 := a.inn.pkt.dst.truncate 32
  if off = ALLOC_IF_NEW then newOutcome a
  else if off = ALLOC_IF_RM then rmOutcome a
  else qOutcome a

/-- `alloc_new` replies with its outcome. -/
theorem allocNew_eq (now : Stat) (a : Alloc tree) :
    (allocNew now a).2 = (allocResp now (newOutcome a).alloc (newOutcome a).ret (newOutcome a).start
      (newOutcome a).stop).2 := by
  simp only [allocNew, newOutcome]
  split
  · rfl
  · split <;> rfl

/-- `alloc_rm` replies with its outcome. -/
theorem allocRm_eq (now : Stat) (a : Alloc tree) :
    (allocRm now a).2 = (allocResp now (rmOutcome a).alloc (rmOutcome a).ret (rmOutcome a).start
      (rmOutcome a).stop).2 := by
  simp only [allocRm, rmOutcome]
  split
  · rfl
  · rcases tree.find _ _ with ⟨_ | region, t⟩ <;> rfl

/-- `alloc_q` replies with its outcome. -/
theorem allocQ_eq (now : Stat) (a : Alloc tree) :
    (allocQ now a).2 = (allocResp now (qOutcome a).alloc (qOutcome a).ret (qOutcome a).start
      (qOutcome a).stop).2 := by
  simp only [allocQ, qOutcome]
  split
  · rfl
  · rcases tree.find _ _ with ⟨_ | region, t⟩ <;> rfl

/-- Each of the three operations sends exactly one reply, the one of its outcome. -/
theorem allocOp_eq (now : Stat) {a : Alloc tree} (h : Known a.inn.pkt) :
    (allocOp now a).2 = (allocResp now (outcome a).alloc (outcome a).ret (outcome a).start
      (outcome a).stop).2 := by
  simp only [allocOp, outcome]
  split
  · exact allocNew_eq now a
  · split
    · exact allocRm_eq now a
    · rename_i hnew hrm
      rw [if_pos ((h.resolve_left hnew).resolve_left hrm)]
      exact allocQ_eq now a

/-- Operations leave the registers to the reply. -/
theorem outcome_regs (a : Alloc tree) :
    (outcome a).alloc.inn = a.inn ∧ (outcome a).alloc.out = a.out ∧
      (outcome a).alloc.maxSpaces = a.maxSpaces := by
  simp only [outcome, newOutcome, rmOutcome, qOutcome]
  split
  · split
    · exact ⟨rfl, rfl, rfl⟩
    · split <;> exact ⟨rfl, rfl, rfl⟩
  · split
    · split
      · exact ⟨rfl, rfl, rfl⟩
      · split <;> exact ⟨rfl, rfl, rfl⟩
    · split
      · exact ⟨rfl, rfl, rfl⟩
      · split <;> exact ⟨rfl, rfl, rfl⟩

/-- The reply that an outcome stands for. -/
def reply (request : Packet) (o : Outcome tree) : Packet :=
  { response request with data := writeAllocIfR request.data o.ret o.start o.stop }

/-- Sending a reply frees the input register, and a refused reply goes to the output register. -/
theorem allocOp_spec (now : Stat) {a : Alloc tree} (h : Known a.inn.pkt) :
    (allocOp now a).2.1 = { (outcome a).alloc with
        inn := { a.inn with busy := false }
        out := if now = .EBUSY then ⟨reply a.inn.pkt (outcome a), true⟩ else a.out } ∧
      (allocOp now a).2.2 = [⟨reply a.inn.pkt (outcome a), now⟩] := by
  obtain ⟨hinn, hout, -⟩ := outcome_regs a
  rw [allocOp_eq now h]
  unfold allocResp reply
  dsimp only
  rw [hinn]
  split
  · exact ⟨rfl, rfl⟩
  · rw [← hout]
    exact ⟨rfl, rfl⟩

/-- Another operation does nothing. -/
theorem allocOp_unknown (now : Stat) {a : Alloc tree} (h : ¬ Known a.inn.pkt) :
    allocOp now a = (.OK, a, []) := by
  obtain ⟨hnew, hrm, hq⟩ : _ ∧ _ ∧ _ := by simpa [Known, not_or] using h
  simp only [allocOp, hnew, hrm, hq, if_false]

/-! ## What a clock does -/

/-- The offer of the reply that was refused before, if there is one. -/
def reoffer (again : Stat) (a : Alloc tree) : List Offer :=
  if a.out.busy then [⟨a.out.pkt, again⟩] else []

/-- The allocator whose pending reply is gone. -/
def sent (a : Alloc tree) : Alloc tree := { a with out := { a.out with busy := false } }

/-- What a clock can do: nothing, because there is no request; offer the pending reply in vain; get
stuck at a request of another operation; or reply to a request. -/
inductive Clocks (again now : Stat) (a : Alloc tree) : Alloc tree → List Offer → Prop where
  | idle (hin : a.inn.busy = false) : Clocks again now a a []
  | refused (hin : a.inn.busy = true) (hout : a.out.busy = true) (hagain : again = .EBUSY) :
      Clocks again now a a (reoffer again a)
  | stuck (hin : a.inn.busy = true) (hgone : a.out.busy = true → again = .OK)
      (hop : ¬ Known a.inn.pkt) : Clocks again now a (sent a) (reoffer again a)
  | served (hin : a.inn.busy = true) (hgone : a.out.busy = true → again = .OK)
      (hop : Known a.inn.pkt) :
      Clocks again now a { (outcome (sent a)).alloc with
          inn := { a.inn with busy := false }
          out := if now = .EBUSY then ⟨reply a.inn.pkt (outcome (sent a)), true⟩ else (sent a).out }
        (reoffer again a ++ [⟨reply a.inn.pkt (outcome (sent a)), now⟩])

/-- A clock does one of four things. -/
theorem allocClock_cases {again now ret : Stat} {a a' : Alloc tree} {offers : List Offer}
    (h : allocClock again now a = some (ret, a', offers)) : Clocks again now a a' offers := by
  -- a clock that gets to the `switch` with the pending reply gone
  have hswitch : a.inn.busy = true → (a.out.busy = true → again = .OK) →
      (allocOp now (sent a)).2.1 = a' → reoffer again a ++ (allocOp now (sent a)).2.2 = offers →
      Clocks again now a a' offers := by
    rintro hin hgone rfl rfl
    by_cases hop : Known a.inn.pkt
    · obtain ⟨halloc, hoffers⟩ := allocOp_spec now (a := sent a) hop
      rw [halloc, hoffers]
      exact .served hin hgone hop
    · rw [allocOp_unknown now (a := sent a) hop, List.append_nil]
      exact .stuck hin hgone hop
  unfold allocClock at h
  cases hin : a.inn.busy with
  | false =>
      rw [hin] at h
      cases h
      exact .idle hin
  | true =>
      rw [hin, if_pos rfl] at h
      cases hout : a.out.busy with
      | false =>
          have hsent : sent a = a := by simp only [sent, ← hout]
          rw [hout] at h
          have h' := Option.some.inj h
          refine hswitch hin (fun hb => absurd hb (by simp [hout])) ?_ ?_
          · rw [hsent, h']
          · rw [hsent, h', reoffer, hout]
            rfl
      | true =>
          rw [hout, if_pos rfl] at h
          by_cases hagain : again = .EBUSY
          · rw [if_pos hagain] at h
            cases h
            have hrefused : Clocks again now a _ _ := .refused hin hout hagain
            rwa [reoffer, if_pos hout] at hrefused
          · rw [if_neg hagain] at h
            obtain ⟨u, hguard, h⟩ := Option.bind_eq_some_iff.1 h
            have hok : again = .OK := by
              by_contra hne
              simp [hne] at hguard
            cases h
            refine hswitch hin (fun _ => hok) rfl ?_
            rw [reoffer, if_pos hout]
            rfl

/-! ## Answering every request -/

/-- What a clock owes: it offers the reply that was refused, replies to the request once that reply
is gone, and leaves both registers free when the connected component accepts what it is offered. -/
structure Serves (c : Clocked tree) : Prop where
  offered : ∀ pkt, c.before.out.held = some pkt → ∃ o ∈ c.offers, o.pkt = pkt
  answered : ∀ request, c.before.inn.held = some request →
    (c.before.out.busy = true → c.again = .OK) →
    c.after.inn.held = none ∧ ∃ o ∈ c.offers, IsReply request o.pkt
  drained : c.again = .OK → c.now = .OK → c.after.inn.held = none ∧ c.after.out.held = none

/-- Every request is answered exactly once. The requests accepted are those replied to, in the same
order, and the one in the input register; the replies are those handed over with `OK` and the one in
the output register; and every clock does what it owes. -/
structure AnswersOnce (r : Run tree) : Prop where
  taken : r.accepted = r.answered.map Prod.fst ++ r.state.inn.held.toList
  handed : r.answered.map Prod.snd = r.delivered ++ r.state.out.held.toList
  replies : ∀ p ∈ r.answered, IsReply p.1 p.2
  serves : ∀ c ∈ r.clocks, Serves c

/-- A clock that finds a pending reply finds a request too, and a request it gets to is one of the
three operations. -/
def Heard (c : Clocked tree) : Prop :=
  (c.before.out.busy = true → c.before.inn.busy = true) ∧
    (c.before.inn.busy = true → (c.before.out.busy = true → c.again = .OK) →
      Known c.before.inn.pkt)

/-- The output register is free when its reply was taken. -/
theorem held_sent (a : Alloc tree) : (sent a).out.held = none := rfl

/-- The reply of an outcome is one to the request. -/
theorem isReply_reply (request : Packet) (o : Outcome tree) : IsReply request (reply request o) :=
  ⟨o.ret, o.start, o.stop, rfl⟩

/-- A clock that serves was heard: an unheard one offers nothing, or replies to nothing. -/
theorem Serves.heard {c : Clocked tree} (hs : Serves c)
    (h : Clocks c.again c.now c.before c.after c.offers) : Heard c := by
  obtain ⟨before, again, now, after, offers⟩ := c
  dsimp only at h
  cases h with
  | idle hin =>
      -- nothing was offered, so nothing was pending
      refine ⟨fun hout => ?_, fun hbusy => absurd hbusy (by simp [hin])⟩
      obtain ⟨o, ho, -⟩ := hs.offered before.out.pkt (Reg.held_eq_some.2 ⟨hout, rfl⟩)
      cases ho
  | refused hin hout hagain =>
      refine ⟨fun _ => hin, fun _ hgone => ?_⟩
      rw [hagain] at hgone
      cases hgone hout
  | stuck hin hgone hop =>
      obtain ⟨hfree, -⟩ := hs.answered before.inn.pkt (Reg.held_eq_some.2 ⟨hin, rfl⟩) hgone
      have hbusy : before.inn.busy = false := Reg.held_eq_none.1 hfree
      rw [hin] at hbusy
      cases hbusy
  | served hin hgone hop => exact ⟨fun _ => hin, fun _ _ => hop⟩

/-- A clock that is heard serves. -/
theorem Heard.serves {c : Clocked tree} (hheard : Heard c)
    (h : Clocks c.again c.now c.before c.after c.offers) : Serves c := by
  obtain ⟨before, again, now, after, offers⟩ := c
  dsimp only at h
  obtain ⟨hrequest, hknown⟩ := hheard
  -- a pending reply is offered whenever there is a request
  have hoffer : ∀ pkt, before.out.held = some pkt →
      ∃ o ∈ reoffer again before, o.pkt = pkt := by
    intro pkt hpkt
    obtain ⟨hout, rfl⟩ := Reg.held_eq_some.1 hpkt
    exact ⟨⟨before.out.pkt, again⟩, by simp [reoffer, hout], rfl⟩
  cases h with
  | idle hin =>
      have hout : before.out.busy = false := by
        by_contra hne
        have := hrequest (by simpa using hne)
        simp [hin] at this
      have hnone : before.out.held = none := Reg.held_eq_none.2 hout
      have hinn : before.inn.held = none := Reg.held_eq_none.2 hin
      refine ⟨fun pkt hpkt => ?_, fun request hreq => ?_, fun _ _ => ⟨hinn, hnone⟩⟩
      · rw [hnone] at hpkt
        cases hpkt
      · rw [hinn] at hreq
        cases hreq
  | refused hin hout hagain =>
      refine ⟨hoffer, fun _ _ hgone => ?_, fun hok => ?_⟩
      · have := hagain.symm.trans (hgone hout)
        cases this
      · have := hagain.symm.trans hok
        cases this
  | stuck hin hgone hop => exact absurd (hknown hin hgone) hop
  | served hin hgone hop =>
      refine ⟨fun pkt hpkt => ?_, fun request hreq _ => ⟨rfl, ?_⟩, fun _ hnow => ⟨rfl, ?_⟩⟩
      · obtain ⟨o, ho, hopkt⟩ := hoffer pkt hpkt
        exact ⟨o, List.mem_append_left _ ho, hopkt⟩
      · obtain ⟨-, rfl⟩ := Reg.held_eq_some.1 hreq
        exact ⟨_, List.mem_append_right _ (List.mem_singleton.2 rfl), isReply_reply _ _⟩
      · dsimp only at hnow ⊢
        rw [hnow]
        rfl

/-! ## Runs -/

/-- What every run keeps, whether or not its requests are answered. -/
structure Run.Accounted (r : Run tree) : Prop where
  taken : r.accepted = r.answered.map Prod.fst ++ r.state.inn.held.toList
  handed : r.answered.map Prod.snd = r.delivered ++ r.state.out.held.toList
  replies : ∀ p ∈ r.answered, IsReply p.1 p.2
  clocks : ∀ c ∈ r.clocks, Clocks c.again c.now c.before c.after c.offers

/-- A clock takes the request it replies to out of the input register, and what it hands over out of
the output register. -/
theorem Clocks.accounts {again now : Stat} {a a' : Alloc tree} {offers : List Offer}
    (hnow : now = .OK ∨ now = .EBUSY) (h : Clocks again now a a' offers) :
    let c : Clocked tree := ⟨a, again, now, a', offers⟩
    a.inn.held.toList = c.answered.toList.map Prod.fst ++ a'.inn.held.toList ∧
      a.out.held.toList ++ c.answered.toList.map Prod.snd = c.delivered ++ a'.out.held.toList ∧
      ∀ p, c.answered = some p → IsReply p.1 p.2 := by
  -- what a clock hands over of the pending reply when that is gone
  have hgone' : (a.out.busy = true → again = .OK) →
      ((reoffer again a).filter fun o => o.ret = .OK).map Offer.pkt = a.out.held.toList := by
    intro hgone
    cases hout : a.out.busy with
    | false => simp [reoffer, hout, Reg.held]
    | true => simp [reoffer, hout, Reg.held, hgone hout]
  cases h with
  | idle hin => simp [Clocked.answered, Clocked.delivered, hin]
  | refused hin hout hagain =>
      simp [Clocked.answered, Clocked.delivered, hin, hout, hagain, reoffer]
  | stuck hin hgone hop =>
      have hstill : (sent a).inn.busy = true := hin
      simp only [Clocked.answered, Clocked.delivered, hin, hstill, hgone' hgone, held_sent]
      simp [sent]
  | served hin hgone hop =>
      have hheld : a.inn.held = some a.inn.pkt := Reg.held_eq_some.2 ⟨hin, rfl⟩
      have hlast : ∀ (t : Alloc tree) (pkt : Packet), t.inn.busy = false →
          Clocked.answered ⟨a, again, now, t, reoffer again a ++ [⟨pkt, now⟩]⟩ =
            some (a.inn.pkt, pkt) := by
        intro t pkt ht
        simp [Clocked.answered, hin, ht]
      dsimp only
      rw [hlast _ _ rfl]
      refine ⟨by simp [hheld], ?_, ?_⟩
      · simp only [Clocked.delivered, List.filter_append, List.map_append, hgone' hgone]
        rcases hnow with rfl | rfl <;> simp [held_sent]
      · rintro p hp
        obtain rfl := Option.some.inj hp
        exact isReply_reply _ _

/-- A step keeps account of requests and replies. -/
theorem Run.Step.accounted {r r' : Run tree} (h : r.Step r') (hr : r.Accounted) : r'.Accounted := by
  obtain ⟨htaken, hhanded, hreplies, hclocks⟩ := hr
  cases h with
  | receive pkt =>
      unfold allocReceive
      cases hin : r.state.inn.busy with
      | true => exact ⟨by simpa using htaken, by simpa using hhanded, hreplies, hclocks⟩
      | false =>
          have hnone : r.state.inn.held = none := Reg.held_eq_none.2 hin
          rw [hnone, Option.toList_none, List.append_nil] at htaken
          refine ⟨?_, hhanded, hreplies, hclocks⟩
          show r.accepted ++ [pkt] = r.answered.map Prod.fst ++ [pkt]
          rw [htaken]
  | clock again now hagain hnow ret a' offers h =>
      have hcases := allocClock_cases h
      obtain ⟨htake, hhand, hreply⟩ := hcases.accounts hnow
      have hanswered : Run.answered { r with
            state := a'
            clocks := r.clocks ++ [⟨r.state, again, now, a', offers⟩] } =
          r.answered ++ (Clocked.answered ⟨r.state, again, now, a', offers⟩).toList := by
        rw [Run.answered, List.filterMap_append]
        congr 1
      have hdelivered : Run.delivered { r with
            state := a'
            clocks := r.clocks ++ [⟨r.state, again, now, a', offers⟩] } =
          r.delivered ++ Clocked.delivered ⟨r.state, again, now, a', offers⟩ := by
        simp [Run.delivered]
      refine ⟨?_, ?_, ?_, ?_⟩
      · show r.accepted = _
        rw [hanswered, List.map_append, htaken, htake, List.append_assoc]
      · rw [hanswered, hdelivered, List.map_append, hhanded, List.append_assoc, List.append_assoc,
          hhand]
      · rw [hanswered]
        intro p hp
        rcases List.mem_append.1 hp with hp | hp
        · exact hreplies p hp
        · exact hreply p (Option.mem_toList.1 hp)
      · intro c hc
        rcases List.mem_append.1 hc with hc | hc
        · exact hclocks c hc
        · rw [List.mem_singleton.1 hc]
          exact hcases

/-- Every reachable run keeps account of requests and replies. -/
theorem Run.Reachable.accounted {maxSpaces : Word} {r : Run tree} (h : r.Reachable maxSpaces) :
    r.Accounted := by
  induction h with
  | refl => exact ⟨rfl, rfl, by simp [Run.answered, Run.init], by simp [Run.init]⟩
  | tail _ hstep ih => exact hstep.accounted ih

/-- The region allocator answers every request exactly once exactly if every clock of the run that
finds a pending reply also finds a request, and every request a clock gets to is one of the three
operations. A clock without a request offers no pending reply, and a request of another operation
stays in the input register for ever. -/
theorem idealAlloc_answers_once {maxSpaces : Word} {r : Run tree} (h : r.Reachable maxSpaces) :
    AnswersOnce r ↔ ∀ c ∈ r.clocks, Heard c := by
  obtain ⟨htaken, hhanded, hreplies, hclocks⟩ := h.accounted
  constructor
  · intro hanswers c hc
    exact (hanswers.serves c hc).heard (hclocks c hc)
  · intro hheard
    exact ⟨htaken, hhanded, hreplies, fun c hc => (hheard c hc).serves (hclocks c hc)⟩

/-- A request that adds the empty region at 0 to space 0. -/
def addEmpty : Packet := { Packet.zero with flags := PACKET_WRITE }

/-- `idealAlloc_answers_once` for two requests: the reply to the first one is refused twice, and
offered again while the second one is there. -/
theorem idealAlloc_answers_once_addEmpty :
    ∃ r : Run (Store.plain Region regionCmp),
      r.accepted = [addEmpty, { addEmpty with dst := 0x80 }] ∧
      r.clocks.map (fun c => c.offers.map Offer.ret) = [[.EBUSY], [.EBUSY], [.OK, .OK]] ∧
      r.delivered.length = 2 ∧ AnswersOnce r := by
  have hinit : (Run.init (Store.plain Region regionCmp) 1).Reachable 1 := .refl
  have hasked := hinit.tail (.receive addEmpty)
  have hrefused := hasked.tail (.clock .OK .EBUSY (Or.inl rfl) (Or.inr rfl) _ _ _ rfl)
  have hsecond := hrefused.tail (.receive { addEmpty with dst := 0x80 })
  have hagain := hsecond.tail (.clock .EBUSY .OK (Or.inr rfl) (Or.inl rfl) _ _ _ rfl)
  have hrun := hagain.tail (.clock .OK .OK (Or.inl rfl) (Or.inl rfl) _ _ _ rfl)
  refine ⟨_, rfl, rfl, rfl, (idealAlloc_answers_once hrun).2 ?_⟩
  refine List.forall_mem_cons.2 ⟨⟨fun _ => rfl, fun _ _ => Or.inl rfl⟩, ?_⟩
  refine List.forall_mem_cons.2 ⟨⟨fun _ => rfl, fun _ _ => Or.inr (Or.inr rfl)⟩, ?_⟩
  exact List.forall_mem_singleton.2 ⟨fun _ => rfl, fun _ _ => Or.inr (Or.inr rfl)⟩

/-- The reply to a request is refused, and the next clock, which finds no request, does not offer it
again. -/
theorem idealAlloc_forgets : ∃ r : Run (Store.plain Region regionCmp), r.Reachable 1 ∧
    ¬ AnswersOnce r := by
  have hinit : (Run.init (Store.plain Region regionCmp) 1).Reachable 1 := .refl
  have hasked := hinit.tail (.receive addEmpty)
  have hrefused := hasked.tail (.clock .OK .EBUSY (Or.inl rfl) (Or.inr rfl) _ _ _ rfl)
  have hrun := hrefused.tail (.clock .OK .OK (Or.inl rfl) (Or.inl rfl) _ _ _ rfl)
  refine ⟨_, hrun, fun h => ?_⟩
  obtain ⟨o, ho, -⟩ :=
    (h.serves _ (List.mem_append_right _ (List.mem_singleton.2 rfl))).offered _ rfl
  cases ho

end Gran.Alloc
