import Gran.Foundations.KeyedQueue
import Gran.Simt.CacheAnswers

/-!
# Coherence through the shared cache

The cache over a memory that applies the accepted requests to each line in order and answers them in
that order, while other masters write the memory. `Timed` adds the memory's history to the cache and
its neighbours: each application is a moment, and every reply a lane gets is logged with the moment
its request was applied, which for a broadcast is the moment of the request it was coalesced onto.
`simtCache_coherent` says that for each lane and line these moments never go back.
-/

namespace Gran.SimtCache

open Simt Relation KeyedQueue

variable {C : Type} [DecidableEq C]

/-- A reply a lane got, with the moment its value was taken or written. -/
structure Ack where
  pkt : Packet
  time : Nat

/-- The line a reply is about. -/
def Ack.line (a : Ack) : Nat := a.pkt.src.toNat / 64

/-- The cache over a memory with a history. `history t` is the content of the memory after moment
`t`, and `now` is the last moment. -/
structure Timed where
  sys : System
  now : Nat
  history : Nat → Nat → Line
  queue : List (Entry Packet)
  acks : Nat → List Ack

/-- A cache that was just created over a memory with the given content. -/
def Timed.init (content : Nat → Line) : Timed :=
  ⟨.init, 0, fun _ => content, [], fun _ => []⟩

/-- The memory applies a request to a line: a write changes the masked bytes. -/
def applyLine (p : Packet) (old : Line) : Line :=
  if isSet p PACKET_READ then old else fun k => if p.mask.getLsbD k then p.data k else old k

/-- The reply to a request applied at moment `t`: a read returns the content of its line. -/
def memReply (history : Nat → Nat → Line) (p : Packet) (t : Nat) : Packet :=
  { setFlags (response p) PACKET_DONE with
    data := if isSet p PACKET_READ then history t (line p) else p.data }

/-- Replies that are new in a lane's log get the moment `t`. -/
def tag (t : Nat) (old new : List Packet) (acks : List Ack) : List Ack :=
  (new.take (new.length - old.length)).map (fun pkt => ⟨pkt, t⟩) ++ acks

/-- One step of a run over the memory. -/
inductive Timed.Step (c : SimtCache C) (s : Timed) : Timed → Prop where
  | clock (answer : Packet → Stat) (hanswer : ∀ pkt, answer pkt = .OK ∨ answer pkt = .EBUSY)
      (ret : Stat) (s' : State) (w' : Env)
      (h : c.simtCacheClock (ports answer) s.sys.cache s.sys.env = some (ret, s', w')) :
      Step c s { s with
        sys := ⟨s', w', s.sys.accepted⟩
        queue := s.queue ++ (w'.flight.drop s.queue.length).map fun p => ⟨p, none⟩ }
  | request (i : Nat) (hi : i < c.len) (sender : C) (hlane : c.lanes i = some sender)
      (hmem : c.mem ≠ sender) (pkt : Packet) (haddr : laneOf pkt.src = i)
      (hreq : Simt.IsRequest pkt)
      (ret : Stat) (s' : State) (w' : Env)
      (h : c.simtCacheReceive quiet sender pkt s.sys.cache s.sys.env = some (ret, s', w')) :
      Step c s { s with
        sys := ⟨s', w', if ret = .OK then
          Function.update s.sys.accepted i (pkt :: s.sys.accepted i) else s.sys.accepted⟩ }
  | apply (before : List (Entry Packet)) (p : Packet) (after : List (Entry Packet))
      (hqueue : s.queue = before ++ ⟨p, none⟩ :: after)
      (hfirst : ∀ e ∈ before, line e.item = line p → e.stamp ≠ none) :
      Step c s { s with
        now := s.now + 1
        history := Function.update s.history (s.now + 1)
          (Function.update (s.history s.now) (line p) (applyLine p (s.history s.now (line p))))
        queue := before ++ ⟨p, some (s.now + 1)⟩ :: after }
  | write (l : Nat) (value : Line) :
      Step c s { s with
        now := s.now + 1
        history := Function.update s.history (s.now + 1)
          (Function.update (s.history s.now) l value) }
  | reply (before : List (Entry Packet)) (p : Packet) (t : Nat) (after : List (Entry Packet))
      (hqueue : s.queue = before ++ ⟨p, some t⟩ :: after)
      (hfirst : ∀ e ∈ before, line e.item ≠ line p) (ret : Stat) (s' : State) (w' : Env)
      (h : c.simtCacheReceive quiet c.mem (memReply s.history p t) s.sys.cache
        { s.sys.env with flight := (before ++ after).map Entry.item } = some (ret, s', w')) :
      Step c s { s with
        sys := ⟨s', w', s.sys.accepted⟩
        queue := before ++ after
        acks := fun i => tag t (s.sys.env.replies i) (w'.replies i) (s.acks i) }

/-- The states of the runs that start from a new cache over the given memory. -/
abbrev Timed.Reachable (c : SimtCache C) (content : Nat → Line) (s : Timed) : Prop :=
  ReflTransGen (Timed.Step c) (.init content) s

/-- The content of the memory accounts for a packet that was applied at moment `t`: a read took its
line, and a write's masked bytes were in it. -/
structure Took (history : Nat → Nat → Line) (l : Nat) (pkt : Packet) (t : Nat) : Prop where
  read : isSet pkt PACKET_READ = true → pkt.data = history t l
  write : isSet pkt PACKET_READ = false →
    ∀ k : Fin 64, pkt.mask.getLsbD k = true → history t l k = pkt.data k

/-- The invariant of the memory and of the lanes' logs. -/
structure Coherent (s : Timed) : Prop where
  queue : s.queue.map Entry.item = s.sys.env.flight
  acks : ∀ i, (s.acks i).map Ack.pkt = s.sys.env.replies i
  ordered : Ordered line s.queue
  stamps : ∀ e ∈ s.queue, ∀ t, e.stamp = some t → t ≤ s.now
  times : ∀ i, ∀ a ∈ s.acks i, a.time ≤ s.now
  after : ∀ i, ∀ a ∈ s.acks i, After line a.line a.time s.queue
  monotone : ∀ i, (s.acks i).Pairwise fun later earlier =>
    earlier.line = later.line → earlier.time ≤ later.time
  written : ∀ e ∈ s.queue, ∀ t, e.stamp = some t → isSet e.item PACKET_READ = false →
    ∀ k : Fin 64, e.item.mask.getLsbD k = true → s.history t (line e.item) k = e.item.data k
  took : ∀ i, ∀ a ∈ s.acks i, Took s.history a.line a.pkt a.time

theorem coherent_init (content : Nat → Line) : Coherent (.init content) where
  queue := rfl
  acks _ := rfl
  ordered := ordered_nil
  stamps _ h := by cases h
  times _ _ h := by cases h
  after _ _ h := by cases h
  monotone _ := List.Pairwise.nil
  written _ h := by cases h
  took _ _ h := by cases h

variable {c : SimtCache C} {s s' : Timed}

/-- A run over the memory is a run of the cache. -/
theorem Timed.Step.step (hstep : Timed.Step c s s') (hs : Coherent s) :
    ReflTransGen (System.Step c) s.sys s'.sys := by
  cases hstep with
  | clock answer hanswer ret t' w' h => exact .single (.clock answer hanswer ret t' w' h)
  | request i hi sender hlane hmem pkt haddr hreq ret t' w' h =>
      exact .single (.request i hi sender hlane hmem pkt haddr hreq ret t' w' h)
  | apply before p after hqueue hfirst => exact .refl
  | write l value => exact .refl
  | reply before p t after hqueue hfirst ret t' w' h =>
      refine .single (.reply (before.map Entry.item) p (after.map Entry.item) ?_ ?_
        (memReply s.history p t) ⟨_, rfl⟩ ret t' w' (by rwa [List.map_append] at h))
      · rw [← hs.queue, hqueue]
        simp
      · intro q hq
        obtain ⟨e, he, rfl⟩ := List.mem_map.1 hq
        exact hfirst e he

/-! ## What a step keeps -/

omit [DecidableEq C] in
/-- A moment that was not reached yet is not in the logs. -/
theorem Coherent.took_update (hs : Coherent s) (content : Nat → Line) (i : Nat) (a : Ack)
    (ha : a ∈ s.acks i) :
    Took (Function.update s.history (s.now + 1) content) a.line a.pkt a.time := by
  have hne : a.time ≠ s.now + 1 := by
    have := hs.times i a ha
    omega
  obtain ⟨hread, hwrite⟩ := hs.took i a ha
  exact ⟨by rwa [Function.update_of_ne hne], by rwa [Function.update_of_ne hne]⟩

omit [DecidableEq C] in
theorem Coherent.written_update (hs : Coherent s) (content : Nat → Line) {e : Entry Packet}
    (he : e ∈ s.queue) {t : Nat} (ht : e.stamp = some t) (hread : isSet e.item PACKET_READ = false)
    (k : Fin 64) (hk : e.item.mask.getLsbD k = true) :
    Function.update s.history (s.now + 1) content t (line e.item) k = e.item.data k := by
  have hne : t ≠ s.now + 1 := by
    have := hs.stamps e he t ht
    omega
  rw [Function.update_of_ne hne]
  exact hs.written e he t ht hread k hk

/-- A clock only adds unstamped requests. -/
theorem Coherent.clock (hs : Coherent s) {s₁ : State} {w₁ : Env}
    (hreplies : w₁.replies = s.sys.env.replies)
    (hflight : ∃ new, w₁.flight = s.sys.env.flight ++ new) (accepted : Nat → List Packet) :
    Coherent { s with
      sys := ⟨s₁, w₁, accepted⟩
      queue := s.queue ++ (w₁.flight.drop s.queue.length).map fun p => ⟨p, none⟩ } := by
  obtain ⟨new, hnew⟩ := hflight
  have hlen : s.queue.length = s.sys.env.flight.length := by rw [← hs.queue, List.length_map]
  refine ⟨?_, ?_, hs.ordered.push _, ?_, hs.times, fun i a ha => (hs.after i a ha).push _,
    hs.monotone, ?_, hs.took⟩
  · simp [hs.queue, hnew, hlen, Function.comp_def]
  · intro i
    rw [hreplies]
    exact hs.acks i
  · exact fun e he t ht => hs.stamps e (mem_of_mem_push he ht) t ht
  · exact fun e he t ht => hs.written e (mem_of_mem_push he ht) t ht

/-- The memory applies a request whose predecessors on its line were applied. -/
theorem Coherent.apply (hs : Coherent s) {before after : List (Entry Packet)} {p : Packet}
    (hqueue : s.queue = before ++ ⟨p, none⟩ :: after)
    (hfirst : ∀ e ∈ before, line e.item = line p → e.stamp ≠ none) :
    Coherent { s with
      now := s.now + 1
      history := Function.update s.history (s.now + 1)
        (Function.update (s.history s.now) (line p) (applyLine p (s.history s.now (line p))))
      queue := before ++ ⟨p, some (s.now + 1)⟩ :: after } := by
  have hstamps := hs.stamps
  rw [hqueue] at hstamps
  have hold : ∀ e ∈ before ++ (⟨p, some (s.now + 1)⟩ : Entry Packet) :: after,
      e = ⟨p, some (s.now + 1)⟩ ∨ e ∈ s.queue := by
    rw [hqueue]
    exact fun e he => mem_of_mem_stamp he
  refine ⟨?_, hs.acks, ?_, ?_, ?_, ?_, hs.monotone, ?_, hs.took_update _⟩
  · rw [← hs.queue, hqueue]
    simp
  · have hordered := hs.ordered
    rw [hqueue] at hordered
    exact hordered.stamp hfirst fun e he u hu => (hstamps e he u hu).trans (Nat.le_succ _)
  · intro e he t ht
    rcases hold e he with rfl | he
    · obtain rfl : s.now + 1 = t := Option.some.inj ht
      exact le_rfl
    · exact (hs.stamps e he t ht).trans (Nat.le_succ _)
  · exact fun i a ha => (hs.times i a ha).trans (Nat.le_succ _)
  · intro i a ha
    have hafter := hs.after i a ha
    rw [hqueue] at hafter
    exact hafter.stamp ((hs.times i a ha).trans (Nat.le_succ _))
  · intro e he t ht hread k hk
    rcases hold e he with rfl | he
    · obtain rfl : s.now + 1 = t := Option.some.inj ht
      have hread' : isSet p PACKET_READ = false := hread
      have hk' : p.mask.getLsbD k = true := hk
      simp [applyLine, hread', hk']
    · exact hs.written_update _ he ht hread k hk

/-- Another master writes a line. -/
theorem Coherent.write (hs : Coherent s) (content : Nat → Line) :
    Coherent { s with
      now := s.now + 1
      history := Function.update s.history (s.now + 1) content } where
  queue := hs.queue
  acks := hs.acks
  ordered := hs.ordered
  stamps e he t ht := (hs.stamps e he t ht).trans (Nat.le_succ _)
  times i a ha := (hs.times i a ha).trans (Nat.le_succ _)
  after := hs.after
  monotone := hs.monotone
  written _ he _ ht hread k hk := hs.written_update content he ht hread k hk
  took := hs.took_update content

/-- The log of a lane after a reply: the lane got nothing, or it got a reply for the line that is
right about the moment at which the memory applied the request. -/
theorem Coherent.tag_cases (hs : Coherent s) {p : Packet} {t : Nat}
    (hmem : (⟨p, some t⟩ : Entry Packet) ∈ s.queue) {s₁ : State} {w₁ : Env} {i : Nat}
    (hdel : Delivered (memReply s.history p t) s.sys.cache s.sys.env s₁ w₁ i) :
    tag t (s.sys.env.replies i) (w₁.replies i) (s.acks i) = s.acks i ∧
        w₁.replies i = s.sys.env.replies i ∨
      ∃ a : Ack, tag t (s.sys.env.replies i) (w₁.replies i) (s.acks i) = a :: s.acks i ∧
        w₁.replies i = a.pkt :: s.sys.env.replies i ∧ a.line = line p ∧ a.time = t ∧
        Took s.history a.line a.pkt a.time := by
  have hreply : IsReply p (memReply s.history p t) := ⟨_, rfl⟩
  cases hdel with
  | other hreq hreplies => exact Or.inl ⟨by simp [tag, hreplies], hreplies⟩
  | lane hbusy hreq hreplies hans hmask =>
      refine Or.inr ⟨⟨laneReply (s.sys.cache.reqs i) (memReply s.history p t), t⟩,
        by simp [tag, hreplies], hreplies, rfl, rfl, fun hread => ?_, fun hread k hk => ?_⟩
      · have hp : isSet p PACKET_READ = true := by rwa [← hreply.read]
        simp [laneReply, memReply, hp, Ack.line, line]
      · have hp : isSet p PACKET_READ = false := by rwa [← hreply.read]
        have hk' : p.mask.getLsbD k = true := by
          rw [← hreply.mask, ← hmask hread]
          exact hk
        have hdata := hs.written _ hmem t rfl hp k hk'
        simpa [laneReply, memReply, hp, Ack.line, line] using hdata

/-- The oldest request of its line is answered. Every lane that gets the reply gets it for this
line, so its earlier replies for the line are not younger. -/
theorem Coherent.reply (hs : Coherent s) {before after : List (Entry Packet)} {p : Packet} {t : Nat}
    (hqueue : s.queue = before ++ ⟨p, some t⟩ :: after)
    (hfirst : ∀ e ∈ before, line e.item ≠ line p) {s₁ : State} {w₁ : Env}
    (hflight : w₁.flight = (before ++ after).map Entry.item)
    (hdel : ∀ i, Delivered (memReply s.history p t) s.sys.cache s.sys.env s₁ w₁ i)
    (accepted : Nat → List Packet) :
    Coherent { s with
      sys := ⟨s₁, w₁, accepted⟩
      queue := before ++ after
      acks := fun i => tag t (s.sys.env.replies i) (w₁.replies i) (s.acks i) } := by
  have hmem : (⟨p, some t⟩ : Entry Packet) ∈ s.queue := by simp [hqueue]
  have hsub : ∀ e ∈ before ++ after, e ∈ s.queue := by
    intro e he
    rw [hqueue]
    rcases List.mem_append.1 he with he | he <;> simp [he]
  have hordered := hs.ordered
  rw [hqueue] at hordered
  have hnew := fun i => hs.tag_cases hmem (hdel i)
  have hin : ∀ i, ∀ a ∈ tag t (s.sys.env.replies i) (w₁.replies i) (s.acks i), a ∈ s.acks i ∨
      a.line = line p ∧ a.time = t ∧ Took s.history a.line a.pkt a.time := by
    intro i a ha
    rcases hnew i with ⟨htag, -⟩ | ⟨b, htag, -, hline, htime, htook⟩
    · exact Or.inl (htag ▸ ha)
    · rw [htag] at ha
      rcases List.mem_cons.1 ha with rfl | ha
      · exact Or.inr ⟨hline, htime, htook⟩
      · exact Or.inl ha
  refine ⟨hflight.symm, fun i => ?_, hordered.remove, fun e he => hs.stamps e (hsub e he),
    fun i a ha => ?_, fun i a ha => ?_, fun i => ?_, fun e he => hs.written e (hsub e he),
    fun i a ha => ?_⟩
  · show (tag t (s.sys.env.replies i) (w₁.replies i) (s.acks i)).map Ack.pkt = w₁.replies i
    rcases hnew i with ⟨htag, hrep⟩ | ⟨b, htag, hrep, -⟩
    · rw [htag, hrep]; exact hs.acks i
    · rw [htag, hrep, List.map_cons, hs.acks i]
  · rcases hin i a ha with ha | ⟨-, htime, -⟩
    · exact hs.times i a ha
    · exact htime ▸ hs.stamps _ hmem t rfl
  · rcases hin i a ha with ha | ⟨hline, htime, -⟩
    · have hafter := hs.after i a ha
      rw [hqueue] at hafter
      exact hafter.remove
    · rw [hline, htime]
      exact hordered.after_first hfirst
  · show (tag t (s.sys.env.replies i) (w₁.replies i) (s.acks i)).Pairwise _
    rcases hnew i with ⟨htag, -⟩ | ⟨b, htag, -, hline, htime, -⟩
    · rw [htag]; exact hs.monotone i
    · rw [htag]
      refine List.pairwise_cons.2 ⟨fun a ha heq => ?_, hs.monotone i⟩
      rw [htime]
      exact hs.after i a ha _ hmem (hline.symm.trans heq.symm) t rfl
  · rcases hin i a ha with ha | ⟨-, -, htook⟩
    · exact hs.took i a ha
    · exact htook

/-! ## The result -/

theorem Timed.Step.coherent (hrcv : c.rcv.truncate 32 = 0#32) (hstep : Timed.Step c s s')
    {flying : List Nat} (hgood : Good c s.sys flying) (hs : Coherent s) : Coherent s' := by
  cases hstep with
  | clock answer hanswer ret t' w' h =>
      obtain ⟨t'', w'', -, hclock, -, -, hreplies, hflight⟩ :=
        simtCacheClock_inv hanswer hgood.inv
      obtain ⟨-, rfl, rfl⟩ : Stat.OK = ret ∧ t'' = t' ∧ w'' = w' := by
        simpa using hclock.symm.trans h
      exact hs.clock hreplies hflight _
  | request i hi sender hlane hmem pkt haddr hreq ret t' w' h =>
      obtain rfl : w' = s.sys.env := by
        rcases receive_lane_cases hgood.inv hi hlane hmem haddr h with
          ⟨-, -, -, hw⟩ | ⟨-, -, -, hw⟩ <;> exact hw
      exact ⟨hs.queue, hs.acks, hs.ordered, hs.stamps, hs.times, hs.after, hs.monotone, hs.written,
        hs.took⟩
  | apply before p after hqueue hfirst => exact hs.apply hqueue hfirst
  | write l value => exact hs.write _
  | reply before p t after hqueue hfirst ret t' w' h =>
      have hflight : s.sys.env.flight =
          before.map Entry.item ++ p :: after.map Entry.item := by
        rw [← hs.queue, hqueue]
        simp
      obtain ⟨t'', w'', -, -, hresp, -, hfl, hdel, -, -⟩ :=
        simtCacheReceive_mem hgood.inv hrcv hflight (fun q hq => by
          obtain ⟨e, he, rfl⟩ := List.mem_map.1 hq
          exact hfirst e he) (r := memReply s.history p t) ⟨_, rfl⟩
      rw [← List.map_append] at hresp hfl
      obtain ⟨-, rfl, rfl⟩ : Stat.OK = ret ∧ t'' = t' ∧ w'' = w' := by
        simpa using hresp.symm.trans h
      exact hs.reply hqueue hfirst hfl hdel _

theorem Timed.Reachable.coherent (hlen : 0 < c.len) (hrcv : c.rcv.truncate 32 = 0#32)
    {content : Nat → Line} (h : Timed.Reachable c content s) :
    Coherent s ∧ SimtCache.Reachable c s.sys := by
  induction h with
  | refl => exact ⟨coherent_init content, .refl⟩
  | tail _ hstep ih =>
      obtain ⟨hs, hsys⟩ := ih
      obtain ⟨flying, hgood⟩ := SimtCache.Reachable.good hlen hrcv hsys
      exact ⟨hstep.coherent hrcv hgood hs, hsys.trans (hstep.step hs)⟩

/-- Per-lane coherence. On every run over a memory that applies and answers the requests to each
line in order, with other masters writing at any time, for every lane: its log holds its replies,
the value of each read is the content of its line at the moment it was taken, which for every
earlier reply for the same line, be it the acknowledgement of a write or the value of a read, is no
earlier than the moment of that reply. -/
theorem simtCache_coherent (c : SimtCache C) (hlen : 0 < c.len) (hrcv : c.rcv.truncate 32 = 0#32)
    (content : Nat → Line) (s : Timed) (h : Timed.Reachable c content s) (i : Nat) :
    (s.acks i).map Ack.pkt = s.sys.env.replies i ∧
    (∀ a ∈ s.acks i, a.time ≤ s.now ∧ Took s.history a.line a.pkt a.time) ∧
    (s.acks i).Pairwise fun later earlier =>
      earlier.line = later.line → earlier.time ≤ later.time := by
  obtain ⟨hs, -⟩ := h.coherent hlen hrcv
  exact ⟨hs.acks i, fun a ha => ⟨hs.times i a ha, hs.took i a ha⟩, hs.monotone i⟩

/-- The memory applies a read of lane 0 at moment 1, another master writes 1 to every byte of the
line at moment 2, and the memory applies a second read of the lane at moment 3. -/
theorem load_coherent_reachable : ∃ s, Timed.Reachable twoLanes (fun _ _ => 0) s ∧
    (s.acks 0).map Ack.time = [3, 1] ∧ (s.acks 0).map Ack.line = [1, 1] ∧
    (s.acks 0).map (fun a => a.pkt.data 0) = [1, 0] := by
  have hreq : Simt.IsRequest load := ⟨by decide, by decide⟩
  have hinit : Timed.Reachable twoLanes (fun _ _ => 0) (.init fun _ _ => 0) := .refl
  have hread := hinit.tail
    (.request 0 (by decide) 1 rfl (by decide) load (by decide) hreq .OK _ _ rfl)
  have hsend := hread.tail (.clock (fun _ => .OK) (fun _ => Or.inl rfl) .OK _ _ rfl)
  have happly := hsend.tail (.apply [] _ [] rfl (by simp))
  have hreply := happly.tail (.reply [] _ 1 [] rfl (by simp) .OK _ _ rfl)
  have hwrite := hreply.tail (.write 1 fun _ => 1)
  have hread' := hwrite.tail
    (.request 0 (by decide) 1 rfl (by decide) load (by decide) hreq .OK _ _ rfl)
  -- `rr` comes back to lane 0 before its second read is sent
  have hturn := hread'.tail (.clock (fun _ => .OK) (fun _ => Or.inl rfl) .OK _ _ rfl)
  have hsend' := hturn.tail (.clock (fun _ => .OK) (fun _ => Or.inl rfl) .OK _ _ rfl)
  have happly' := hsend'.tail (.apply [] _ [] rfl (by simp))
  have hreply' := happly'.tail (.reply [] _ 3 [] rfl (by simp) .OK _ _ rfl)
  exact ⟨_, hreply', rfl, rfl, rfl⟩

/-- `simtCache_coherent` on the run in which lane 0 reads one line twice. -/
theorem simtCache_coherent_load : ∃ s : Timed, (s.acks 0).map Ack.time = [3, 1] ∧
    (s.acks 0).map Ack.line = [1, 1] ∧ (s.acks 0).map (fun a => a.pkt.data 0) = [1, 0] ∧
    (s.acks 0).map Ack.pkt = s.sys.env.replies 0 ∧
    (∀ a ∈ s.acks 0, a.time ≤ s.now ∧ Took s.history a.line a.pkt a.time) ∧
    (s.acks 0).Pairwise fun later earlier =>
      earlier.line = later.line → earlier.time ≤ later.time := by
  obtain ⟨s, hs, htimes, hlines, hdata⟩ := load_coherent_reachable
  exact ⟨s, htimes, hlines, hdata, simtCache_coherent twoLanes (by decide) (by decide) _ s hs 0⟩

end Gran.SimtCache
