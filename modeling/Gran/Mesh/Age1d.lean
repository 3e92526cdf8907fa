import Gran.Mesh.Order1d

/-!
# The age of packets in a one-dimensional mesh

`node1d_receive` stamps a packet in every iteration over an element port, before it knows whether
the sender is connected there, so a node with elements stamps the packets of its neighbours too. The
run is accompanied by a twin in which each packet carries the clock count of its injection in the
field `from`. `node1d_age` says that timestamps are times of injection, and that every choice of the
oldest packet compares these, as long as no clock hands a packet over to a neighbour with elements
whose clock count differs from the timestamp.
-/

namespace Gran.Node1d

open Mesh

/-! ## The port search -/

section Arrive

variable {N : Type} [DecidableEq N] {n : Nat} {ports : Port Dir1 n → Option (Comp N)}
  {sender : Comp N} {now : Word} {pkt x : Packet} {l : List (Port Dir1 n)} {p : Port Dir1 n}

/-- The port found is one of the sender. -/
theorem arrive_port (h : arrive ports sender now pkt l = some (p, x)) :
    ports p = some sender ∧ Restamped pkt x := by
  induction l generalizing pkt with
  | nil => cases h
  | cons q rest ih =>
      rw [arrive] at h
      split_ifs at h with hfound hq hq
      · cases h
        exact ⟨hfound.symm, now, rfl⟩
      · cases h
        exact ⟨hfound.symm, .refl _⟩
      · obtain ⟨hport, t, ht⟩ := ih h
        exact ⟨hport, t, ht⟩
      · exact ih h

/-- A packet that is found at an element port is stamped. -/
theorem arrive_elem (h : arrive ports sender now pkt l = some (p, x)) (hp : p.isElem = true) :
    x.timestamp = now := by
  induction l generalizing pkt with
  | nil => cases h
  | cons q rest ih =>
      rw [arrive] at h
      split_ifs at h with hfound hq hq
      · cases h
        rfl
      · cases h
        exact absurd hp hq
      · exact ih h
      · exact ih h

/-- A packet keeps its age if every element port that is passed stamps it with the same. -/
theorem arrive_keeps (h : arrive ports sender now pkt l = some (p, x))
    (hnow : ∀ q ∈ l, q.isElem = true → pkt.timestamp = now) : x = pkt := by
  induction l generalizing pkt with
  | nil => cases h
  | cons q rest ih =>
      have hstamped : (if q.isElem then { pkt with timestamp := now } else pkt) = pkt := by
        split_ifs with hq
        · rw [← hnow q (by simp) hq]
        · rfl
      rw [arrive, hstamped] at h
      split_ifs at h
      · cases h
        rfl
      · exact ih h fun q hq => hnow q (by simp [hq])

end Arrive

variable {N : Type} [DecidableEq N] {m : Mesh N Dir1} {cluster : N → BitVec 16}

section Kind

variable (hkind : m.toNodeKind = kind cluster)
include hkind

theorem mesh_arrive {c : N} {sender : Comp N} {now : Word} {pkt : Packet} :
    m.arrive (m.ports c) sender now pkt (m.portList c) =
      arrive (m.ports c) sender now pkt (m.portList c) := by
  rw [hkind]
  rfl

theorem mesh_arrive_readdressed {c : N} (sender : Comp N) (now : Word) (pkt : Packet)
    (src : Word) : m.arrive (m.ports c) sender now (readdressed pkt src) (m.portList c) =
      (m.arrive (m.ports c) sender now pkt (m.portList c)).map
        fun x => (x.1, readdressed x.2 src) := by
  rw [mesh_arrive hkind, mesh_arrive hkind]
  exact arrive_readdressed sender now pkt src

theorem mesh_wants_readdressed {c : N} {p : Port Dir1 (m.elems c)} (x : Packet) (src : Word) :
    m.wants c p (readdressed x src) = m.wants c p x := by
  rcases p with i | (_ | _) <;> simp only [wants, hkind] <;> rfl

end Kind

/-! ## Times of injection -/

/-- The timestamp of the packet is the time that its source address tells. -/
def Dated (pkt : Packet) : Prop := pkt.timestamp = pkt.src

/-- The packets held and those delivered carry the times that their source addresses tell. -/
structure AllDated (s : MeshState m) : Prop where
  held : Holds Dated s
  delivered : ∀ d ∈ s.delivered, Dated d.pkt

/-- No packet that waits for a neighbour with elements may go there, unless that neighbour's clock
count is the packet's timestamp. -/
def Steady (w : Wiring m) (c : N) (s : MeshState m) : Prop :=
  ∀ d, ∀ c' ∈ w.link c d, 0 < m.elems c' →
    ((s.nodes c').inp (.dir (w.opp d))).busy = false → ((s.nodes c).out (.dir d)).busy = true →
      ((s.nodes c).out (.dir d)).pkt.timestamp = (s.nodes c').timestamp

variable {w : Wiring m} {s s' t : MeshState m} {c : N} {p : Port Dir1 (m.elems c)}

/-- An output is emptied while one input at most is filled. -/
theorem frame_of_reg {f : Place m → Reg}
    (ht : reg t = Function.update f (outAt c p) { reg s (outAt c p) with busy := false })
    (hf : ∀ k, f k = reg s k ∨ ∃ c' q, k = inpAt c' q ∧ (f k).busy = true) :
    (∀ c' q, (reg t (inpAt c' q)).busy = false → (reg s (inpAt c' q)).busy = false) ∧
      ∀ q, (reg t (outAt c q)).busy = true → reg t (outAt c q) = reg s (outAt c q) := by
  refine ⟨fun c' q hq => ?_, fun q hq => ?_⟩
  · rw [ht, Function.update_of_ne Sum.inl_ne_inr] at hq
    rcases hf (inpAt c' q) with h | ⟨-, -, -, h⟩
    · rwa [h] at hq
    · rw [h] at hq
      cases hq
  · by_cases hqp : q = p
    · subst hqp
      rw [ht, Function.update_self] at hq
      cases hq
    · have hne : outAt c q ≠ outAt c p := by simpa using hqp
      rw [ht, Function.update_of_ne hne]
      rcases hf (outAt c q) with h | ⟨c', q', h, -⟩
      · exact h
      · cases h

/-- The loop of `clock_outputs` counts no clock, and it fills inputs and empties outputs. -/
theorem sends_frame (h : Sends c p s t) :
    (∀ c', (t.nodes c').timestamp = (s.nodes c').timestamp) ∧
      (∀ c' q, (reg t (inpAt c' q)).busy = false → (reg s (inpAt c' q)).busy = false) ∧
      ∀ q, (reg t (outAt c q)).busy = true → reg t (outAt c q) = reg s (outAt c q) := by
  have hempty := reg_setReg (s := s) (outAt c p) { reg s (outAt c p) with busy := false }
  cases h with
  | stays => exact ⟨fun _ => rfl, fun _ _ h => h, fun _ _ => rfl⟩
  | taken comp hy =>
      exact ⟨setReg_stamp s (outAt c p) { reg s (outAt c p) with busy := false },
        frame_of_reg hempty fun k => Or.inl rfl⟩
  | dropped =>
      exact ⟨setReg_stamp s (outAt c p) { reg s (outAt c p) with busy := false },
        frame_of_reg hempty fun k => Or.inl rfl⟩
  | @hops c' q y x hport hy hfree hfound =>
      refine ⟨fun d => ?_, frame_of_reg (p := p)
        (f := reg (setReg s (inpAt c' q) ⟨x, true⟩)) ?_ fun k => ?_⟩
      · rw [hop, setReg_stamp, setReg_stamp]
      · rw [hop, reg_setReg]
      · rw [reg_setReg]
        by_cases hk : k = inpAt c' q
        · subst hk
          exact Or.inr ⟨c', q, rfl, by rw [Function.update_self]⟩
        · exact Or.inl (Function.update_of_ne hk _ _)

/-- Sending keeps the packets that still wait from being stamped. -/
theorem Steady.sends (hs : Steady w c s) (h : Sends c p s t) : Steady w c t := by
  obtain ⟨hstamp, hinp, hout⟩ := sends_frame h
  intro d c' hlink helems hfree hbusy
  have hkeep : (t.nodes c).out (.dir d) = (s.nodes c).out (.dir d) := hout (.dir d) hbusy
  rw [hkeep] at hbusy ⊢
  rw [hstamp]
  exact hs d c' hlink helems (hinp c' _ hfree) hbusy

section Clock

variable (hkind : m.toNodeKind = kind cluster)
include hkind

/-- Nothing that is sent loses the time of its injection. -/
theorem AllDated.sends (hd : AllDated s) (hs : Steady w c s) (h : Sends c p s t) : AllDated t := by
  cases h with
  | stays => exact hd
  | taken comp hy =>
      obtain ⟨-, rfl⟩ := Reg.held_eq_some.1 hy
      refine ⟨setOut_holds hd.held p (hd.held c p).2, fun d hmem => ?_⟩
      rcases List.mem_cons.1 hmem with rfl | hmem
      · exact (hd.held c p).2
      · exact hd.delivered d hmem
  | dropped => exact ⟨setOut_holds hd.held p (hd.held c p).2, hd.delivered⟩
  | @hops c' q y x hport hy hfree hfound =>
      obtain ⟨hbusy, rfl⟩ := Reg.held_eq_some.1 hy
      rw [mesh_arrive hkind] at hfound
      have hkeeps : x = (reg s (outAt c p)).pkt := by
        refine arrive_keeps hfound fun k _ hk => ?_
        obtain ⟨d, rfl, rfl, hlink⟩ := facing w hport (arrive_port hfound).1
        have helems : 0 < m.elems c' := by
          cases k with
          | elem i => exact i.pos
          | dir d' => cases hk
        exact hs d c' hlink helems (Reg.held_eq_none.1 hfree) hbusy
      have hx : Dated x := hkeeps ▸ (hd.held c p).2
      exact ⟨setOut_holds (setInp_holds hd.held q hx) p (hd.held c p).2, hd.delivered⟩

/-- A clock that is steady at its beginning keeps the times of injection. -/
theorem clockOutputs_dated (hd : AllDated s) (hs : Steady w c (tick s c)) {answer : Comp N → Stat}
    (h : clockOutputs answer c (tick s c) = some t) : AllDated t ∧ Steady w c t := by
  have htick : AllDated (tick s c) :=
    ⟨setNode_holds hd.held (fun p => (hd.held c p).1) fun p => (hd.held c p).2, hd.delivered⟩
  refine Fold.foldlM_keep (fun u => AllDated u ∧ Steady w c u) (fun u p v _ hu hv => ?_)
    ⟨htick, hs⟩ h
  exact ⟨hu.1.sends hkind hu.2 (clockOutput_sends hv), hu.2.sends (clockOutput_sends hv)⟩

omit hkind in
theorem propagateTo_dated (hd : AllDated s) {r : Option (Port Dir1 (m.elems c))}
    (h : propagateTo c r s p = some t) : AllDated t :=
  ⟨propagateTo_holds hd.held h, by rw [propagateTo_delivered h]; exact hd.delivered⟩

theorem midClock_dated (hd : AllDated s) (hs : Steady w c (tick s c)) {answer : Comp N → Stat}
    {before : List (Port Dir1 (m.elems c))} {e : Option (Port Dir1 (m.elems c))}
    (h : midClock answer c before s = some (e, t)) : AllDated t := by
  simp only [midClock, Option.bind_eq_bind, Option.bind_eq_some_iff] at h
  obtain ⟨u, hout, v, hprop, hv⟩ := h
  obtain ⟨-, rfl⟩ : oldestElem (u.nodes c) = e ∧ v = t := by simpa using hv
  exact Fold.foldlM_keep AllDated (fun _ _ _ _ hd h => propagateTo_dated hd h)
    (clockOutputs_dated hkind hd hs hout).1 hprop

end Clock

/-! ## Runs -/

/-- A drive whose packet carries the clock count of the node that it is presented to. -/
def date (r : Run m) : Drive N → Drive N
  | .clock c answer => .clock c answer
  | .inject c i pkt => .inject c i (readdressed pkt (r.state.nodes c).timestamp)

/-- The run in which every packet carries the time of its injection. -/
def datedRun (m : Mesh N Dir1) (drives : List (Drive N)) : Option (Run m) :=
  drives.foldlM (fun r d => r.drive (date r d)) (Run.init m)

/-- No clock hands a packet over to a neighbour with elements whose clock count is not the packet's
timestamp. -/
def KeepsAge (w : Wiring m) (r : Run m) : Drive N → Prop
  | .clock c _ => Steady w c (tick r.state c)
  | .inject _ _ _ => True

/-- The input that a `propagate` call chooses in a node. -/
def chosen (c : N) (e : Option (Port Dir1 (m.elems c))) (node : MeshNode Dir1 (m.elems c))
    (p : Port Dir1 (m.elems c)) : Option (Port Dir1 (m.elems c)) :=
  oldest node.inp (fun reg => m.wants c p reg.pkt) none (m.candidates c e p)

/-- A node whose packets have the times that their source addresses tell for timestamps. -/
def byAge {n : Nat} (node : MeshNode Dir1 n) : MeshNode Dir1 n :=
  { node with inp := fun q => { node.inp q with
      pkt := { (node.inp q).pkt with timestamp := (node.inp q).pkt.src } } }

/-- In a clock of node `c`, the choice of an element input and the one of every `propagate` call are
those that compare the times in the second mesh. -/
structure ChoosesByAge (answer : Comp N → Stat) (c : N) (s s' : MeshState m) : Prop where
  elem : ∀ e t, midClock answer c [] s = some (e, t) →
    ∃ t', midClock answer c [] s' = some (e, t') ∧ oldestElem (byAge (t'.nodes c)) = e
  call : ∀ before p after, m.propagateOrder c = before ++ p :: after →
    ∀ e t, midClock answer c before s = some (e, t) →
      ∃ t', midClock answer c before s' = some (e, t') ∧
        chosen c e (byAge (t'.nodes c)) p = chosen c e (t.nodes c) p

/-- The second run is the first one with packets that carry the times of their injection. -/
structure Dates (r r' : Run m) : Prop where
  twin : Twin r.state r'.state
  injected : r'.injected = r.injected.map fun i => { i with pkt := readdressed i.pkt i.stamp }

/-- Timestamps are times of injection, and the choices in the next clock compare these. -/
structure Aged (w : Wiring m) (r r' : Run m) : Prop where
  held : ∀ p x x', Mesh.held r.state p = some x → Mesh.held r'.state p = some x' →
    x.timestamp = x'.src
  delivered : List.Forall₂ (fun d d' => d.pkt.timestamp = d'.pkt.src)
    r.state.delivered r'.state.delivered
  chooses : ∀ c answer, KeepsAge w r (.clock c answer) →
    ChoosesByAge answer c r.state r'.state

variable {r r' : Run m}

omit [DecidableEq N] in
/-- A node that is dated is as it is. -/
theorem byAge_eq (hd : AllDated s) (c : N) : byAge (s.nodes c) = s.nodes c := by
  have hinp : ∀ q, { (s.nodes c).inp q with
      pkt := { ((s.nodes c).inp q).pkt with timestamp := ((s.nodes c).inp q).pkt.src } } =
        (s.nodes c).inp q := by
    intro q
    have hq : ((s.nodes c).inp q).pkt.timestamp = _ := (hd.held c q).1
    rw [← hq]
  simp only [byAge, hinp]

omit [DecidableEq N] in
/-- The condition is the same in both meshes. -/
theorem Steady.twin (h : Twin s s') (hs : Steady w c s) : Steady w c s' := by
  intro d c' hlink helems hfree hbusy
  have hinp : ((s.nodes c').inp (.dir (w.opp d))).busy = false :=
    (h.regs (inpAt c' (.dir (w.opp d)))).busy.symm.trans hfree
  have hout : ((s.nodes c).out (.dir d)).busy = true :=
    (h.regs (outAt c (.dir d))).busy.symm.trans hbusy
  obtain ⟨src, hsrc⟩ := (h.regs (outAt c (.dir d))).pkt
  have hpkt : ((s'.nodes c).out (.dir d)).pkt = readdressed ((s.nodes c).out (.dir d)).pkt src :=
    hsrc
  rw [hpkt, h.stamp]
  exact hs d c' hlink helems hinp hout

section Run

variable (hkind : m.toNodeKind = kind cluster)
include hkind

/-- Every choice in a clock that keeps the age of packets compares times of injection. -/
theorem choosesByAge (h : Twin s s') (hd : AllDated s') (hsteady : Steady w c (tick s c))
    (answer : Comp N → Stat) : ChoosesByAge answer c s s' := by
  have hmid : ∀ before e t, midClock answer c before s = some (e, t) →
      ∃ t', midClock answer c before s' = some (e, t') ∧ Twin t t' ∧
        byAge (t'.nodes c) = t'.nodes c := by
    intro before e t ht
    obtain ⟨t', ht', htwin⟩ := midClock_twin (mesh_arrive_readdressed hkind) h
      (fun p x src => mesh_wants_readdressed hkind x src) ht
    have hdated := midClock_dated hkind hd (hsteady.twin (h.tick c)) ht'
    exact ⟨t', ht', htwin, byAge_eq hdated c⟩
  refine ⟨fun e t ht => ?_, fun before p after _ e t ht => ?_⟩
  · obtain ⟨t', ht', htwin, hage⟩ := hmid [] e t ht
    refine ⟨t', ht', ?_⟩
    have he : oldestElem (t.nodes c) = e := by
      simp only [midClock, Option.bind_eq_bind, Option.bind_eq_some_iff] at ht
      obtain ⟨u, -, v, hv, huv⟩ := ht
      cases hv
      cases huv
      rfl
    rw [hage, oldestElem_twin htwin, he]
  · obtain ⟨t', ht', htwin, hage⟩ := hmid before e t ht
    refine ⟨t', ht', ?_⟩
    rw [hage]
    exact oldest_twin (m.wants c p) (fun q => htwin.regs (inpAt c q))
      (fun x src => mesh_wants_readdressed hkind x src) none _

omit [DecidableEq N] hkind in
/-- What the second run carries in its packets is what the first one has for timestamps. -/
theorem Dates.stamps (h : Dates r r') (hd : AllDated r'.state) :
    (∀ p x x', held r.state p = some x → held r'.state p = some x' → x.timestamp = x'.src) ∧
      List.Forall₂ (fun d d' => d.pkt.timestamp = d'.pkt.src) r.state.delivered
        r'.state.delivered := by
  refine ⟨fun p x x' hx hx' => ?_, ?_⟩
  · rw [held_reg] at hx hx'
    obtain ⟨src, hsrc⟩ := (h.twin.regs p).held hx
    obtain rfl := Option.some.inj (hsrc.symm.trans hx')
    obtain ⟨-, hpkt⟩ := Reg.held_eq_some.1 hx'
    have hdated : Dated (reg r'.state p).pkt := by
      rcases p with ⟨c, p⟩ | ⟨c, p⟩
      · exact (hd.held c p).1
      · exact (hd.held c p).2
    rw [hpkt] at hdated
    exact hdated
  · have hflip : List.Forall₂ (fun d' d : Delivery m => Dated d'.pkt ∧
        ∃ src, d' = { d with pkt := readdressed d.pkt src }) r'.state.delivered r.state.delivered :=
      (List.forall₂_and_left _ _).2 ⟨hd.delivered, h.twin.delivered.flip⟩
    refine hflip.flip.imp ?_
    rintro d - ⟨hdated, src, rfl⟩
    exact hdated

/-- A drive does the same to both runs. -/
theorem drive_dates {d : Drive N} {v : Run m} (h : Dates r r') (hv : r.drive d = some v) :
    ∃ v', r'.drive (date r' d) = some v' ∧ Dates v v' := by
  cases d with
  | clock c answer =>
      simp only [Run.drive, Option.bind_eq_bind, Option.bind_eq_some_iff] at hv
      obtain ⟨t, ht, hv⟩ := hv
      cases hv
      rw [clock_eq_midClock] at ht
      obtain ⟨⟨e, t⟩, hmid, rfl⟩ := Option.map_eq_some_iff.1 ht
      obtain ⟨t', hmid', htwin⟩ := midClock_twin (mesh_arrive_readdressed hkind) h.twin
        (fun p x src => mesh_wants_readdressed hkind x src) hmid
      refine ⟨{ r' with state := t' }, ?_, htwin, h.injected⟩
      simp [date, Run.drive, clock_eq_midClock, hmid']
  | inject c i pkt =>
      simp only [Run.drive, Option.bind_eq_bind, Option.bind_eq_some_iff] at hv
      obtain ⟨⟨ret, t⟩, ht, hv⟩ := hv
      cases hv
      obtain ⟨⟨q, x⟩, hfound, -⟩ := Option.bind_eq_some_iff.1 ht
      let now := (r.state.nodes c).timestamp
      have hnow : (r'.state.nodes c).timestamp = now := h.twin.stamp c
      rcases receive_twin (mesh_arrive_readdressed hkind) h.twin now hfound with
        ⟨h1, h2⟩ | ⟨-, h1, h2⟩
      · obtain ⟨rfl, rfl⟩ : Stat.EBUSY = ret ∧ r.state = t := by simpa using h1.symm.trans ht
        exact ⟨r', by simp [date, Run.drive, hnow, h2], h⟩
      · obtain ⟨rfl, rfl⟩ : Stat.OK = ret ∧ setReg r.state (inpAt c q) ⟨x, true⟩ = t := by
          simpa using h1.symm.trans ht
        have htwin : Twin (setReg r.state (inpAt c q) ⟨x, true⟩)
            (setReg r'.state (inpAt c q) ⟨readdressed x now, true⟩) :=
          h.twin.setReg _ (.set now true)
        exact ⟨⟨setReg r'.state (inpAt c q) ⟨readdressed x now, true⟩,
          ⟨c, i, readdressed pkt now, now⟩ :: r'.injected⟩, by simp [date, Run.drive, hnow, h2],
          htwin, by simp [h.injected, now]⟩

/-- A packet that an element presents is dated, and a clock that keeps the age of packets leaves
them so. -/
theorem drive_dated (w : Wiring m) {d : Drive N} {v : Run m} (hd : AllDated r.state)
    (hkeep : KeepsAge w r d) (hv : r.drive (date r d) = some v) : AllDated v.state := by
  cases d with
  | clock c answer =>
      simp only [date, Run.drive, Option.bind_eq_bind, Option.bind_eq_some_iff] at hv
      obtain ⟨t, ht, hv⟩ := hv
      cases hv
      rw [clock_eq_midClock] at ht
      obtain ⟨⟨e, t⟩, hmid, rfl⟩ := Option.map_eq_some_iff.1 ht
      exact midClock_dated hkind hd hkeep hmid
  | inject c i pkt =>
      simp only [date, Run.drive, Option.bind_eq_bind, Option.bind_eq_some_iff] at hv
      obtain ⟨⟨ret, t⟩, ht, hv⟩ := hv
      cases hv
      obtain ⟨⟨q, x⟩, hfound, -⟩ := Option.bind_eq_some_iff.1 ht
      rw [receive_eq hfound] at ht
      split_ifs at ht
      · cases ht
        exact hd
      · cases ht
        rw [mesh_arrive hkind] at hfound
        obtain ⟨hport, hx⟩ := arrive_port hfound
        have helem : q.isElem = true := by
          cases q with
          | elem j => rfl
          | dir d =>
              rw [w.port_dir] at hport
              cases hlink : w.link c d <;> simp [hlink] at hport
        have hdated : Dated x := (arrive_elem hfound helem).trans hx.src.symm
        exact ⟨setInp_holds hd.held q hdated, hd.delivered⟩

/-- The runs of the packets as they are and of the packets that carry their times of injection. -/
theorem run_dates {drives : List (Drive N)} {v : Run m} (h : Dates r r')
    (hv : drives.foldlM Run.drive r = some v) :
    ∃ v', drives.foldlM (fun r d => r.drive (date r d)) r' = some v' ∧ Dates v v' :=
  Fold.foldlM_sim (g := fun r d => r.drive (date r d)) Dates
    (fun _ _ _ _ _ h hu => drive_dates hkind h hu) h hv

omit hkind in
theorem KeepsAge.dates (h : Dates r r') {d : Drive N} (hkeep : KeepsAge w r d) :
    KeepsAge w r' d := by
  cases d with
  | clock c answer => exact Steady.twin (h.twin.tick c) hkeep
  | inject c i pkt => trivial

theorem run_dated (w : Wiring m) {drives : List (Drive N)} {v v' : Run m} (h : Dates r r')
    (hd : AllDated r'.state) (hkeep : Fold.Along Run.drive (KeepsAge w) drives r)
    (hv : drives.foldlM Run.drive r = some v)
    (hv' : drives.foldlM (fun r d => r.drive (date r d)) r' = some v') : AllDated v'.state := by
  induction drives generalizing r r' with
  | nil => cases hv'; exact hd
  | cons d drives ih =>
      simp only [List.foldlM_cons, Option.bind_eq_bind, Option.bind_eq_some_iff] at hv hv'
      obtain ⟨u, hu, hv⟩ := hv
      obtain ⟨u', hu', hv'⟩ := hv'
      obtain ⟨u'', hu'', hdates⟩ := drive_dates hkind h hu
      obtain rfl := Option.some.inj (hu'.symm.trans hu'')
      exact ih hdates (drive_dated hkind w hd (hkeep.1.dates h) hu') (hkeep.2 u hu) hv hv'

/-- The age of packets in a mesh of `node1d` nodes, such as a chain: in every run whose clocks hand
no packet over to a neighbour with elements, unless that neighbour's clock count is the timestamp of
the packet, every packet held or delivered has the clock count of its injection for a timestamp, and
every choice of the oldest packet compares these. -/
theorem node1d_age (w : Wiring m) (drives : List (Drive N))
    (hkeep : Fold.Along Run.drive (KeepsAge w) drives (Run.init m)) (r : Run m)
    (hr : Run.ofDrives m drives = some r) :
    ∃ r', datedRun m drives = some r' ∧ Dates r r' ∧ Aged w r r' := by
  have hinit : Dates (Run.init m) (Run.init m) := ⟨⟨fun _ => rfl, fun _ => .refl, .nil⟩, rfl⟩
  have hdated : AllDated (Run.init m).state :=
    ⟨fun _ _ => ⟨rfl, rfl⟩, fun d hd => absurd hd List.not_mem_nil⟩
  obtain ⟨r', hr', hdates⟩ := run_dates hkind hinit hr
  have hall := run_dated hkind w hinit hdated hkeep hr hr'
  obtain ⟨hheld, hdelivered⟩ := hdates.stamps hall
  exact ⟨r', hr', hdates, hheld, hdelivered,
    fun c answer hsteady => choosesByAge hkind hdates.twin hall hsteady answer⟩

end Run

instance (w : Wiring m) (c : N) (s : MeshState m) : Decidable (Steady w c s) :=
  inferInstanceAs (Decidable (∀ d, ∀ c' ∈ w.link c d, 0 < m.elems c' →
    ((s.nodes c').inp (.dir (w.opp d))).busy = false → ((s.nodes c).out (.dir d)).busy = true →
      ((s.nodes c).out (.dir d)).pkt.timestamp = (s.nodes c').timestamp))

instance (w : Wiring m) (r : Run m) : (d : Drive N) → Decidable (KeepsAge w r d)
  | .clock c _ => inferInstanceAs (Decidable (Steady w c (tick r.state c)))
  | .inject _ _ _ => .isTrue trivial

section Pair

open Line1d

/-- A letter that the northern node takes before its first clock, and delivers. -/
def early : List (Drive pair.Node) :=
  [.inject pairSouth 0 (letter 1), .clock pairSouth fun _ => .OK, .clock pairSouth fun _ => .OK,
    .clock pairNorth fun _ => .OK, .clock pairNorth fun _ => .OK]

/-- `node1d_age` on the run that delivers the early letter. -/
theorem node1d_age_early : ∃ r r', Run.ofDrives pair.mesh early = some r ∧
    r.state.delivered.map (fun d => d.pkt.timestamp) = [0] ∧
    datedRun pair.mesh early = some r' ∧ Dates r r' ∧ Aged pair.wiring r r' := by
  have hrun : (Run.ofDrives pair.mesh early).map
      (fun r => r.state.delivered.map fun d => d.pkt.timestamp) = some [0] := by decide +kernel
  obtain ⟨r, hr, hdelivered⟩ := Option.map_eq_some_iff.1 hrun
  have hkind : pair.mesh.toNodeKind = kind pair.cluster := rfl
  obtain ⟨r', hr', hdates, haged⟩ := node1d_age hkind pair.wiring early (by decide +kernel) r hr
  exact ⟨r, r', hr, hdelivered, hr', hdates, haged⟩

/-- A letter from the south meets one that was injected later in the north, after the northern node
counted a clock. -/
def overtaken : List (Drive pair.Node) :=
  [.inject pairSouth 0 (letter 1), .clock pairSouth fun _ => .OK, .clock pairNorth fun _ => .OK,
    .inject pairNorth 0 (letter 2), .clock pairSouth fun _ => .OK]

/-- A node with an element stamps the packets of its neighbour: the letter from the south, injected
at time 0, has the timestamp 1 in the northern node, and the clock there chooses the letter injected
at time 1 for the element. -/
theorem node1d_restamps : ∃ r r', Run.ofDrives pair.mesh overtaken = some r ∧
    datedRun pair.mesh overtaken = some r' ∧ Dates r r' ∧
    (¬ ∀ p x x', held r.state p = some x → held r'.state p = some x' → x.timestamp = x'.src) ∧
    ¬ ChoosesByAge (fun _ => .OK) pairNorth r.state r'.state := by
  let side : Place pair.mesh := inpAt pairNorth (.dir .south)
  let desk : Port Dir1 (pair.mesh.elems pairNorth) := .elem ⟨0, Nat.one_pos⟩
  let calls : List (Port Dir1 (pair.mesh.elems pairNorth)) := [.dir .north, .dir .south]
  have hheld : (Run.ofDrives pair.mesh overtaken).bind (fun r =>
      (datedRun pair.mesh overtaken).bind fun r' =>
        Option.map₂ (fun x x' => (x.timestamp, x'.src)) (held r.state side)
          (held r'.state side)) = some (1, 0) := by decide +kernel
  have hchosen : (Run.ofDrives pair.mesh overtaken).bind (fun r =>
      (datedRun pair.mesh overtaken).bind fun r' => Option.map₂ (fun x x' =>
        (chosen pairNorth x.1 (x.2.nodes pairNorth) desk,
          chosen pairNorth x.1 (byAge (x'.2.nodes pairNorth)) desk))
        (midClock (fun _ => .OK) pairNorth calls r.state)
        (midClock (fun _ => .OK) pairNorth calls r'.state)) =
      some (some desk, some (.dir .south)) := by decide +kernel
  have hinit : Dates (Run.init pair.mesh) (Run.init pair.mesh) :=
    ⟨⟨fun _ => rfl, fun _ => .refl, .nil⟩, rfl⟩
  obtain ⟨r, hr, hheld⟩ := Option.bind_eq_some_iff.1 hheld
  obtain ⟨r', hr', hheld⟩ := Option.bind_eq_some_iff.1 hheld
  obtain ⟨x, x', hx, hx', hstamps⟩ := Option.map₂_eq_some_iff.1 hheld
  have hkind : pair.mesh.toNodeKind = kind pair.cluster := rfl
  obtain ⟨v', hv', hdates⟩ := run_dates hkind hinit hr
  obtain rfl := Option.some.inj (hv'.symm.trans hr')
  refine ⟨r, v', hr, hr', hdates, fun hage => ?_, fun hchooses => ?_⟩
  · have hsame := hage side x x' hx hx'
    simp only [Prod.mk.injEq] at hstamps
    rw [hstamps.1, hstamps.2] at hsame
    exact absurd hsame (by decide)
  · simp only [hr, hr', Option.bind_some] at hchosen
    obtain ⟨⟨e, t⟩, ⟨e', t'⟩, ht, ht', hinputs⟩ := Option.map₂_eq_some_iff.1 hchosen
    obtain ⟨u', hu', hsame⟩ := hchooses.call calls desk [] rfl e t ht
    obtain ⟨-, rfl⟩ : e' = e ∧ t' = u' := by simpa using ht'.symm.trans hu'
    simp only [Prod.mk.injEq] at hinputs
    rw [hinputs.1, hinputs.2] at hsame
    simp [desk] at hsame

end Pair

end Gran.Node1d
