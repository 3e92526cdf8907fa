import Gran.Mesh.Run

/-!
# Meshes in lockstep

Two meshes whose packets differ in the field `from` only. No node reads that field, so both do the
same with every packet, and what the packets of the second mesh carry in it can tell where the
packets of the first one come from. `Twin` is kept by each elementary step: `propagateTo_twin`,
`receive_twin` and `Twin.hop` say what the step does to both meshes, and `tagged` pairs the packets
in each place, up to their timestamps, with what their counterparts carry.
-/

namespace Gran.Mesh

variable {N D : Type} {m : Mesh N D}

/-- The packet with another source address. -/
def readdressed (pkt : Packet) (src : Word) : Packet := { pkt with src }

/-- The packet without its timestamp. -/
def unstamped (pkt : Packet) : Packet := { pkt with timestamp := 0 }

/-- Registers that differ in the source address of the packet at most. -/
structure TwinReg (r r' : Reg) : Prop where
  busy : r'.busy = r.busy
  pkt : ∃ src, r'.pkt = readdressed r.pkt src

/-- Meshes that differ in the source addresses of packets at most. -/
structure Twin (s s' : MeshState m) : Prop where
  stamp : ∀ c, (s'.nodes c).timestamp = (s.nodes c).timestamp
  regs : ∀ p, TwinReg (reg s p) (reg s' p)
  delivered : List.Forall₂ (fun d d' => ∃ src, d' = { d with pkt := readdressed d.pkt src })
    s.delivered s'.delivered

/-- The packet in a place, with the source address that its counterpart carries. -/
def tagged (s s' : MeshState m) (p : Place m) : Option (Packet × Word) :=
  Option.map₂ (fun x x' => (unstamped x, x'.src)) (held s p) (held s' p)

/-- The packets delivered, with the source addresses that their counterparts carry, newest first. -/
def tags (s s' : MeshState m) : List (Packet × Word) :=
  (s.delivered.zip s'.delivered).map fun d => (unstamped d.1.pkt, d.2.pkt.src)

/-- A register is its own twin. -/
theorem TwinReg.refl {r : Reg} : TwinReg r r := ⟨Eq.refl _, r.pkt.src, Eq.refl _⟩

/-- A packet with another address is a twin. -/
theorem TwinReg.set {x : Packet} (src : Word) (busy : Bool) :
    TwinReg ⟨x, busy⟩ ⟨readdressed x src, busy⟩ := ⟨Eq.refl _, src, Eq.refl _⟩

/-- A packet has a counterpart. -/
theorem TwinReg.held {r r' : Reg} (h : TwinReg r r') {x : Packet} (hx : r.held = some x) :
    ∃ src, r'.held = some (readdressed x src) := by
  obtain ⟨hbusy, rfl⟩ := Reg.held_eq_some.1 hx
  obtain ⟨src, hsrc⟩ := h.pkt
  exact ⟨src, Reg.held_eq_some.2 ⟨h.busy.trans hbusy, hsrc⟩⟩

/-- Registers with counterparts are chosen alike by a selector that does not read the source
address. -/
theorem oldest_twin {Q : Type} {regs regs' : Q → Reg} (sel : Packet → Bool)
    (hregs : ∀ q, TwinReg (regs q) (regs' q)) (hsel : ∀ x src, sel (readdressed x src) = sel x)
    (r : Option Q)
    (l : List (Option Q)) :
    oldest regs' (fun reg => sel reg.pkt) r l = oldest regs (fun reg => sel reg.pkt) r l := by
  have h := oldest_map regs (fun reg => sel reg.pkt) regs' (fun reg => sel reg.pkt) id
    (fun q => (hregs q).busy)
    (fun q => by
      obtain ⟨src, hsrc⟩ := (hregs q).pkt
      rw [id, hsrc]
      exact Eq.refl _)
    (fun q => by
      obtain ⟨src, hsrc⟩ := (hregs q).pkt
      rw [id, hsrc]
      exact hsel _ _) r l
  simpa using h

variable [DecidableEq N] [DecidableEq D] {s s' : MeshState m}

/-! ## Elementary steps -/

/-- Writing a register leaves the clock counts alone. -/
theorem setReg_stamp (s : MeshState m) (p : Place m) (r : Reg) (c : N) :
    ((setReg s p r).nodes c).timestamp = (s.nodes c).timestamp := by
  rcases p with ⟨c', p⟩ | ⟨c', p⟩ <;> by_cases h : c = c'
  all_goals first | subst h | skip
  all_goals simp [setReg, setInp, setOut, setNode, *]

/-- Twins stay twins when twin registers are written. -/
theorem Twin.setReg (h : Twin s s') (p : Place m) {r r' : Reg} (hr : TwinReg r r') :
    Twin (setReg s p r) (setReg s' p r') where
  stamp c := by rw [setReg_stamp, setReg_stamp, h.stamp]
  regs q := by
    rw [reg_setReg, reg_setReg]
    by_cases hq : q = p
    · subst hq
      simpa using hr
    · simpa [hq] using h.regs q
  delivered := by simpa using h.delivered

/-- Writing a register changes what one place is tagged with. -/
theorem tagged_setReg (s s' : MeshState m) (p : Place m) (r r' : Reg) :
    tagged (setReg s p r) (setReg s' p r') = Function.update (tagged s s') p
      (Option.map₂ (fun x x' => (unstamped x, x'.src)) r.held r'.held) := by
  funext q
  simp only [tagged, held_reg, reg_setReg]
  by_cases hq : q = p
  · subst hq
    simp
  · simp [hq, tagged, held_reg]

omit [DecidableEq D] in
/-- Twins stay twins when a clock is counted. -/
theorem Twin.tick (h : Twin s s') (c : N) : Twin (tick s c) (Mesh.tick s' c) where
  stamp c' := by
    have hstamp := h.stamp c'
    by_cases hc : c' = c
    · subst hc
      simp [Mesh.tick, setNode, hstamp]
    · simpa [Mesh.tick, setNode, hc] using hstamp
  regs p := by
    have hp := h.regs p
    rcases p with ⟨c', p⟩ | ⟨c', p⟩ <;> by_cases hc : c' = c
    all_goals first | subst hc | skip
    all_goals simpa [reg, Mesh.tick, setNode, *] using hp
  delivered := by simpa [Mesh.tick] using h.delivered

/-- A packet that hops does so in both meshes. -/
theorem Twin.hop (h : Twin s s') {p q : Place m} {x : Packet} (src : Word) :
    Twin (hop s p q x) (Mesh.hop s' p q (readdressed x src)) := by
  obtain ⟨w, hw⟩ := (h.regs p).pkt
  refine (h.setReg q (.set src true)).setReg p ?_
  exact ⟨Eq.refl _, w, hw⟩

/-- A hop takes its tag along. -/
theorem tagged_hop (s s' : MeshState m) {p q : Place m} (hpq : p ≠ q) (x : Packet) (src : Word) :
    tagged (hop s p q x) (hop s' p q (readdressed x src)) =
      Function.update (Function.update (tagged s s') p none) q (some (unstamped x, src)) := by
  rw [hop, hop, tagged_setReg, tagged_setReg, Function.update_comm hpq.symm]
  rfl

/-- One `propagate` call moves the packet of the candidate it chooses, if the output is free. -/
theorem propagateTo_eq (s : MeshState m) (c : N) (r : Option (Port D (m.elems c)))
    (p : Port D (m.elems c)) :
    propagateTo c r s p = some (match oldest (s.nodes c).inp (fun reg => m.wants c p reg.pkt) none
        (m.candidates c r p) with
      | none => s
      | some q => if ((s.nodes c).out p).busy then s
          else hop s (inpAt c q) (outAt c p) ((s.nodes c).inp q).pkt) := by
  unfold propagateTo propagate
  cases hold :
    oldest (s.nodes c).inp (fun reg => m.wants c p reg.pkt) none (m.candidates c r p) with
  | none => simp [setNode]
  | some q =>
      obtain h | ⟨-, hbusy, -⟩ := oldest_some hold
      · cases h
      cases hout : ((s.nodes c).out p).busy with
      | true => simp [copyReg, hbusy, hout, setNode]
      | false => simp [copyReg, hbusy, hout, hop, setReg, setOut, setInp, setNode, reg]

/-- In both meshes a `propagate` call does nothing or moves the same packet. -/
theorem propagateTo_twin (h : Twin s s') {c : N} {p : Port D (m.elems c)}
    (hsel : ∀ x src, m.wants c p (readdressed x src) = m.wants c p x)
    (r : Option (Port D (m.elems c))) :
    (propagateTo c r s p = some s ∧ propagateTo c r s' p = some s') ∨
      ∃ q x src, held s (inpAt c q) = some x ∧ held s' (inpAt c q) = some (readdressed x src) ∧
        m.wants c p x = true ∧ held s (outAt c p) = none ∧
        propagateTo c r s p = some (hop s (inpAt c q) (outAt c p) x) ∧
        propagateTo c r s' p = some (hop s' (inpAt c q) (outAt c p) (readdressed x src)) := by
  have hregs : ∀ q, TwinReg ((s.nodes c).inp q) ((s'.nodes c).inp q) := fun q => h.regs (inpAt c q)
  have hout : ((s'.nodes c).out p).busy = ((s.nodes c).out p).busy := (h.regs (outAt c p)).busy
  simp only [propagateTo_eq, oldest_twin (m.wants c p) hregs hsel, hout]
  cases hold :
    oldest (s.nodes c).inp (fun reg => m.wants c p reg.pkt) none (m.candidates c r p) with
  | none => exact Or.inl ⟨rfl, rfl⟩
  | some q =>
      obtain h | ⟨-, hbusy, hwants⟩ := oldest_some hold
      · cases h
      cases hfull : ((s.nodes c).out p).busy with
      | true => exact Or.inl ⟨rfl, rfl⟩
      | false =>
          obtain ⟨src, hsrc⟩ := (hregs q).pkt
          have hx : held s (inpAt c q) = some ((s.nodes c).inp q).pkt :=
            Reg.held_eq_some.2 ⟨hbusy, rfl⟩
          refine Or.inr ⟨q, _, src, hx, ?_, hwants, Reg.held_eq_none.2 hfull, rfl, ?_⟩
          · exact Reg.held_eq_some.2 ⟨(hregs q).busy.trans hbusy, hsrc⟩
          · rw [← hsrc]
            rfl

/-- A packet is handed to the component behind an output. -/
def handOver (s : MeshState m) (c : N) (p : Port D (m.elems c)) (comp : Comp N) (x : Packet) :
    MeshState m :=
  { setReg s (outAt c p) { reg s (outAt c p) with busy := false } with
    delivered := ⟨c, p, comp, x⟩ :: s.delivered }

/-- Twins stay twins when a packet is handed over. -/
theorem Twin.handOver (h : Twin s s') (c : N) (p : Port D (m.elems c)) (comp : Comp N) (x : Packet)
    (src : Word) :
    Twin (handOver s c p comp x) (Mesh.handOver s' c p comp (readdressed x src)) := by
  have hset : TwinReg { reg s (outAt c p) with busy := false }
      { reg s' (outAt c p) with busy := false } := ⟨Eq.refl _, (h.regs _).pkt⟩
  have htwin := h.setReg (outAt c p) hset
  exact ⟨htwin.stamp, htwin.regs, .cons ⟨src, rfl⟩ h.delivered⟩

/-- Handing a packet over frees its place. -/
theorem tagged_handOver (s s' : MeshState m) (c : N) (p : Port D (m.elems c)) (comp : Comp N)
    (x x' : Packet) : tagged (handOver s c p comp x) (handOver s' c p comp x') =
      Function.update (tagged s s') (outAt c p) none :=
  tagged_setReg s s' (outAt c p) _ _

/-- `receive` refuses a packet or puts it into the register of the port it finds. -/
theorem receive_eq {c : N} {sender : Comp N} {pkt x : Packet} {q : Port D (m.elems c)}
    (hfound : m.arrive (m.ports c) sender (s.nodes c).timestamp pkt (m.portList c) = some (q, x)) :
    receive s c sender pkt = some (if (reg s (inpAt c q)).busy then (.EBUSY, s)
      else (.OK, setReg s (inpAt c q) ⟨x, true⟩)) := by
  have hregs : (s.nodes c).inp q = reg s (inpAt c q) := rfl
  simp only [receive, hfound, placeReg, hregs, Option.bind_eq_bind, Option.bind_some]
  split_ifs with hfull
  · simp [← hregs]
  · rfl

/-- Nothing happens at a free output. -/
theorem clockOutput_free {answer : Comp N → Stat} {c : N} {p : Port D (m.elems c)}
    (hy : held s (outAt c p) = none) : clockOutput answer c s p = some s := by
  have hfree : ((s.nodes c).out p).busy = false := Reg.held_eq_none.1 hy
  simp [clockOutput, hfree]

/-- A packet for a neighbour stays or hops. -/
theorem clockOutput_link {answer : Comp N → Stat} {c c' : N} {p : Port D (m.elems c)}
    {q : Port D (m.elems c')} {y x : Packet} (hy : held s (outAt c p) = some y)
    (hport : m.ports c p = some (.node c'))
    (hfound : m.arrive (m.ports c') (.node c) (s.nodes c').timestamp y (m.portList c') =
      some (q, x)) :
    clockOutput answer c s p = some (if (reg s (inpAt c' q)).busy then s
      else hop s (outAt c p) (inpAt c' q) x) := by
  obtain ⟨hbusy, rfl⟩ := Reg.held_eq_some.1 hy
  have hafter : setOut (setReg s (inpAt c' q) ⟨x, true⟩) c p
      { ((setReg s (inpAt c' q) ⟨x, true⟩).nodes c).out p with busy := false } =
        hop s (outAt c p) (inpAt c' q) x := by
    have hreg : ((setReg s (inpAt c' q) ⟨x, true⟩).nodes c).out p = reg s (outAt c p) :=
      (congrFun (reg_setReg (inpAt c' q) ⟨x, true⟩) (outAt c p)).trans (by simp)
    rw [hreg]
    rfl
  have hreceive : receive s c' (.node c) ((s.nodes c).out p).pkt = _ := receive_eq hfound
  simp only [clockOutput, hbusy, if_true, send, hport, hreceive]
  cases (reg s (inpAt c' q)).busy with
  | true => simp
  | false =>
      simp only [Bool.false_eq_true, if_false, Option.bind_eq_bind, Option.bind_some,
        reduceCtorEq, hafter]
      rfl

section Receive

variable (harrive : ∀ {c : N} (sender : Comp N) (now : Word) (pkt : Packet) (src : Word),
  m.arrive (m.ports c) sender now (readdressed pkt src) (m.portList c) =
    (m.arrive (m.ports c) sender now pkt (m.portList c)).map fun x => (x.1, readdressed x.2 src))
include harrive

omit [DecidableEq N] [DecidableEq D] in
/-- The port search finds the same in both meshes. -/
theorem Twin.found (h : Twin s s') {c : N} {sender : Comp N} {pkt x : Packet} (src : Word)
    {q : Port D (m.elems c)} (hfound : m.arrive (m.ports c) sender (s.nodes c).timestamp pkt
      (m.portList c) = some (q, x)) :
    m.arrive (m.ports c) sender (s'.nodes c).timestamp (readdressed pkt src) (m.portList c) =
      some (q, readdressed x src) := by
  rw [h.stamp, harrive, hfound, Option.map_some]

/-- Both meshes refuse a packet or put it into the same free register. -/
theorem receive_twin (h : Twin s s') {c : N} {sender : Comp N} {pkt x : Packet} (src : Word)
    {q : Port D (m.elems c)} (hfound : m.arrive (m.ports c) sender (s.nodes c).timestamp pkt
      (m.portList c) = some (q, x)) :
    (receive s c sender pkt = some (.EBUSY, s) ∧
        receive s' c sender (readdressed pkt src) = some (.EBUSY, s')) ∨
      held s (inpAt c q) = none ∧
        receive s c sender pkt = some (.OK, setReg s (inpAt c q) ⟨x, true⟩) ∧
        receive s' c sender (readdressed pkt src) =
          some (.OK, setReg s' (inpAt c q) ⟨readdressed x src, true⟩) := by
  rw [receive_eq hfound, receive_eq (h.found harrive src hfound), (h.regs (inpAt c q)).busy]
  cases hfull : (reg s (inpAt c q)).busy with
  | true => exact Or.inl ⟨by simp, by simp⟩
  | false => exact Or.inr ⟨Reg.held_eq_none.2 hfull, rfl, rfl⟩

/-- A packet for a neighbour stays in both meshes or hops in both. -/
theorem clockOutput_link_twin (h : Twin s s') {answer : Comp N → Stat} {c c' : N}
    {p : Port D (m.elems c)} {q : Port D (m.elems c')} {y x : Packet} {src : Word}
    (hy : held s (outAt c p) = some y) (hy' : held s' (outAt c p) = some (readdressed y src))
    (hport : m.ports c p = some (.node c'))
    (hfound : m.arrive (m.ports c') (.node c) (s.nodes c').timestamp y (m.portList c') =
      some (q, x)) :
    (clockOutput answer c s p = some s ∧ clockOutput answer c s' p = some s') ∨
      held s (inpAt c' q) = none ∧
        clockOutput answer c s p = some (hop s (outAt c p) (inpAt c' q) x) ∧
        clockOutput answer c s' p = some (hop s' (outAt c p) (inpAt c' q) (readdressed x src)) := by
  rw [clockOutput_link hy hport hfound, clockOutput_link hy' hport (h.found harrive src hfound),
    (h.regs (inpAt c' q)).busy]
  cases hfull : (reg s (inpAt c' q)).busy with
  | true => exact Or.inl ⟨by simp, by simp⟩
  | false => exact Or.inr ⟨Reg.held_eq_none.2 hfull, by simp, by simp⟩

end Receive

/-- What an element answers decides whether its packet stays, is handed over or is dropped. -/
theorem clockOutput_elem {answer : Comp N → Stat} {c c' : N} {i : Nat} {p : Port D (m.elems c)}
    {y : Packet} (hy : held s (outAt c p) = some y) (hport : m.ports c p = some (.elem c' i)) :
    clockOutput answer c s p = some (if answer (.elem c' i) = .EBUSY then s
      else if answer (.elem c' i) = .OK then handOver s c p (.elem c' i) y
      else setReg s (outAt c p) { reg s (outAt c p) with busy := false }) := by
  obtain ⟨hbusy, rfl⟩ := Reg.held_eq_some.1 hy
  simp only [clockOutput, hbusy, if_true, send, hport, Option.bind_eq_bind, Option.bind_some,
    Option.pure_def]
  by_cases hok : answer (.elem c' i) = .OK
  · simp only [hok, reduceCtorEq, if_true, if_false]
    rfl
  · simp only [hok, if_false]
    split_ifs <;> rfl

/-- A packet for an element stays in both meshes or is handed over in both. -/
theorem clockOutput_elem_twin {answer : Comp N → Stat}
    (hanswer : ∀ comp, answer comp = .OK ∨ answer comp = .EBUSY) {c c' : N} {i : Nat}
    {p : Port D (m.elems c)} {y : Packet} {src : Word}
    (hy : held s (outAt c p) = some y) (hy' : held s' (outAt c p) = some (readdressed y src))
    (hport : m.ports c p = some (.elem c' i)) :
    (clockOutput answer c s p = some s ∧ clockOutput answer c s' p = some s') ∨
      clockOutput answer c s p = some (handOver s c p (.elem c' i) y) ∧
        clockOutput answer c s' p = some (handOver s' c p (.elem c' i) (readdressed y src)) := by
  rw [clockOutput_elem hy hport, clockOutput_elem hy' hport]
  rcases hanswer (.elem c' i) with hans | hans
  · exact Or.inr ⟨by simp [hans], by simp [hans]⟩
  · exact Or.inl ⟨by simp [hans], by simp [hans]⟩

/-! ## Whole clocks -/

/-- What the loop of `clock_outputs` does at one output: the packet stays, the element takes or
drops it, or it hops to the port of the neighbour that `receive` finds. -/
inductive Sends (c : N) (p : Port D (m.elems c)) (s : MeshState m) : MeshState m → Prop where
  | stays : Sends c p s s
  | taken (comp : Comp N) {y : Packet} (hy : held s (outAt c p) = some y) :
      Sends c p s (handOver s c p comp y)
  | dropped : Sends c p s (setReg s (outAt c p) { reg s (outAt c p) with busy := false })
  | hops {c' : N} {q : Port D (m.elems c')} {y x : Packet} (hport : m.ports c p = some (.node c'))
      (hy : held s (outAt c p) = some y) (hfree : held s (inpAt c' q) = none)
      (hfound : m.arrive (m.ports c') (.node c) (s.nodes c').timestamp y (m.portList c') =
        some (q, x)) : Sends c p s (hop s (outAt c p) (inpAt c' q) x)

/-- A loop that does not abort has an element or a port of a neighbour to send a packet to. -/
theorem clockOutput_dest {answer : Comp N → Stat} {c : N} {p : Port D (m.elems c)} {y : Packet}
    {t : MeshState m} (hy : held s (outAt c p) = some y) (ht : clockOutput answer c s p = some t) :
    (∃ c' i, m.ports c p = some (.elem c' i)) ∨
      ∃ c' q x, m.ports c p = some (.node c') ∧
        m.arrive (m.ports c') (.node c) (s.nodes c').timestamp y (m.portList c') = some (q, x) := by
  obtain ⟨hbusy, rfl⟩ := Reg.held_eq_some.1 hy
  have hsend : clockOutput answer c s p = (send answer s c p ((s.nodes c).out p).pkt).bind _ :=
    if_pos hbusy
  rw [hsend] at ht
  cases hport : m.ports c p with
  | none => simp [send, hport] at ht
  | some comp =>
      cases comp with
      | elem c' i => exact Or.inl ⟨c', i, rfl⟩
      | node c' =>
          cases hfound : m.arrive (m.ports c') (.node c) (s.nodes c').timestamp
              ((s.nodes c).out p).pkt (m.portList c') with
          | none =>
              have hnone : receive s c' (.node c) ((s.nodes c).out p).pkt = none := by
                simp only [receive]
                rw [hfound]
                rfl
              simp [send, hport, hnone] at ht
          | some x => exact Or.inr ⟨c', x.1, x.2, rfl, hfound⟩

/-- The loop of `clock_outputs` does one of these at each output. -/
theorem clockOutput_sends {answer : Comp N → Stat} {c : N} {p : Port D (m.elems c)}
    {t : MeshState m} (ht : clockOutput answer c s p = some t) : Sends c p s t := by
  cases hy : held s (outAt c p) with
  | none =>
      obtain rfl := Option.some.inj ((clockOutput_free hy).symm.trans ht)
      exact .stays
  | some y =>
      rcases clockOutput_dest hy ht with ⟨c', i, hport⟩ | ⟨c', q, x, hport, hfound⟩
      · rw [clockOutput_elem hy hport] at ht
        obtain rfl := Option.some.inj ht
        split_ifs
        · exact .stays
        · exact .taken _ hy
        · exact .dropped
      · rw [clockOutput_link hy hport hfound] at ht
        obtain rfl := Option.some.inj ht
        cases hfull : (reg s (inpAt c' q)).busy with
        | true => simpa using .stays
        | false => simpa using .hops hport hy (Reg.held_eq_none.2 hfull) hfound

/-- The state in which a clock makes the next of its `propagate` calls, with the element input that
it chose: the outputs are clocked and the calls in `before` are made. -/
def midClock (answer : Comp N → Stat) (c : N) (before : List (Port D (m.elems c)))
    (s : MeshState m) : Option (Option (Port D (m.elems c)) × MeshState m) := do
  let s ← clockOutputs answer c (tick s c)
  let r := oldestElem (s.nodes c)
  let s ← before.foldlM (propagateTo c r) s
  pure (r, s)

/-- A clock makes all of them. -/
theorem clock_eq_midClock (answer : Comp N → Stat) (c : N) (s : MeshState m) :
    clock answer c s = (midClock answer c (m.propagateOrder c) s).map Prod.snd := by
  unfold clock midClock
  cases clockOutputs answer c (tick s c) with
  | none => rfl
  | some u =>
      simp only [Option.bind_eq_bind, Option.bind_some]
      cases (m.propagateOrder c).foldlM (propagateTo c (oldestElem (u.nodes c))) u <;> rfl

omit [DecidableEq N] [DecidableEq D] in
/-- Twins have the same oldest element input. -/
theorem oldestElem_twin (h : Twin s s') (c : N) :
    oldestElem (s'.nodes c) = oldestElem (s.nodes c) :=
  oldest_twin (fun _ => true) (fun q => h.regs (inpAt c q)) (fun _ _ => rfl) none _

section Clock

variable (harrive : ∀ {c : N} (sender : Comp N) (now : Word) (pkt : Packet) (src : Word),
  m.arrive (m.ports c) sender now (readdressed pkt src) (m.portList c) =
    (m.arrive (m.ports c) sender now pkt (m.portList c)).map fun x => (x.1, readdressed x.2 src))
include harrive

/-- Both meshes do the same at an output. -/
theorem clockOutput_twin (h : Twin s s') {answer : Comp N → Stat} {c : N}
    {p : Port D (m.elems c)} {t : MeshState m} (ht : clockOutput answer c s p = some t) :
    ∃ t', clockOutput answer c s' p = some t' ∧ Twin t t' := by
  cases hy : held s (outAt c p) with
  | none =>
      obtain rfl := Option.some.inj ((clockOutput_free hy).symm.trans ht)
      have hfree : (reg s (outAt c p)).busy = false := Reg.held_eq_none.1 hy
      exact ⟨s', clockOutput_free (Reg.held_eq_none.2 ((h.regs (outAt c p)).busy.trans hfree)), h⟩
  | some y =>
      obtain ⟨src, hy'⟩ := (h.regs (outAt c p)).held hy
      rcases clockOutput_dest hy ht with ⟨c', i, hport⟩ | ⟨c', q, x, hport, hfound⟩
      · rw [clockOutput_elem hy hport] at ht
        obtain rfl := Option.some.inj ht
        refine ⟨_, clockOutput_elem hy' hport, ?_⟩
        split_ifs
        · exact h
        · exact h.handOver c p _ y src
        · exact h.setReg _ ⟨rfl, (h.regs _).pkt⟩
      · rw [clockOutput_link hy hport hfound] at ht
        obtain rfl := Option.some.inj ht
        refine ⟨_, clockOutput_link hy' hport (h.found harrive src hfound), ?_⟩
        rw [(h.regs (inpAt c' q)).busy]
        split_ifs
        · exact h
        · exact h.hop src

/-- A clock does the same in both meshes up to each of its `propagate` calls. -/
theorem midClock_twin (h : Twin s s') {answer : Comp N → Stat} {c : N}
    (hsel : ∀ p x src, m.wants c p (readdressed x src) = m.wants c p x)
    {before : List (Port D (m.elems c))} {r : Option (Port D (m.elems c))} {t : MeshState m}
    (ht : midClock answer c before s = some (r, t)) :
    ∃ t', midClock answer c before s' = some (r, t') ∧ Twin t t' := by
  simp only [midClock, Option.bind_eq_bind, Option.bind_eq_some_iff] at ht
  obtain ⟨u, hout, v, hprop, hv⟩ := ht
  obtain ⟨rfl, rfl⟩ : oldestElem (u.nodes c) = r ∧ v = t := by simpa using hv
  obtain ⟨u', hout', hu⟩ := Fold.foldlM_sim (g := clockOutput answer c) Twin
    (fun _ _ _ _ _ h ht => clockOutput_twin harrive h ht) (h.tick c) hout
  have hstep : ∀ (x x' : MeshState m) (p : Port D (m.elems c)) (y : MeshState m), p ∈ before →
      Twin x x' → propagateTo c (oldestElem (u.nodes c)) x p = some y →
        ∃ y', propagateTo c (oldestElem (u.nodes c)) x' p = some y' ∧ Twin y y' := by
    intro x x' p y _ hx hy
    rcases propagateTo_twin hx (hsel p) (oldestElem (u.nodes c)) with
      ⟨h1, h2⟩ | ⟨q, z, src, -, -, -, -, h1, h2⟩
    · obtain rfl := Option.some.inj (h1.symm.trans hy)
      exact ⟨x', h2, hx⟩
    · obtain rfl := Option.some.inj (h1.symm.trans hy)
      exact ⟨_, h2, hx.hop src⟩
  obtain ⟨v', hprop', hv'⟩ := Fold.foldlM_sim Twin hstep hu hprop
  refine ⟨v', ?_, hv'⟩
  simp only [midClock, clockOutputs, hout', Option.bind_eq_bind, Option.bind_some,
    oldestElem_twin hu, hprop']
  rfl

end Clock

end Gran.Mesh
