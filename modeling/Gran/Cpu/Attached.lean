import Gran.Clock.OneDomain
import Gran.Cpu.Timing

/-!
# A core and what is attached to it

A core in a system that takes its requests at once and answers each of them later. `Attached` is
what the system knows of the core: whether it owes it the line of a data request, and whether it
owes it a fetch. `Attached.Inv` relates the core to the sequential interpreter; read `Inv.waits` and
`Inv.runs` first, which say that a clock leaves the interpreter where it is, or makes its next step.
-/

namespace Gran

/-- The ports of a core, and what the world behind them owes it: the line of a data request, after
which the memory of the interpreter is what it is, and a fetch. A request that may be served is
taken at once. -/
structure Attached (C W : Type) {M : Type} (m : Memories M) (rcv : Word) where
  ports : CpuPorts C W
  served : Packet → Prop
  data : Option (Packet × Line) → M → W → Prop
  fetch : Option Packet → W → Prop
  takes_data : ∀ {p mem w}, Core.IsDataRequest rcv p → served p → data none mem w →
    ∃ w', ports.dmem p w = some (.OK, w') ∧
      data (some (p, (m.apply mem p).2)) (m.apply mem p).1 w' ∧ ∀ o, fetch o w → fetch o w'
  takes_fetch : ∀ {p w}, IsRequest (rcv + 64) 4 PACKET_READ p → fetch none w →
    ∃ w', ports.imem p w = some (.OK, w') ∧ fetch (some p) w' ∧
      ∀ o mem, data o mem w → data o mem w'

namespace Seq

variable {M : Type} {m : Memories M} {s t u : Seq M} {ret : Stat} {k : Nat}

/-- Where the interpreter can go on, the next fetch can be made. -/
theorem fetch_isSome (h : (t.step m).isSome) : t.core.fetch.isSome := by
  obtain ⟨x, hstep⟩ := Option.isSome_iff_exists.1 h
  obtain ⟨insn, hinsn, -⟩ := Option.bind_eq_some_iff.1 hstep
  obtain ⟨pkt, hpkt, -⟩ := Option.bind_eq_some_iff.1 hinsn
  rw [hpkt]
  rfl

/-- The interpreter forgets no request. -/
theorem step_accepted (h : s.step m = some (ret, t)) : s.accepted ⊆ t.accepted := by
  obtain ⟨insn, -, h⟩ := Option.bind_eq_some_iff.1 h
  obtain ⟨o, -, h⟩ := Option.bind_eq_some_iff.1 h
  cases o with
  | ret r core =>
      cases h
      exact List.Subset.refl _
  | request ld =>
      obtain ⟨core, -, h⟩ := Option.bind_eq_some_iff.1 h
      cases h
      exact List.subset_cons_self _ _

/-- The states before the last one of a run. -/
theorem run_before (h : s.run m k = some (ret, u)) {j : Nat} (hj : j < k) :
    ∃ t, s.run m j = some (.OK, t) ∧ (t.step m).isSome ∧ t.accepted ⊆ u.accepted := by
  induction k generalizing ret u with
  | zero => exact absurd hj (Nat.not_lt_zero j)
  | succ k ih =>
      simp only [run, Option.bind_eq_bind, Option.bind_eq_some_iff, Option.guard_eq_some'] at h
      obtain ⟨⟨r, v⟩, hrun, -, rfl, hstep⟩ := h
      have hsub := step_accepted hstep
      rcases Nat.lt_succ_iff_lt_or_eq.1 hj with hlt | rfl
      · obtain ⟨t, ht, hnext, hin⟩ := ih hrun hlt
        exact ⟨t, ht, hnext, fun p hp => hsub (hin hp)⟩
      · exact ⟨v, hrun, by rw [hstep]; rfl, hsub⟩

section

variable (h : s.run m k = some (ret, u)) (hret : ret ≠ .OK)
include h hret

/-- A run that an instruction stopped is not continued. -/
theorem run_le {j : Nat} {r : Stat} (hj : s.run m j = some (r, t)) : j ≤ k := by
  by_contra hlt
  obtain ⟨v, hv, -⟩ := run_before hj (Nat.lt_of_not_le hlt)
  cases hv.symm.trans h
  exact hret rfl

/-- The states of a run that an instruction stopped are those before it and the last one. -/
theorem run_within {j : Nat} {r : Stat} (hj : s.run m j = some (r, t)) :
    t.accepted ⊆ u.accepted ∧ (r = .OK → (t.step m).isSome) := by
  rcases Nat.lt_or_eq_of_le (run_le h hret hj) with hlt | rfl
  · obtain ⟨v, hv, hsome, hsub⟩ := run_before h hlt
    cases hj.symm.trans hv
    exact ⟨hsub, fun _ => hsome⟩
  · cases hj.symm.trans h
    exact ⟨List.Subset.refl _, fun hok => absurd hok hret⟩

/-- An interpreter that stops never gets stuck. -/
theorem neverCrosses_of_run : Timing.NeverCrosses m s :=
  fun _ _ ht => (run_within h hret ht).2 rfl

end

end Seq

namespace Attached

variable {C W M : Type} {m : Memories M} {rcv : Word} (a : Attached C W m rcv)

/-- Where the data request of the last instruction is: there is none, the world owes its answer, or
the answer waits to be written back. -/
inductive DataAt (c : Cpu C) (w : W) (t : Seq M) : Prop where
  | idle (hstate : c.dls.state = .IDLE) (hcore : c.toCore = t.core) (hfree : a.data none t.mem w)
  | waiting (hstate : c.dls.state = .SENT) (hreq : Core.IsDataRequest rcv c.dls.pkt) (line : Line)
      (hcore : c.toCore.finalizeDls { c.dls with pkt := answer c.dls.pkt line } = some t.core)
      (howed : a.data (some (c.dls.pkt, line)) t.mem w)
  | done (hstate : c.dls.state = .DONE) (hcore : c.toCore.finalizeDls c.dls = some t.core)
      (hfree : a.data none t.mem w)

/-- Where the fetch of the next instruction is: it is the first one and was not sent, the world owes
its answer, or the instruction word is there. -/
inductive FetchAt (c : Cpu C) (w : W) (t : Seq M) : Prop where
  | first (hidle : c.dls.state = .IDLE) (hstate : c.ils.state = .BLOCKED)
      (hfetch : t.core.fetch = some c.ils.pkt) (hfree : a.fetch none w)
  | waiting (hstate : c.ils.state = .SENT) (hfetch : t.core.fetch = some c.ils.pkt)
      (howed : a.fetch (some c.ils.pkt) w)
  | done (hstate : c.ils.state = .DONE) (hinsn : packetConvu32 c.ils.pkt = t.insn m)
      (hfree : a.fetch none w)

/-- The core and the interpreter fit together. Nothing writes to the control address of the core. -/
structure Inv (c : Cpu C) (w : W) (t : Seq M) : Prop where
  base : t.core.rcv = rcv
  trace : c.trace = t.trace
  error : isSet c.dls.pkt PACKET_ERROR = false
  ctrl : c.cls.state = .IDLE
  awake : c.sleep = false
  data : a.DataAt c w t
  fetch : a.FetchAt c w t

/-- The core after the instruction that stopped it. -/
structure Halted (c : Cpu C) (w : W) (t : Seq M) : Prop where
  trace : c.trace = t.trace
  core : c.toCore = t.core
  data : a.data none t.mem w
  fetch : a.fetch none w

variable {a} {c c' : Cpu C} {w w' : W} {t t' : Seq M} {ret : Stat}

theorem DataAt.kept (h : a.DataAt c w t) (hdata : ∀ o mem, a.data o mem w → a.data o mem w')
    (hcore : c'.toCore = c.toCore) (hdls : c'.dls = c.dls) : a.DataAt c' w' t := by
  cases h with
  | idle hstate hs hfree => exact .idle (hdls ▸ hstate) (hcore.trans hs) (hdata _ _ hfree)
  | waiting hstate hreq line hs howed =>
      exact .waiting (hdls ▸ hstate) (hdls ▸ hreq) line (by rw [hcore, hdls]; exact hs)
        (by rw [hdls]; exact hdata _ _ howed)
  | done hstate hs hfree =>
      exact .done (hdls ▸ hstate) (by rw [hcore, hdls]; exact hs) (hdata _ _ hfree)

theorem FetchAt.kept (h : a.FetchAt c w t) (hfetch : ∀ o, a.fetch o w → a.fetch o w')
    (hils : c'.ils = c.ils) (hidle : c.dls.state = .IDLE → c'.dls.state = .IDLE) :
    a.FetchAt c' w' t := by
  cases h with
  | first h hstate hpkt hfree =>
      exact .first (hidle h) (hils ▸ hstate) (hils ▸ hpkt) (hfetch _ hfree)
  | waiting hstate hpkt howed =>
      exact .waiting (hils ▸ hstate) (hils ▸ hpkt) (by rw [hils]; exact hfetch _ howed)
  | done hstate hinsn hfree => exact .done (hils ▸ hstate) (hils ▸ hinsn) (hfetch _ hfree)

/-- A change of the world that does not touch what it owes the core. -/
theorem Inv.kept (h : a.Inv c w t) (hdata : ∀ o mem, a.data o mem w → a.data o mem w')
    (hfetch : ∀ o, a.fetch o w → a.fetch o w') : a.Inv c w' t :=
  { h with data := h.data.kept hdata rfl rfl, fetch := h.fetch.kept hfetch rfl id }

theorem Inv.rcv_eq (h : a.Inv c w t) : c.rcv = rcv := by
  cases h.data with
  | idle _ hcore => rw [hcore, h.base]
  | waiting _ _ _ hcore => rw [← (Core.finalizeDls_pc hcore).1, h.base]
  | done _ hcore => rw [← (Core.finalizeDls_pc hcore).1, h.base]

/-- A core that was just created has fetched nothing. -/
theorem Inv.create {regs : BitVec 5 → Word} {pc : Word} {mem : M}
    (hcreate : Cpu.create rcv pc regs = some c) (hdata : a.data none mem w)
    (hfetch : a.fetch none w) : a.Inv c w (.init ⟨rcv, regs, pc⟩ mem) := by
  obtain ⟨pkt, hpkt, hcreate⟩ := Option.bind_eq_some_iff.1 hcreate
  cases hcreate
  exact ⟨rfl, rfl, Timing.idle_error, rfl, rfl, .idle rfl rfl hdata, .first rfl rfl hpkt hfetch⟩

/-! ## Answers -/

/-- The answer to the data request that is owed reaches the core. -/
theorem Inv.receive_data (h : a.Inv c w t) (w' : W) (hbusy : ∀ mem, ¬ a.data none mem w)
    {pkt : Packet}
    (hanswer : ∀ {p line mem}, a.data (some (p, line)) mem w →
      IsAnswer p line pkt ∧ a.data none mem w')
    (hfetch : ∀ o, a.fetch o w → a.fetch o w') :
    ∃ c', (∀ ports k (v : W), Cpu.simpleRiscv64Receive ports k pkt c v = some (.OK, c', v)) ∧
      a.Inv c' w' t ∧ c'.dls.state = .DONE ∧ c'.ils = c.ils ∧ c.dls.state = .SENT := by
  cases h.data with
  | idle _ _ hfree => exact absurd hfree (hbusy _)
  | done _ _ hfree => exact absurd hfree (hbusy _)
  | waiting hstate hreq line hcore howed =>
      obtain ⟨hans, hfree⟩ := hanswer howed
      obtain ⟨size, haccess⟩ := hreq.access
      have hdst : pkt.dst = c.rcv := by rw [hans.dst, hreq.src, h.rcv_eq]
      refine ⟨{ c with dls := { c.dls with pkt, state := .DONE } }, fun ports k v => ?_,
        { h with
          error := hans.error
          data := .done rfl ?_ hfree
          fetch := h.fetch.kept hfetch rfl fun hidle => ?_ }, rfl, rfl, hstate⟩
      · rw [Cpu.simpleRiscv64Receive, if_pos hdst]
      · rw [← hcore]
        exact Core.finalizeDls_answer hreq.flags haccess hans
      · rw [hstate] at hidle
        cases hidle

/-- The answer to the fetch that is owed reaches the core. -/
theorem Inv.receive_fetch (h : a.Inv c w t) (w' : W) (hbusy : ¬ a.fetch none w) {pkt : Packet}
    (hanswer : ∀ {p}, a.fetch (some p) w → IsAnswer p (m.imem p) pkt ∧ a.fetch none w')
    (hdata : ∀ o mem, a.data o mem w → a.data o mem w') :
    ∃ c', (∀ ports k (v : W), Cpu.simpleRiscv64Receive ports k pkt c v = some (.OK, c', v)) ∧
      a.Inv c' w' t ∧ c'.ils.state = .DONE ∧ c'.dls = c.dls ∧ c.ils.state = .SENT := by
  cases h.fetch with
  | first _ _ _ hfree => exact absurd hfree hbusy
  | done _ _ hfree => exact absurd hfree hbusy
  | waiting hstate hfetch howed =>
      obtain ⟨hans, hfree⟩ := hanswer howed
      have hreq := Core.fetch_spec hfetch
      have hdst : pkt.dst = c.rcv + 64 := by rw [hans.dst, hreq.src, h.base, h.rcv_eq]
      have hne : pkt.dst ≠ c.rcv := by rw [hdst]; simp
      refine ⟨{ c with ils := { c.ils with pkt, state := .DONE } }, fun ports k v => ?_,
        { h with
          data := h.data.kept hdata rfl rfl
          fetch := .done rfl ?_ hfree }, rfl, rfl, hstate⟩
      · rw [Cpu.simpleRiscv64Receive, if_neg hne, if_pos hdst]
      · rw [Seq.insn, hfetch]
        exact Core.convu32_answer hreq.flags hreq.access hans

/-! ## The core is clocked -/

/-- The data part of a clock waits for an answer, or leaves the core as the interpreter has it. -/
theorem Inv.settle (h : a.Inv c w t) :
    c.dls.state = .SENT ∧ Cpu.clockData a.ports c w = some (false, c, w) ∨
      ∃ c', Cpu.clockData a.ports c w = some (true, c', w) ∧ c'.dls.state = .IDLE ∧
        c'.ils = c.ils ∧ a.Inv c' w t := by
  cases h.data with
  | idle hstate =>
      refine .inr ⟨c, ?_, hstate, rfl, h⟩
      simp [Cpu.clockData, hstate]
  | waiting hstate =>
      refine .inl ⟨hstate, ?_⟩
      simp [Cpu.clockData, hstate, h.error, guard]
  | done hstate hcore hfree =>
      refine .inr ⟨{ c with toCore := t.core, dls := { c.dls with state := .IDLE } }, ?_, rfl, rfl,
        { h with
          data := .idle rfl rfl hfree
          fetch := h.fetch.kept (fun _ => id) rfl fun _ => rfl }⟩
      simp [Cpu.clockData, hstate, h.error, hcore, guard]

/-- A core that nothing puts to sleep goes on after its data request. -/
theorem Inv.clock_eq (h : a.Inv c w t) {go : Bool}
    (hdata : Cpu.clockData a.ports c w = some (go, c', w)) :
    Cpu.simpleRiscv64Clock a.ports c w = (if go then
        match c'.ils.state with
        | .BLOCKED => Cpu.clockSend a.ports c' w
        | .SENT => some (.OK, c', w)
        | _ => Cpu.clockRun a.ports c' w
      else some (.OK, c', w)) := by
  simp only [Cpu.simpleRiscv64Clock, Cpu.clockCtrl, h.ctrl, h.awake, hdata, ne_eq,
    not_true_eq_false, if_false, Bool.not_true, Bool.false_eq_true, Option.bind_eq_bind,
    Option.bind_some, Option.pure_def]
  cases go <;> rfl

/-- A fetch is sent. -/
theorem clockSend_taken (hreq : IsRequest (rcv + 64) 4 PACKET_READ c.ils.pkt)
    (hfree : a.fetch none w) (hstate : c.ils.state = .BLOCKED) :
    ∃ w', Cpu.clockSend a.ports c w =
        some (.OK, { c with ils := { c.ils with state := .SENT } }, w') ∧
      a.fetch (some c.ils.pkt) w' ∧ ∀ o mem, a.data o mem w → a.data o mem w' := by
  obtain ⟨w', hsend, howed, hdata⟩ := a.takes_fetch hreq hfree
  exact ⟨w', by simp [Cpu.clockSend, hstate, hsend], howed, hdata⟩

/-- A core that waits for an answer, or has yet to fetch its first instruction, changes nothing but
that it writes back an answer and sends the first fetch. -/
theorem Inv.waits (h : a.Inv c w t) (hwait : c.dls.state = .SENT ∨ c.ils.state ≠ .DONE) :
    ∃ c' w', Cpu.simpleRiscv64Clock a.ports c w = some (.OK, c', w') ∧ a.Inv c' w' t ∧
      (c.dls.state = .SENT ∧ c' = c ∧ w' = w ∨
        c.dls.state ≠ .SENT ∧ c'.dls.state = .IDLE ∧ c'.ils.state = .SENT) := by
  obtain ⟨hsent, hdata⟩ | ⟨c₁, hdata, hidle, hils, h₁⟩ := h.settle
  · exact ⟨c, w, by rw [h.clock_eq hdata]; rfl, h, .inl ⟨hsent, rfl, rfl⟩⟩
  have hsent : c.dls.state ≠ .SENT := by
    intro hsent
    simp [Cpu.clockData, hsent, h.error, guard] at hdata
  have hclock := h.clock_eq hdata
  cases h₁.fetch with
  | first _ hstate hfetch hfree =>
      have hreq : IsRequest (rcv + 64) 4 PACKET_READ c₁.ils.pkt := by
        rw [← h₁.base]
        exact Core.fetch_spec hfetch
      obtain ⟨w', hsend, howed, hkept⟩ := clockSend_taken hreq hfree hstate
      simp only [hstate, hsend, if_true] at hclock
      exact ⟨_, w', hclock, { h₁ with
        data := h₁.data.kept hkept rfl rfl
        fetch := .waiting rfl hfetch howed }, .inr ⟨hsent, hidle, rfl⟩⟩
  | waiting hstate hfetch howed =>
      simp only [hstate, if_true] at hclock
      exact ⟨c₁, w, hclock, h₁, .inr ⟨hsent, hidle, hstate⟩⟩
  | done hstate =>
      rw [hils] at hstate
      obtain hsent' | hne := hwait
      · exact absurd hsent' hsent
      · exact absurd hstate hne

/-- What running an instruction leaves: the interpreter made the same step, and nothing was fetched
yet. -/
structure Ran (a : Attached C W m rcv) (ret : Stat) (c c' : Cpu C) (w' : W) (t' : Seq M) :
    Prop where
  base : t'.core.rcv = rcv
  trace : c'.trace = t'.trace
  error : isSet c'.dls.pkt PACKET_ERROR = false
  cls : c'.cls = c.cls
  sleep : c'.sleep = c.sleep
  data : a.DataAt c' w' t'
  fetch : c'.toCore.fetch = t'.core.fetch
  stopped : ret ≠ .OK → c'.toCore = t'.core ∧ a.data none t'.mem w'

/-- An instruction that the interpreter runs is run. -/
theorem Inv.run_insn (h : a.Inv c w t) (hidle : c.dls.state = .IDLE) {insn : BitVec 32}
    (hinsn : t.insn m = some insn) (hstep : t.step m = some (ret, t'))
    (hserved : ∀ p ∈ t'.accepted, a.served p) :
    ∃ c' w', Cpu.run a.ports insn { c with ils := { c.ils with state := .IDLE } } w =
      some (ret, c', w') ∧ a.Ran ret c c' w' t' ∧ ∀ o, a.fetch o w → a.fetch o w' := by
  obtain ⟨hcore, hfree⟩ : c.toCore = t.core ∧ a.data none t.mem w := by
    cases h.data with
    | idle _ hcore hfree => exact ⟨hcore, hfree⟩
    | waiting hstate => simp [hidle] at hstate
    | done hstate => simp [hidle] at hstate
  simp only [Seq.step, hinsn, Option.bind_eq_bind, Option.bind_some, ← hcore] at hstep
  obtain ⟨o, ho, hstep⟩ := Option.bind_eq_some_iff.1 hstep
  have hsound := Core.execute_sound ho
  have hrcv := h.rcv_eq
  cases o with
  | ret r core =>
      cases hstep
      refine ⟨{ c with
        toCore := core
        ils := { c.ils with state := .IDLE }
        trace := ⟨insn, c.regs, c.pc⟩ :: c.trace }, w, ?_,
        ⟨Eq.trans hsound hrcv, congrArg _ h.trace, h.error, rfl, rfl, .idle hidle rfl hfree, rfl,
          fun _ => ⟨rfl, hfree⟩⟩, fun _ => id⟩
      simp [Cpu.run, ho]
  | request ld =>
      obtain ⟨hreq, hstate⟩ := hsound
      rw [hrcv] at hreq
      obtain ⟨core, hfinal, hstep⟩ := Option.bind_eq_some_iff.1 hstep
      obtain ⟨hrcv', hpc⟩ := Core.finalizeDls_pc hfinal
      cases hstep
      obtain ⟨w', hsend, howed, hfetch⟩ :=
        a.takes_data hreq (hserved _ List.mem_cons_self) hfree
      refine ⟨{ c with
        pc := c.pc + 4
        dls := ld
        ils := { c.ils with state := .IDLE }
        trace := ⟨insn, c.regs, c.pc⟩ :: c.trace }, w', ?_,
        ⟨hrcv'.trans hrcv, congrArg _ h.trace, hreq.flags.error, rfl, rfl,
          .waiting hstate hreq _ hfinal howed, ?_, fun hne => absurd rfl hne⟩, hfetch⟩
      · simp [Cpu.run, ho, Cpu.issue, hsend]
      · simp only [Core.fetch, hrcv', hpc]

/-- A core that has its instruction word and the answer to its last data request makes the step of
the interpreter. -/
theorem Inv.runs (h : a.Inv c w t) (hsent : c.dls.state ≠ .SENT) (hdone : c.ils.state = .DONE)
    (hstep : t.step m = some (ret, t')) (hserved : ∀ p ∈ t'.accepted, a.served p)
    (hnext : ret = .OK → t'.core.fetch.isSome) :
    ∃ c' w', Cpu.simpleRiscv64Clock a.ports c w = some (ret, c', w') ∧
      (ret = .OK → a.Inv c' w' t' ∧ c'.ils.state = .SENT) ∧ (ret ≠ .OK → a.Halted c' w' t') := by
  obtain ⟨hsent', -⟩ | ⟨c₁, hdata, hidle, hils, h₁⟩ := h.settle
  · exact absurd hsent' hsent
  have hclock := h.clock_eq hdata
  obtain ⟨insn, hinsn, -⟩ := Option.bind_eq_some_iff.1 hstep
  have hstate : c₁.ils.state = .DONE := by rw [hils, hdone]
  obtain ⟨hword, hfree⟩ : packetConvu32 c₁.ils.pkt = some insn ∧ a.fetch none w := by
    cases h₁.fetch with
    | first _ hblocked => exact absurd (hstate.symm.trans hblocked) (by simp)
    | waiting hsent => exact absurd (hstate.symm.trans hsent) (by simp)
    | done _ hword hfree => exact ⟨hword.trans hinsn, hfree⟩
  obtain ⟨c₂, w₂, hrun, hran, hkept⟩ := h₁.run_insn hidle hinsn hstep hserved
  simp only [hstate, if_true, Cpu.clockRun, h₁.error, Bool.not_false, guard_true, hword, hrun,
    Option.bind_eq_bind, Option.bind_some, Option.pure_def] at hclock
  by_cases hret : ret = .OK
  · subst hret
    obtain ⟨pkt, hpkt⟩ := Option.isSome_iff_exists.1 (hnext rfl)
    have hreq : IsRequest (rcv + 64) 4 PACKET_READ pkt := by
      rw [← hran.base]
      exact Core.fetch_spec hpkt
    obtain ⟨w₃, hsend, howed, hdata₃⟩ := clockSend_taken (a := a)
      (c := { c₂ with ils := { c₂.ils with pkt, state := .BLOCKED } }) hreq (hkept _ hfree) rfl
    simp only [ne_eq, not_true_eq_false, if_false, hran.fetch, hpkt, Option.bind_some, hsend]
      at hclock
    refine ⟨_, w₃, hclock, fun _ => ⟨⟨hran.base, hran.trace, hran.error, ?_, ?_,
      hran.data.kept hdata₃ rfl rfl, .waiting rfl hpkt howed⟩, rfl⟩, fun hne => absurd rfl hne⟩
    · exact (congrArg Ldst.state hran.cls).trans h₁.ctrl
    · exact hran.sleep.trans h₁.awake
  · simp only [ne_eq, hret, not_false_eq_true, if_true] at hclock
    exact ⟨c₂, w₂, hclock, fun hok => absurd hok hret,
      fun _ => ⟨hran.trace, (hran.stopped hret).1, (hran.stopped hret).2, hkept _ hfree⟩⟩

/-! ## Systems -/

/-- A step of the interpreter that a system can follow. -/
structure GoesOn (m : Memories M) (served : Packet → Prop) (t : Seq M) (ret : Stat) (t' : Seq M) :
    Prop where
  step : t.step m = some (ret, t')
  served : ∀ p ∈ t'.accepted, served p
  fetch : ret = .OK → t'.core.fetch.isSome

/-- The steps of a run that an instruction stopped. -/
theorem GoesOn.of_run {served : Packet → Prop} {start u : Seq M} {j k : Nat}
    (hseq : start.run m k = some (ret, u)) (hret : ret ≠ .OK) (hserved : ∀ p ∈ u.accepted, served p)
    (ht : start.run m j = some (.OK, t)) (hj : j < k) :
    ∃ r t', GoesOn m served t r t' ∧ (r = .OK ∧ j + 1 < k ∧ start.run m (j + 1) = some (.OK, t') ∨
      r = ret ∧ j + 1 = k ∧ t' = u) := by
  obtain ⟨v, hv, hsome, -⟩ := Seq.run_before hseq hj
  cases ht.symm.trans hv
  obtain ⟨⟨r, t'⟩, hstep⟩ := Option.isSome_iff_exists.1 hsome
  have hnext := (Seq.run_succ ht).trans hstep
  rcases Nat.lt_or_eq_of_le (Nat.succ_le_of_lt hj) with hlt | rfl
  · obtain ⟨v, hv, hsome', hsub⟩ := Seq.run_before hseq hlt
    cases hnext.symm.trans hv
    exact ⟨.OK, t', ⟨hstep, fun p hp => hserved p (hsub hp), fun _ => Seq.fetch_isSome hsome'⟩,
      .inl ⟨rfl, hlt, hnext⟩⟩
  · cases hnext.symm.trans hseq
    exact ⟨ret, u, ⟨hstep, hserved, fun hok => absurd hok hret⟩, .inr ⟨rfl, rfl, rfl⟩⟩

section

variable {S P : Type}

/-- A system of components follows the interpreter: a clock of the core leaves the interpreter where
it is or makes its next step, and the other clocks leave it where it is. -/
structure Follows (clock : P → S → Option (Stat × S)) (core : P) (m : Memories M)
    (served : Packet → Prop) (Rel Stop : S → Seq M → Prop) : Prop where
  other : ∀ {p s t}, p ≠ core → Rel s t → ∃ s', clock p s = some (.OK, s') ∧ Rel s' t
  runs : ∀ {s t}, Rel s t → (∃ s', clock core s = some (.OK, s') ∧ Rel s' t) ∨
    ∀ {ret t'}, GoesOn m served t ret t' → ∃ s', clock core s = some (ret, s') ∧
      (ret = .OK → Rel s' t') ∧ (ret ≠ .OK → Stop s' t')

/-- Components were clocked: a rank decreased, or the one whose turn it is was not among them. -/
def Closer (rank : S → Nat) (next : S → P) (ps : List P) (s s' : S) : Prop :=
  rank s' < rank s ∨ rank s' = rank s ∧ next s' = next s ∧ next s ∉ ps

/-- A system that follows the interpreter, and where the rank decreases whenever the component is
clocked whose turn it is, unless an instruction is run. -/
structure Paced (clock : P → S → Option (Stat × S)) (core : P) (m : Memories M)
    (served : Packet → Prop) (Rel Stop : S → Seq M → Prop) where
  rank : S → Nat
  next : S → P
  top : Nat
  other : ∀ {p s t}, p ≠ core → Rel s t →
    ∃ s', clock p s = some (.OK, s') ∧ Rel s' t ∧ Closer rank next [p] s s'
  runs : ∀ {s t}, Rel s t →
    (∃ s', clock core s = some (.OK, s') ∧ Rel s' t ∧ Closer rank next [core] s s') ∨
      ∀ {ret t'}, GoesOn m served t ret t' → ∃ s', clock core s = some (ret, s') ∧
        (ret = .OK → Rel s' t' ∧ rank s' ≤ top) ∧ (ret ≠ .OK → Stop s' t')
  stopped : ∀ {p s t}, p ≠ core → Stop s t → clock p s = some (.OK, s)

variable {clock : P → S → Option (Stat × S)} {core : P} {served : Packet → Prop}
  {Rel Stop : S → Seq M → Prop} {s s' s'' : S} {start : Seq M} {k : Nat}

theorem Closer.append {rank : S → Nat} {next : S → P} {ps qs : List P}
    (h : Closer rank next ps s s') (h' : Closer rank next qs s' s'') :
    Closer rank next (ps ++ qs) s s'' := by
  obtain hlt | ⟨heq, hnext, hps⟩ := h
  · obtain hlt' | ⟨heq', -⟩ := h'
    · exact .inl (hlt'.trans hlt)
    · exact .inl (heq'.trans_lt hlt)
  · obtain hlt' | ⟨heq', hnext', hqs⟩ := h'
    · exact .inl (hlt'.trans_eq heq)
    · rw [hnext] at hqs
      exact .inr ⟨heq'.trans heq, hnext'.trans hnext, by simp [hps, hqs]⟩

/-- Components that are clocked in any order. -/
theorem Follows.clockUntil [DecidableEq P] (h : Follows clock core m served Rel Stop)
    (hcross : Timing.NeverCrosses m start)
    (hserved : ∀ k ret t, start.run m k = some (ret, t) → ∀ p ∈ t.accepted, served p)
    (hrel : Rel s t) (ht : start.run m k = some (.OK, t)) (schedule : List P) :
    ∃ ret s' k' t', Gran.clockUntil clock schedule s = some (ret, s') ∧
      start.run m k' = some (ret, t') ∧ k' ≤ k + schedule.count core ∧
      (ret = .OK ∧ Rel s' t' ∨ ret ≠ .OK ∧ Stop s' t') := by
  induction schedule generalizing s t k with
  | nil => exact ⟨.OK, s, k, t, rfl, ht, by simp, .inl ⟨rfl, hrel⟩⟩
  | cons p schedule ih =>
      have hcount := List.count_le_count_cons (a := core) (b := p) (l := schedule)
      -- a clock that leaves the interpreter where it is
      have hsame {s₁ : S} (hclock : clock p s = some (.OK, s₁)) (h₁ : Rel s₁ t) :
          ∃ ret s' k' t', Gran.clockUntil clock (p :: schedule) s = some (ret, s') ∧
            start.run m k' = some (ret, t') ∧ k' ≤ k + (p :: schedule).count core ∧
            (ret = .OK ∧ Rel s' t' ∨ ret ≠ .OK ∧ Stop s' t') := by
        obtain ⟨ret, s', k', t', hrun, hseq, hle, hend⟩ := ih h₁ ht
        exact ⟨ret, s', k', t', by simp [Gran.clockUntil, hclock, hrun], hseq, by omega, hend⟩
      by_cases hp : p = core
      · subst hp
        obtain ⟨s₁, hclock, h₁⟩ | hstep := h.runs hrel
        · exact hsame hclock h₁
        · rw [List.count_cons_self]
          obtain ⟨⟨ret, t'⟩, hnext⟩ := Option.isSome_iff_exists.1 (hcross k t ht)
          have hseq := (Seq.run_succ ht).trans hnext
          obtain ⟨s₁, hclock, hok, hstop⟩ := hstep ⟨hnext, hserved _ _ _ hseq,
            fun hret => Seq.fetch_isSome (hcross (k + 1) t' (hret ▸ hseq))⟩
          by_cases hret : ret = .OK
          · subst hret
            obtain ⟨ret, s', k', t'', hrun, hseq', hle, hend⟩ := ih (hok rfl) hseq
            exact ⟨ret, s', k', t'', by simp [Gran.clockUntil, hclock, hrun], hseq', by omega, hend⟩
          · exact ⟨ret, s₁, k + 1, t', by simp [Gran.clockUntil, hclock, hret], hseq, by omega,
              .inr ⟨hret, hstop hret⟩⟩
      · obtain ⟨s₁, hclock, h₁⟩ := h.other hp hrel
        exact hsame hclock h₁

namespace Paced

variable (h : Paced clock core m served Rel Stop)
include h

theorem follows : Follows clock core m served Rel Stop where
  other hne hrel := by
    obtain ⟨s', hclock, hrel', -⟩ := h.other hne hrel
    exact ⟨s', hclock, hrel'⟩
  runs hrel := by
    obtain ⟨s', hclock, hrel', -⟩ | hstep := h.runs hrel
    · exact .inl ⟨s', hclock, hrel'⟩
    · refine .inr fun hgo => ?_
      obtain ⟨s', hclock, hok, hstop⟩ := hstep hgo
      exact ⟨s', hclock, fun hret => (hok hret).1, hstop⟩

/-- Components other than the core. -/
theorem clockAll_other (hrel : Rel s t) {ps : List P} (hps : core ∉ ps) :
    ∃ s', clockAll clock ps s = some (List.replicate ps.length .OK, s') ∧ Rel s' t ∧
      Closer h.rank h.next ps s s' := by
  induction ps generalizing s with
  | nil => exact ⟨s, rfl, hrel, .inr ⟨rfl, rfl, List.not_mem_nil⟩⟩
  | cons p ps ih =>
      have hne : p ≠ core := fun heq => hps (heq ▸ List.mem_cons_self)
      obtain ⟨s₁, hclock, h₁, hcloser⟩ := h.other hne hrel
      obtain ⟨s₂, hall, h₂, hcloser'⟩ := ih h₁ fun hin => hps (List.mem_cons_of_mem _ hin)
      exact ⟨s₂, clockAll_cons hclock hall, h₂, hcloser.append hcloser'⟩

/-- Nothing happens in the rest of the tick in which the core stopped. -/
theorem clockAll_stopped (hstop : Stop s t) {ps : List P} (hps : core ∉ ps) :
    clockAll clock ps s = some (List.replicate ps.length .OK, s) := by
  induction ps with
  | nil => rfl
  | cons p ps ih =>
      have hne : p ≠ core := fun heq => hps (heq ▸ List.mem_cons_self)
      exact clockAll_cons (h.stopped hne hstop) (ih fun hin => hps (List.mem_cons_of_mem _ hin))

/-- A tick of all components leaves the interpreter where it is and decreases the rank, or makes its
next step. -/
theorem tick {before after : List P} (hbefore : core ∉ before) (hafter : core ∉ after)
    (hall : ∀ p, p ∈ before ++ core :: after) (hrel : Rel s t) {ret : Stat} {t' : Seq M}
    (hgo : GoesOn m served t ret t') : ∃ rs s', clockAll clock (before ++ core :: after) s =
      some (rs, s') ∧ (sticky .OK rs = .OK ∧ Rel s' t ∧ h.rank s' < h.rank s ∨
        sticky .OK rs = ret ∧ (ret = .OK → Rel s' t' ∧ h.rank s' ≤ h.top) ∧
          (ret ≠ .OK → Stop s' t')) := by
  obtain ⟨s₁, hall₁, h₁, hcloser₁⟩ := h.clockAll_other hrel hbefore
  obtain ⟨s₂, hclock, h₂, hcloser₂⟩ | hstep := h.runs h₁
  · obtain ⟨s₃, hall₃, h₃, hcloser₃⟩ := h.clockAll_other h₂ hafter
    refine ⟨_, s₃, clockAll_append hall₁ (clockAll_cons hclock hall₃), .inl
      ⟨sticky_one _ _ _, h₃, ?_⟩⟩
    obtain hlt | ⟨-, -, hnot⟩ := hcloser₁.append (hcloser₂.append hcloser₃)
    · exact hlt
    · exact absurd (hall _) hnot
  · obtain ⟨s₂, hclock, hok, hstop⟩ := hstep hgo
    by_cases hret : ret = .OK
    · obtain ⟨s₃, hall₃, h₃, hcloser₃⟩ := h.clockAll_other (hok hret).1 hafter
      refine ⟨_, s₃, clockAll_append hall₁ (clockAll_cons hclock hall₃), .inr
        ⟨sticky_one _ _ _, fun _ => ⟨h₃, ?_⟩, fun hne => absurd hret hne⟩⟩
      obtain hlt | ⟨heq, -⟩ := hcloser₃
      · exact hlt.le.trans (hok hret).2
      · exact heq.le.trans (hok hret).2
    · exact ⟨_, s₂, clockAll_append hall₁ (clockAll_cons hclock
        (h.clockAll_stopped (hstop hret) hafter)), .inr
        ⟨sticky_one _ _ _, fun hok => absurd hok hret, hstop⟩⟩

/-- The ticks of all components until the core stops, as often as the rank allows for each
instruction. -/
theorem ticks {before after : List P} (hbefore : core ∉ before) (hafter : core ∉ after)
    (hall : ∀ p, p ∈ before ++ core :: after) {ret : Stat} {u : Seq M}
    (hseq : start.run m k = some (ret, u)) (hret : ret ≠ .OK) (hserved : ∀ p ∈ u.accepted, served p)
    {j : Nat} (ht : start.run m j = some (.OK, t)) (hrel : Rel s t) (hj : j < k) :
    ∃ n s', Gran.ticks clock (before ++ core :: after) s n = some (ret, s') ∧ Stop s' u ∧
      n ≤ h.rank s + (h.top + 1) * (k - j) := by
  -- by the instructions that are left, and the rank
  obtain ⟨i, hi⟩ : ∃ i, j + i = k := ⟨k - j, by omega⟩
  induction i generalizing j s t with
  | zero => omega
  | succ i ih =>
      induction hrank : h.rank s using Nat.strong_induction_on generalizing s with
      | _ r ihrank =>
          obtain ⟨ret', t', hgo, hcase⟩ := GoesOn.of_run hseq hret hserved ht hj
          have hpos : (h.top + 1) * (k - j) = (h.top + 1) * (k - (j + 1)) + (h.top + 1) := by
            rw [← Nat.mul_succ]
            congr 1
            omega
          obtain ⟨rs, s₁, hclock, ⟨hok, h₁, hlt⟩ | ⟨hsticky, hok, hstop⟩⟩ :=
            h.tick hbefore hafter hall hrel hgo
          · obtain ⟨n, s', hticks, hend, hle⟩ := ihrank _ (hrank ▸ hlt) h₁ rfl
            exact ⟨n + 1, s', ticks_succ hclock hok hticks, hend, by omega⟩
          · obtain ⟨rfl, hlt, hnext⟩ | ⟨rfl, hlast, rfl⟩ := hcase
            · obtain ⟨h₁, hle₁⟩ := hok rfl
              obtain ⟨n, s', hticks, hend, hle⟩ := ih hnext h₁ hlt (by omega)
              exact ⟨n + 1, s', ticks_succ hclock hsticky hticks, hend, by omega⟩
            · exact ⟨1, s₁, by simp [Gran.ticks, hclock, hsticky], hstop hret, by omega⟩

end Paced

end

end Attached

end Gran
