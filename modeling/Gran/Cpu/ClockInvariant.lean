import Gran.Cpu.Interpreter

/-!
# One clock against the interpreter

The core is related to an interpreter that is ahead of it by what is still to come of the data
request of the last instruction (`DataPhase`), and whose next instruction is the one being fetched
(`FetchPhase`). What the memories know of the core's requests is a parameter, `Sides`: no request of
the core, or one, with the line it will be answered with. `PortsOk` says what `SEND` does to the
sides. A clock then keeps the relation, or makes one step of the interpreter.
-/

namespace Gran

/-- What the world knows of a core: the data request it owes an answer to, with the line of the
answer, what the data memory is and what it accepted once that request is applied, and the fetch it
owes an answer to. The flag says whether the core was told that its request was taken. -/
structure Sides (M W : Type) where
  data : Option (Packet × Line × Bool) → M → List Packet → W → Prop
  fetch : Option (Packet × Bool) → W → Prop

/-- The state of a transfer whose request was taken. -/
def takenState (told : Bool) : LdstState := if told then .SENT else .BLOCKED

/-- The request of a transfer is waiting for its answer, or to be sent. -/
def Ldst.Asks (ld : Ldst) : Prop := ld.state = .BLOCKED ∨ ld.state = .SENT

/-- The answer of `SEND` that tells the sender that its request was taken, or hides it. -/
def takenStat (told : Bool) : Stat := if told then .OK else .EBUSY

variable {M W C : Type} (m : Memories M) (σ : Sides M W) (frame : W → W → Prop) (rcv : Word)
  (touches : Packet → Prop)

/-- A change of the world that the core does not see. -/
structure Kept (w w' : W) : Prop where
  frame : frame w w'
  data : ∀ owed mem acc, σ.data owed mem acc w → σ.data owed mem acc w'
  fetch : ∀ owed, σ.fetch owed w → σ.fetch owed w'

/-- What `SEND` may do with the requests of a core. A request is refused or taken, and a taken one
may still be answered with `EBUSY`. The core sends a request that was taken again when it was
answered so. -/
structure PortsOk (ports : CpuPorts C W) : Prop where
  refl : ∀ w, frame w w
  trans : ∀ {w w' w''}, frame w w' → frame w' w'' → frame w w''
  dmem : ∀ {p w r w'}, ports.dmem p w = some (r, w') → Core.IsDataRequest rcv p → touches p →
    frame w w' ∧ ∀ owed, σ.fetch owed w → σ.fetch owed w'
  dmem_new : ∀ {p w r w' mem acc}, ports.dmem p w = some (r, w') → Core.IsDataRequest rcv p →
    touches p → σ.data none mem acc w →
    r = .EBUSY ∧ σ.data none mem acc w' ∨
      ∃ told, r = takenStat told ∧
        σ.data (some (p, (m.apply mem p).2, told)) (m.apply mem p).1 (p :: acc) w'
  dmem_owed : ∀ {p line w r w' mem acc}, ports.dmem p w = some (r, w') →
    Core.IsDataRequest rcv p → touches p → σ.data (some (p, line, false)) mem acc w →
    ∃ told, r = takenStat told ∧ σ.data (some (p, line, told)) mem acc w'
  imem : ∀ {p w r w'}, ports.imem p w = some (r, w') → IsRequest (rcv + 64) 4 PACKET_READ p →
    frame w w' ∧ ∀ owed mem acc, σ.data owed mem acc w → σ.data owed mem acc w'
  imem_new : ∀ {p w r w'}, ports.imem p w = some (r, w') → IsRequest (rcv + 64) 4 PACKET_READ p →
    σ.fetch none w →
    r = .EBUSY ∧ σ.fetch none w' ∨ ∃ told, r = takenStat told ∧ σ.fetch (some (p, told)) w'
  imem_owed : ∀ {p w r w'}, ports.imem p w = some (r, w') → IsRequest (rcv + 64) 4 PACKET_READ p →
    σ.fetch (some (p, false)) w → ∃ told, r = takenStat told ∧ σ.fetch (some (p, told)) w'
  ctrl : ∀ {k p w r w'}, ports.ctrl k p w = some (r, w') → Kept σ frame w w'

/-- Where the data request of the last instruction is: there is none, it was refused, the world owes
its answer, or the answer waits to be written back. -/
inductive DataPhase (c : Cpu C) (s : Seq M) (w : W) : Prop where
  | idle (hstate : c.dls.state = .IDLE) (hcore : c.toCore = s.core)
      (hside : σ.data none s.mem s.accepted w)
  | refused (hstate : c.dls.state = .BLOCKED) (hreq : Core.IsDataRequest rcv c.dls.pkt)
      (htouches : touches c.dls.pkt) (mem : M) (acc : List Packet)
      (hmem : s.mem = (m.apply mem c.dls.pkt).1) (hacc : s.accepted = c.dls.pkt :: acc)
      (hcore : c.toCore.finalizeDls
        { c.dls with pkt := answer c.dls.pkt (m.apply mem c.dls.pkt).2 } = some s.core)
      (hside : σ.data none mem acc w)
  | owed (told : Bool) (hstate : c.dls.state = takenState told)
      (hreq : Core.IsDataRequest rcv c.dls.pkt) (htouches : touches c.dls.pkt) (line : Line)
      (hcore : c.toCore.finalizeDls { c.dls with pkt := answer c.dls.pkt line } = some s.core)
      (hside : σ.data (some (c.dls.pkt, line, told)) s.mem s.accepted w)
  | done (hstate : c.dls.state = .DONE) (hcore : c.toCore.finalizeDls c.dls = some s.core)
      (hside : σ.data none s.mem s.accepted w)

/-- Where the fetch of the next instruction is. -/
inductive FetchPhase (c : Cpu C) (s : Seq M) (w : W) : Prop where
  | refused (hstate : c.ils.state = .BLOCKED) (hfetch : s.core.fetch = some c.ils.pkt)
      (hside : σ.fetch none w)
  | owed (told : Bool) (hstate : c.ils.state = takenState told)
      (hfetch : s.core.fetch = some c.ils.pkt) (hside : σ.fetch (some (c.ils.pkt, told)) w)
  | done (hstate : c.ils.state = .DONE) (hinsn : packetConvu32 c.ils.pkt = s.insn m)
      (hside : σ.fetch none w)

/-- A control acknowledgement is sent again only to a component that is known. -/
def AckOk (c : Cpu C) : Prop :=
  c.cls.state = .IDLE ∨ c.cls.state = .BLOCKED ∧ ∃ k, c.ctrl = some k

/-- The core, an interpreter and the world fit together. -/
structure CpuInv (c : Cpu C) (s : Seq M) (w : W) : Prop where
  base : s.core.rcv = rcv
  trace : c.trace = s.trace
  error : isSet c.dls.pkt PACKET_ERROR = false
  ctrl : AckOk c
  data : DataPhase m σ rcv touches c s w
  fetch : FetchPhase m σ c s w

variable {m σ frame rcv touches} {σ' : Sides M W} {ports : CpuPorts C W} {c c' : Cpu C} {s : Seq M}
  {w w' : W}

/-- A request is blocked if it was refused. -/
theorem takenState_eq_blocked {told : Bool} (h : LdstState.BLOCKED = takenState told) :
    told = false := by
  cases told
  · rfl
  · cases h

/-- The data phase goes on as long as the core and its side of the memory stay. -/
theorem DataPhase.kept (h : DataPhase m σ rcv touches c s w)
    (hkept : ∀ owed mem acc, σ.data owed mem acc w → σ'.data owed mem acc w')
    (hcore : c'.toCore = c.toCore) (hdls : c'.dls = c.dls) :
    DataPhase m σ' rcv touches c' s w' := by
  cases h with
  | idle hstate hs hside => exact .idle (hdls ▸ hstate) (hcore.trans hs) (hkept _ _ _ hside)
  | refused hstate hreq htouches mem acc hmem hacc hs hside =>
      exact .refused (hdls ▸ hstate) (hdls ▸ hreq) (hdls ▸ htouches) mem acc (hdls ▸ hmem)
        (hdls ▸ hacc) (by rw [hcore, hdls]; exact hs) (hkept _ _ _ hside)
  | owed told hstate hreq htouches line hs hside =>
      exact .owed told (hdls ▸ hstate) (hdls ▸ hreq) (hdls ▸ htouches) line
        (by rw [hcore, hdls]; exact hs) (by rw [hdls]; exact hkept _ _ _ hside)
  | done hstate hs hside =>
      exact .done (hdls ▸ hstate) (by rw [hcore, hdls]; exact hs) (hkept _ _ _ hside)

/-- The fetch phase goes on as long as the fetch and its side of the memory stay. -/
theorem FetchPhase.kept (h : FetchPhase m σ c s w)
    (hkept : ∀ owed, σ.fetch owed w → σ'.fetch owed w') (hils : c'.ils = c.ils) :
    FetchPhase m σ' c' s w' := by
  cases h with
  | refused hstate hfetch hside =>
      exact .refused (hils ▸ hstate) (hils ▸ hfetch) (hkept _ hside)
  | owed told hstate hfetch hside =>
      exact .owed told (hils ▸ hstate) (hils ▸ hfetch) (by rw [hils]; exact hkept _ hside)
  | done hstate hinsn hside => exact .done (hils ▸ hstate) (hils ▸ hinsn) (hkept _ hside)

/-- The relation does not depend on the control acknowledgement or on the sleep flag. -/
theorem CpuInv.kept (h : CpuInv m σ rcv touches c s w)
    (hdata : ∀ owed mem acc, σ.data owed mem acc w → σ'.data owed mem acc w')
    (hfetch : ∀ owed, σ.fetch owed w → σ'.fetch owed w') (hcore : c'.toCore = c.toCore)
    (hdls : c'.dls = c.dls) (hils : c'.ils = c.ils)
    (htrace : c'.trace = c.trace) (hctrl : AckOk c') : CpuInv m σ' rcv touches c' s w' :=
  ⟨h.base, htrace.trans h.trace, hdls ▸ h.error, hctrl, h.data.kept hdata hcore hdls,
    h.fetch.kept hfetch hils⟩

/-- The receive address of the core. -/
theorem CpuInv.rcv_eq (h : CpuInv m σ rcv touches c s w) : c.rcv = rcv := by
  cases h.data with
  | idle _ hcore => rw [hcore, h.base]
  | refused _ _ _ _ _ _ _ hcore => rw [← (Core.finalizeDls_pc hcore).1, h.base]
  | owed _ _ _ _ _ hcore => rw [← (Core.finalizeDls_pc hcore).1, h.base]
  | done _ hcore => rw [← (Core.finalizeDls_pc hcore).1, h.base]

namespace Cpu

variable (hports : PortsOk m σ frame rcv touches ports)

section
include hports

/-! ## The parts of a clock -/

/-- The control port leaves the memories and the rest of the core alone. -/
theorem clockCtrl_kept {go : Bool} (hack : AckOk c)
    (h : clockCtrl ports c w = some (go, c', w')) :
    Kept σ frame w w' ∧ ∃ cls, c' = { c with cls } ∧ AckOk { c with cls } := by
  have hrefl : Kept σ frame w w := ⟨hports.refl w, fun _ _ _ h => h, fun _ h => h⟩
  unfold clockCtrl at h
  split at h
  case isFalse =>
    cases h
    exact ⟨hrefl, c.cls, rfl, hack⟩
  case isTrue =>
    simp only [Option.bind_eq_bind, Option.bind_eq_some_iff, Option.pure_def] at h
    obtain ⟨-, -, ctrl, -, ⟨r, w₁⟩, hctrl, h⟩ := h
    have hkept := hports.ctrl hctrl
    split at h
    · cases h
      exact ⟨hkept, c.cls, rfl, hack⟩
    · cases h
      exact ⟨hkept, _, rfl, .inl rfl⟩

/-- A request of the last instruction is presented again. -/
theorem blocked_inv {r : Stat} (hinv : CpuInv m σ rcv touches c s w)
    (hstate : c.dls.state = .BLOCKED) (h : ports.dmem c.dls.pkt w = some (r, w')) :
    frame w w' ∧ CpuInv m σ rcv touches
      (if r = .EBUSY then c else { c with dls := { c.dls with state := .SENT } }) s w' := by
  have howed {line : Line} {told : Bool} (hreq : Core.IsDataRequest rcv c.dls.pkt)
      (htouches : touches c.dls.pkt) (hr : r = takenStat told)
      (hcore : c.toCore.finalizeDls { c.dls with pkt := answer c.dls.pkt line } = some s.core)
      (hside : σ.data (some (c.dls.pkt, line, told)) s.mem s.accepted w')
      (hfetch : ∀ owed, σ.fetch owed w → σ.fetch owed w') : CpuInv m σ rcv touches
      (if r = .EBUSY then c else { c with dls := { c.dls with state := .SENT } }) s w' := by
    cases told
    · rw [hr, if_pos (show takenStat false = .EBUSY from rfl)]
      exact ⟨hinv.base, hinv.trace, hinv.error, hinv.ctrl,
        .owed false hstate hreq htouches line hcore hside, hinv.fetch.kept hfetch rfl⟩
    · rw [hr, if_neg (by simp [takenStat])]
      exact ⟨hinv.base, hinv.trace, hinv.error, hinv.ctrl,
        .owed true rfl hreq htouches line hcore hside, hinv.fetch.kept hfetch rfl⟩
  cases hinv.data with
  | idle hidle => simp [hstate] at hidle
  | done hdone => simp [hstate] at hdone
  | refused _ hreq htouches mem acc hmem hacc hcore hside =>
      obtain ⟨hframe, hfetch⟩ := hports.dmem h hreq htouches
      refine ⟨hframe, ?_⟩
      obtain ⟨rfl, hnew⟩ | ⟨told, hr, hnew⟩ := hports.dmem_new h hreq htouches hside
      · rw [if_pos rfl]
        exact ⟨hinv.base, hinv.trace, hinv.error, hinv.ctrl,
          .refused hstate hreq htouches mem acc hmem hacc hcore hnew, hinv.fetch.kept hfetch rfl⟩
      · rw [← hmem, ← hacc] at hnew
        exact howed hreq htouches hr hcore hnew hfetch
  | owed told hold hreq htouches line hcore hside =>
      obtain rfl := takenState_eq_blocked (hstate ▸ hold)
      obtain ⟨hframe, hfetch⟩ := hports.dmem h hreq htouches
      obtain ⟨told, hr, hnew⟩ := hports.dmem_owed h hreq htouches hside
      exact ⟨hframe, howed hreq htouches hr hcore hnew hfetch⟩

/-- The data part keeps the relation, and only an idle core goes on. -/
theorem clockData_inv {go : Bool} (hinv : CpuInv m σ rcv touches c s w)
    (h : clockData ports c w = some (go, c', w')) :
    frame w w' ∧ CpuInv m σ rcv touches c' s w' ∧ (go = true → c'.dls.state = .IDLE) ∧
      (c'.ils = c.ils ∧ c'.sleep = c.sleep) := by
  unfold clockData at h
  split at h
  case h_1 hidle =>
    cases h
    exact ⟨hports.refl w, hinv, fun _ => hidle, rfl, rfl⟩
  case h_2 hblocked =>
    simp only [Option.bind_eq_bind, Option.bind_eq_some_iff, Option.pure_def] at h
    obtain ⟨-, -, ⟨r, w₁⟩, hsend, h⟩ := h
    obtain ⟨hframe, hnext⟩ := blocked_inv hports hinv hblocked hsend
    split at h <;> rename_i hr <;> cases h
    · rw [if_pos hr] at hnext
      exact ⟨hframe, hnext, by simp, rfl, rfl⟩
    · rw [if_neg hr] at hnext
      exact ⟨hframe, hnext, by simp, rfl, rfl⟩
  case h_3 hsent =>
    simp only [Option.bind_eq_bind, Option.bind_eq_some_iff, Option.pure_def] at h
    obtain ⟨-, -, h⟩ := h
    cases h
    exact ⟨hports.refl w, hinv, by simp, rfl, rfl⟩
  case h_4 hdone =>
    simp only [Option.bind_eq_bind, Option.bind_eq_some_iff, Option.pure_def] at h
    obtain ⟨-, -, core, hcore, h⟩ := h
    cases h
    refine ⟨hports.refl w,
      ⟨hinv.base, hinv.trace, hinv.error, hinv.ctrl, ?_, hinv.fetch.kept (fun _ h => h) rfl⟩,
      fun _ => rfl, rfl, rfl⟩
    cases hinv.data with
    | idle hidle => simp [hdone] at hidle
    | refused hblocked => simp [hdone] at hblocked
    | owed told hstate => cases told <;> simp [hdone, takenState] at hstate
    | done _ hfinal hside =>
        rw [hcore] at hfinal
        exact .idle rfl (Option.some.inj hfinal) hside

omit hports in
/-- Sending a fetch leaves the data request alone. -/
theorem clockSend_dls {ret : Stat} (h : clockSend ports c w = some (ret, c', w')) :
    c'.dls = c.dls := by
  unfold clockSend at h
  split at h
  · obtain ⟨⟨r, w₁⟩, -, h⟩ := Option.bind_eq_some_iff.1 h
    dsimp only at h
    split_ifs at h <;> cases h <;> rfl
  · cases h
    rfl

/-- The retry of a fetch. -/
theorem clockSend_inv {ret : Stat} (hbase : s.core.rcv = rcv) (hfetch : FetchPhase m σ c s w)
    (h : clockSend ports c w = some (ret, c', w')) :
    ret = .OK ∧ frame w w' ∧ (∀ owed mem acc, σ.data owed mem acc w → σ.data owed mem acc w') ∧
      FetchPhase m σ c' s w' ∧ ∃ ils, c' = { c with ils } := by
  unfold clockSend at h
  split at h
  case isFalse =>
    cases h
    exact ⟨rfl, hports.refl w, fun _ _ _ h => h, hfetch, c.ils, rfl⟩
  case isTrue hblocked =>
    simp only [Option.bind_eq_bind, Option.bind_eq_some_iff, Option.pure_def] at h
    obtain ⟨⟨r, w₁⟩, hsend, h⟩ := h
    have hreq (hfetch : s.core.fetch = some c.ils.pkt) :
        IsRequest (rcv + 64) 4 PACKET_READ c.ils.pkt := hbase ▸ Core.fetch_spec hfetch
    have howed {told : Bool} (hpkt : s.core.fetch = some c.ils.pkt) (hr : r = takenStat told)
        (hside : σ.fetch (some (c.ils.pkt, told)) w₁) :
        ret = .OK ∧ w₁ = w' ∧ FetchPhase m σ c' s w₁ ∧ ∃ ils, c' = { c with ils } := by
      subst hr
      cases told <;> cases h
      · exact ⟨rfl, rfl, .owed false hblocked hpkt hside, c.ils, rfl⟩
      · exact ⟨rfl, rfl, .owed true rfl hpkt hside, _, rfl⟩
    cases hfetch with
    | done hdone => simp [hblocked] at hdone
    | refused _ hpkt hside =>
        obtain ⟨hframe, hdata⟩ := hports.imem hsend (hreq hpkt)
        obtain ⟨rfl, hnew⟩ | ⟨told, hr, hnew⟩ := hports.imem_new hsend (hreq hpkt) hside
        · cases h
          exact ⟨rfl, hframe, hdata, .refused hblocked hpkt hnew, c.ils, rfl⟩
        · obtain ⟨rfl, rfl, hphase, hils⟩ := howed hpkt hr hnew
          exact ⟨rfl, hframe, hdata, hphase, hils⟩
    | owed told hold hpkt hside =>
        obtain rfl := takenState_eq_blocked (hblocked ▸ hold)
        obtain ⟨hframe, hdata⟩ := hports.imem hsend (hreq hpkt)
        obtain ⟨told, hr, hnew⟩ := hports.imem_owed hsend (hreq hpkt) hside
        obtain ⟨rfl, rfl, hphase, hils⟩ := howed hpkt hr hnew
        exact ⟨rfl, hframe, hdata, hphase, hils⟩

/-! ## Running an instruction -/

variable (m σ rcv touches) in
/-- What running one instruction leaves: the interpreter made the same step, and nothing was fetched
yet. -/
structure RanInv (c : Cpu C) (s' : Seq M) (w : W) : Prop where
  base : s'.core.rcv = rcv
  trace : c.trace = s'.trace
  error : isSet c.dls.pkt PACKET_ERROR = false
  data : DataPhase m σ rcv touches c s' w
  fetch : c.toCore.fetch = s'.core.fetch

/-- The parts of the core that no instruction changes. -/
structure Instructed (c c' : Cpu C) : Prop where
  ils : c'.ils = c.ils
  cls : c'.cls = c.cls
  ctrl : c'.ctrl = c.ctrl

/-- The request of a load or a store is sent. -/
theorem issue_inv {ld : Ldst} {ret : Stat} {mem : M} {acc : List Packet}
    (hside : σ.data none mem acc w) (hreq : Core.IsDataRequest c.rcv ld.pkt)
    (hbase : c.rcv = rcv) (hstate : ld.state = .SENT)
    (h : issue ports ld c w = some (ret, c', w'))
    (htouches : c'.dls.Asks → touches c'.dls.pkt) :
    ret = .OK ∧ ∃ core, Core.finalizeDls { c.toCore with pc := c.pc + 4 }
        { ld with pkt := answer ld.pkt (m.apply mem ld.pkt).2 } = some core ∧
      RanInv m σ rcv touches c'
        ⟨core, (m.apply mem ld.pkt).1, ld.pkt :: acc, c.trace⟩ w' ∧
      Instructed c c' ∧ frame w w' ∧ ∀ owed, σ.fetch owed w → σ.fetch owed w' := by
  rw [hbase] at hreq
  obtain ⟨size, haccess⟩ := hreq.access
  obtain ⟨core, hfinal⟩ : ∃ core, Core.finalizeDls { c.toCore with pc := c.pc + 4 }
      { ld with pkt := answer ld.pkt (m.apply mem ld.pkt).2 } = some core :=
    Core.finalizeDls_some haccess
  obtain ⟨hrcv, hpc⟩ := Core.finalizeDls_pc hfinal
  have hfetch : core.fetch = Core.fetch { c.toCore with pc := c.pc + 4 } := by
    simp only [Core.fetch, hrcv, hpc]
  have herror := hreq.flags.error
  simp only [issue, Option.bind_eq_bind, Option.bind_eq_some_iff, Option.pure_def] at h
  obtain ⟨⟨r, w₁⟩, hsend, h⟩ := h
  -- whatever the answer was, the stored request is `ld.pkt`, so the core may touch its line
  have hpkt : touches ld.pkt := by
    split at h <;> cases h
    · exact htouches (.inl rfl)
    · exact htouches (.inr hstate)
  obtain ⟨hframe, hkept⟩ := hports.dmem hsend hreq hpkt
  obtain ⟨rfl, hnew⟩ | ⟨told, rfl, hnew⟩ := hports.dmem_new hsend hreq hpkt hside
  · cases h
    exact ⟨rfl, core, hfinal, ⟨hrcv.trans hbase, rfl, herror,
      .refused rfl hreq hpkt mem acc rfl rfl hfinal hnew, hfetch.symm⟩, ⟨rfl, rfl, rfl⟩, hframe,
      hkept⟩
  · cases told <;> cases h
    · exact ⟨rfl, core, hfinal, ⟨hrcv.trans hbase, rfl, herror,
        .owed false rfl hreq hpkt _ hfinal hnew, hfetch.symm⟩, ⟨rfl, rfl, rfl⟩, hframe, hkept⟩
    · exact ⟨rfl, core, hfinal, ⟨hrcv.trans hbase, rfl, herror,
        .owed true hstate hreq hpkt _ hfinal hnew, hfetch.symm⟩, ⟨rfl, rfl, rfl⟩, hframe, hkept⟩

/-- Running the fetched instruction is a step of the interpreter. -/
theorem run_inv {ret : Stat} {insn : BitVec 32} (hcore : c.toCore = s.core)
    (htrace : c.trace = s.trace) (hidle : c.dls.state = .IDLE)
    (herror : isSet c.dls.pkt PACKET_ERROR = false) (hside : σ.data none s.mem s.accepted w)
    (hbase : s.core.rcv = rcv) (hinsn : s.insn m = some insn)
    (h : run ports insn c w = some (ret, c', w'))
    (htouches : c'.dls.Asks → touches c'.dls.pkt) :
    ∃ s', s.step m = some (ret, s') ∧
      RanInv m σ rcv touches c' s' w' ∧
      (ret ≠ .OK → c'.dls.state = .IDLE ∧ σ.data none s'.mem s'.accepted w') ∧
      Instructed c c' ∧ frame w w' ∧ ∀ owed, σ.fetch owed w → σ.fetch owed w' := by
  simp only [run, Option.bind_eq_bind, Option.bind_eq_some_iff, Option.pure_def] at h
  obtain ⟨o, ho, h⟩ := h
  have hsound := Core.execute_sound ho
  have hrcv : c.rcv = rcv := by rw [hcore]; exact hbase
  simp only [Seq.step, Option.bind_eq_bind, hinsn, Option.bind_some, ← hcore, ho, Option.pure_def]
  cases o with
  | ret r core =>
      cases h
      exact ⟨_, rfl, ⟨hsound.trans hrcv, congrArg _ htrace, herror, .idle hidle rfl hside, rfl⟩,
        fun _ => ⟨hidle, hside⟩, ⟨rfl, rfl, rfl⟩, hports.refl w, fun _ h => h⟩
  | request ld =>
      obtain ⟨hreq, hstate⟩ := hsound
      obtain ⟨rfl, core, hfinal, hran, hsame, hframe, hkept⟩ := issue_inv hports
        (c := { c with trace := ⟨insn, c.regs, c.pc⟩ :: c.trace }) hside hreq hrcv hstate h htouches
      simp only [hfinal, Option.bind_some, ← htrace]
      exact ⟨_, rfl, hran, fun hne => absurd rfl hne, ⟨hsame.ils, hsame.cls, hsame.ctrl⟩,
        hframe, hkept⟩

/-! ## The clock -/

variable (m σ rcv touches) in
/-- What a clock does: it keeps the relation to the interpreter, or the interpreter makes a step, or
the instruction that was run stops the core with a status, which the interpreter returns as well. -/
inductive Clocked (s : Seq M) (ret : Stat) (c' : Cpu C) (w' : W) : Prop where
  | waited (hret : ret = .OK) (hinv : CpuInv m σ rcv touches c' s w')
  | ran (hret : ret = .OK) (s' : Seq M) (hstep : s.step m = some (.OK, s'))
      (hinv : CpuInv m σ rcv touches c' s' w')
  | stopped (hret : ret ≠ .OK) (s' : Seq M) (hstep : s.step m = some (ret, s'))
      (htrace : c'.trace = s'.trace) (hidle : c'.dls.state = .IDLE)
      (hside : σ.data none s'.mem s'.accepted w')

/-- The part of a clock that runs an instruction keeps the invariant. -/
theorem clockRun_inv {ret : Stat} (hinv : CpuInv m σ rcv touches c s w)
    (hidle : c.dls.state = .IDLE) (hils : c.ils.state ≠ .BLOCKED ∧ c.ils.state ≠ .SENT)
    (h : clockRun ports c w = some (ret, c', w'))
    (htouches : c'.dls.Asks → touches c'.dls.pkt) :
    frame w w' ∧ Clocked m σ rcv touches s ret c' w' := by
  obtain ⟨hcore, hside⟩ : c.toCore = s.core ∧ σ.data none s.mem s.accepted w := by
    cases hinv.data with
    | idle _ hcore hside => exact ⟨hcore, hside⟩
    | refused hstate => simp [hidle] at hstate
    | owed told hstate => cases told <;> simp [hidle, takenState] at hstate
    | done hstate => simp [hidle] at hstate
  cases hinv.fetch with
  | refused hstate => exact absurd hstate hils.1
  | owed told hstate =>
      cases told
      · exact absurd hstate hils.1
      · exact absurd hstate hils.2
  | done hdone hinsn hfetch =>
      simp only [clockRun, hdone, if_true, hinv.error, Bool.not_false, guard_true,
        Option.bind_eq_bind, Option.bind_eq_some_iff, Option.pure_def] at h
      obtain ⟨-, -, insn, hword, ⟨r, c₁, w₁⟩, hrun, h⟩ := h
      have hdls₁ : c₁.dls = c'.dls := by
        split at h
        · cases h
          rfl
        · obtain ⟨pkt, -, h⟩ := Option.bind_eq_some_iff.1 h
          exact (clockSend_dls h).symm
      rw [← hdls₁] at htouches
      obtain ⟨s', hstep, hran, hstopped, hsame, hframe, hkept⟩ := run_inv hports
        (c := { c with ils := { c.ils with state := .IDLE } }) hcore hinv.trace hidle hinv.error
        hside
        hinv.base (hinsn ▸ hword) hrun htouches
      have hnone := hkept none hfetch
      split at h
      · rename_i hret
        cases h
        exact ⟨hframe, .stopped hret s' hstep hran.trace (hstopped hret).1 (hstopped hret).2⟩
      · rename_i hret
        have hack : AckOk c₁ := by
          rw [AckOk, hsame.cls, hsame.ctrl]
          exact hinv.ctrl
        have hok : r = .OK := by simpa using hret
        subst hok
        obtain ⟨pkt, hpkt, h⟩ := Option.bind_eq_some_iff.1 h
        obtain ⟨rfl, hframe', hdata, hfetched, ils, rfl⟩ := clockSend_inv hports hran.base
          (.refused rfl (hran.fetch.symm.trans hpkt) hnone) h
        exact ⟨hports.trans hframe hframe', .ran rfl s' hstep ⟨hran.base, hran.trace, hran.error,
          hack, hran.data.kept hdata rfl rfl, hfetched⟩⟩

/-- `simple_riscv64_clock` keeps the relation or makes one step of the interpreter. -/
theorem clock_inv {ret : Stat} (hinv : CpuInv m σ rcv touches c s w)
    (h : simpleRiscv64Clock ports c w = some (ret, c', w'))
    (htouches : c'.dls.Asks → touches c'.dls.pkt) :
    frame w w' ∧ Clocked m σ rcv touches s ret c' w' := by
  simp only [simpleRiscv64Clock, Option.bind_eq_bind, Option.bind_eq_some_iff, Option.pure_def] at h
  obtain ⟨⟨go, c₁, w₁⟩, hctrl, h⟩ := h
  obtain ⟨hkept, cls, rfl, hack⟩ := clockCtrl_kept hports hinv.ctrl hctrl
  have hinv₁ : CpuInv m σ rcv touches { c with cls } s w₁ :=
    hinv.kept hkept.data hkept.fetch rfl rfl rfl rfl hack
  split at h
  · cases h
    exact ⟨hkept.frame, .waited rfl hinv₁⟩
  split at h
  · cases h
    exact ⟨hkept.frame, .waited rfl hinv₁⟩
  obtain ⟨⟨go', c₂, w₂⟩, hdata, h⟩ := Option.bind_eq_some_iff.1 h
  obtain ⟨hframe, hinv₂, hidle, -⟩ := clockData_inv hports hinv₁ hdata
  have hframe₂ := hports.trans hkept.frame hframe
  split at h
  · cases h
    exact ⟨hframe₂, .waited rfl hinv₂⟩
  rename_i hgo
  split at h
  case h_1 hstate =>
    obtain ⟨rfl, hframe₃, hdata₃, hfetch, ils, rfl⟩ :=
      clockSend_inv hports hinv₂.base hinv₂.fetch h
    exact ⟨hports.trans hframe₂ hframe₃,
      .waited rfl ⟨hinv₂.base, hinv₂.trace, hinv₂.error, hinv₂.ctrl,
      hinv₂.data.kept hdata₃ rfl rfl, hfetch⟩⟩
  case h_2 hstate =>
    cases h
    exact ⟨hframe₂, .waited rfl hinv₂⟩
  case h_3 hblocked hsent =>
    obtain ⟨hframe₃, hclocked⟩ :=
      clockRun_inv hports hinv₂ (hidle (by simpa using hgo)) ⟨hblocked, hsent⟩ h htouches
    exact ⟨hports.trans hframe₂ hframe₃, hclocked⟩

end

/-! ## No assertion fails -/

/-- `SEND` returns. -/
structure Total (ports : CpuPorts C W) : Prop where
  imem : ∀ p w, (ports.imem p w).isSome
  dmem : ∀ p w, (ports.dmem p w).isSome
  ctrl : ∀ k p w, (ports.ctrl k p w).isSome

section
variable (htotal : Total ports)
include htotal

/-- The control port fails no assertion. -/
theorem clockCtrl_isSome (hack : AckOk c) : ∃ r, clockCtrl ports c w = some r := by
  unfold clockCtrl
  rcases hack with hidle | ⟨hblocked, k, hk⟩
  · simp [hidle]
  · obtain ⟨⟨r, w₁⟩, hsend⟩ := Option.isSome_iff_exists.1 (htotal.ctrl k c.cls.pkt w)
    simp only [hblocked, hk, hsend, guard_true, Option.bind_eq_bind, Option.bind_some,
      Option.pure_def,
      ne_eq, reduceCtorEq, not_false_eq_true, if_true]
    split <;> exact ⟨_, rfl⟩

/-- Sending a fetch fails no assertion. -/
theorem clockSend_isSome : ∃ r, clockSend ports c w = some r := by
  unfold clockSend
  obtain ⟨⟨r, w₁⟩, hsend⟩ := Option.isSome_iff_exists.1 (htotal.imem c.ils.pkt w)
  simp only [hsend, Option.bind_eq_bind, Option.bind_some, Option.pure_def]
  split_ifs <;> exact ⟨_, rfl⟩

/-- Finishing a load fails no assertion. -/
theorem clockData_isSome (hinv : CpuInv m σ rcv touches c s w) :
    ∃ r, clockData ports c w = some r := by
  unfold clockData
  obtain ⟨⟨r, w₁⟩, hsend⟩ := Option.isSome_iff_exists.1 (htotal.dmem c.dls.pkt w)
  simp only [hinv.error, hsend, Bool.not_false, guard_true, Option.bind_eq_bind, Option.bind_some,
    Option.pure_def]
  split
  case h_2 => split_ifs <;> exact ⟨_, rfl⟩
  case h_4 hdone =>
    cases hinv.data with
    | idle hidle => simp [hdone] at hidle
    | refused hblocked => simp [hdone] at hblocked
    | owed told hstate => cases told <;> simp [hdone, takenState] at hstate
    | done _ hfinal => exact ⟨_, by rw [hfinal]; rfl⟩
  all_goals exact ⟨_, rfl⟩

/-- An instruction that the interpreter can run is run, and the two fetch the same next. -/
theorem run_isSome {insn : BitVec 32} {ret : Stat} {s' : Seq M} (hcore : c.toCore = s.core)
    (hinsn : s.insn m = some insn) (hstep : s.step m = some (ret, s')) :
    ∃ r c₁ w₁, run ports insn c w = some (r, c₁, w₁) ∧
      (r = .OK → ret = .OK ∧ c₁.toCore.fetch = s'.core.fetch) := by
  simp only [Seq.step, hinsn, ← hcore, Option.bind_eq_bind, Option.bind_some,
    Option.bind_eq_some_iff, Option.pure_def] at hstep
  obtain ⟨o, ho, hstep⟩ := hstep
  simp only [run, ho, Option.bind_eq_bind, Option.bind_some, Option.pure_def]
  cases o with
  | ret r core =>
      cases hstep
      exact ⟨_, _, _, rfl, fun hr => ⟨hr, rfl⟩⟩
  | request ld =>
      obtain ⟨core, hfinal, hstep⟩ := Option.bind_eq_some_iff.1 hstep
      obtain ⟨hrcv, hpc⟩ := Core.finalizeDls_pc hfinal
      cases hstep
      have hfetch : Core.fetch { c.toCore with pc := c.pc + 4 } = core.fetch := by
        simp only [Core.fetch, hrcv, hpc]
      obtain ⟨⟨r, w₁⟩, hsend⟩ := Option.isSome_iff_exists.1 (htotal.dmem ld.pkt w)
      simp only [issue, hsend, Option.bind_eq_bind, Option.bind_some, Option.pure_def]
      split
      · exact ⟨_, _, _, rfl, fun _ => ⟨trivial, hfetch⟩⟩
      · exact ⟨_, _, _, rfl, fun _ => ⟨trivial, hfetch⟩⟩

/-- Where the interpreter can go on, no assertion of a clock fails. -/
theorem clock_isSome (hports : PortsOk m σ frame rcv touches ports)
    (hinv : CpuInv m σ rcv touches c s w)
    (hstep : ∃ ret s', s.step m = some (ret, s') ∧ (ret = .OK → (s'.insn m).isSome)) :
    (simpleRiscv64Clock ports c w).isSome := by
  obtain ⟨ret, s', hstep, hnext⟩ := hstep
  obtain ⟨⟨go, c₁, w₁⟩, hctrl⟩ := clockCtrl_isSome htotal (w := w) hinv.ctrl
  obtain ⟨hkept, cls, rfl, hack⟩ := clockCtrl_kept hports hinv.ctrl hctrl
  have hinv₁ : CpuInv m σ rcv touches { c with cls } s w₁ :=
    hinv.kept hkept.data hkept.fetch rfl rfl rfl rfl hack
  simp only [simpleRiscv64Clock, hctrl, Option.bind_eq_bind, Option.bind_some, Option.pure_def]
  split
  · rfl
  split
  · rfl
  obtain ⟨⟨go', c₂, w₂⟩, hdata⟩ := clockData_isSome htotal hinv₁
  obtain ⟨-, hinv₂, hidle, -⟩ := clockData_inv hports hinv₁ hdata
  simp only [hdata, Option.bind_some]
  split
  · rfl
  rename_i hgo
  have hidle₂ := hidle (by simpa using hgo)
  split
  case h_1 => exact Option.isSome_iff_exists.2 (clockSend_isSome htotal)
  case h_2 => rfl
  case h_3 hblocked hsent =>
    have hcore : c₂.toCore = s.core := by
      cases hinv₂.data with
      | idle _ hcore hside => exact hcore
      | refused hstate => simp [hidle₂] at hstate
      | owed told hstate => cases told <;> simp [hidle₂, takenState] at hstate
      | done hstate => simp [hidle₂] at hstate
    cases hinv₂.fetch with
    | refused hstate => exact absurd hstate hblocked
    | owed told hstate =>
        cases told
        · exact absurd hstate hblocked
        · exact absurd hstate hsent
    | done hdone hword hfetch =>
        have hinsn : ∃ insn, s.insn m = some insn := by
          obtain ⟨insn, hinsn, -⟩ := Option.bind_eq_some_iff.1 hstep
          exact ⟨insn, hinsn⟩
        obtain ⟨insn, hinsn⟩ := hinsn
        obtain ⟨r, c₃, w₃, hrun, hfetched⟩ := run_isSome htotal
          (c := { c₂ with ils := { c₂.ils with state := .IDLE } }) (w := w₂) hcore hinsn hstep
        simp only [clockRun, hdone, if_true, hinv₂.error, Bool.not_false, guard_true,
          Option.bind_eq_bind, Option.bind_some, hword, hinsn, hrun, Option.pure_def]
        split
        · rfl
        · rename_i hr
          obtain ⟨hret, hpkt⟩ := hfetched (by simpa using hr)
          obtain ⟨word, hnext⟩ := Option.isSome_iff_exists.1 (hnext hret)
          obtain ⟨pkt, hfetch', -⟩ := Option.bind_eq_some_iff.1 hnext
          rw [hpkt, hfetch', Option.bind_some]
          exact Option.isSome_iff_exists.2 (clockSend_isSome htotal)

end

/-! ## Replies and control writes -/

/-- The answer to the data request that is owed arrives. -/
theorem receive_data (ports : CpuPorts C W) (sender : C) {pkt : Packet}
    (hinv : CpuInv m σ rcv touches c s w)
    (howed : ∀ mem acc, ¬ σ.data none mem acc w)
    (hside : ∀ {p line told mem acc}, σ.data (some (p, line, told)) mem acc w →
      IsAnswer p line pkt ∧ σ'.data none mem acc w')
    (hfetch : ∀ owed, σ.fetch owed w → σ'.fetch owed w') :
    ∃ c', (∀ v, simpleRiscv64Receive ports sender pkt c v = some (.OK, c', v)) ∧
      CpuInv m σ' rcv touches c' s w' := by
  have hrcv := hinv.rcv_eq
  cases hinv.data with
  | idle _ _ hnone => exact absurd hnone (howed _ _)
  | refused _ _ _ _ _ _ _ _ hnone => exact absurd hnone (howed _ _)
  | done _ _ hnone => exact absurd hnone (howed _ _)
  | owed told hstate hreq htouches line hcore hsome =>
      obtain ⟨hans, hnone⟩ := hside hsome
      obtain ⟨size, haccess⟩ := hreq.access
      have hdst : pkt.dst = c.rcv := by rw [hans.dst, hreq.src, hrcv]
      refine ⟨{ c with dls := { c.dls with pkt, state := .DONE } }, fun v => ?_, ?_⟩
      · rw [simpleRiscv64Receive, if_pos hdst]
      · refine ⟨hinv.base, hinv.trace, hans.error, hinv.ctrl, .done rfl ?_ hnone,
          hinv.fetch.kept hfetch rfl⟩
        rw [← hcore]
        exact Core.finalizeDls_answer hreq.flags haccess hans

/-- The answer to the fetch that is owed arrives. -/
theorem receive_fetch (ports : CpuPorts C W) (sender : C) {pkt : Packet}
    (hinv : CpuInv m σ rcv touches c s w)
    (howed : ¬ σ.fetch none w)
    (hside : ∀ {p told}, σ.fetch (some (p, told)) w → IsAnswer p (m.imem p) pkt ∧ σ'.fetch none w')
    (hdata : ∀ owed mem acc, σ.data owed mem acc w → σ'.data owed mem acc w') :
    ∃ c', (∀ v, simpleRiscv64Receive ports sender pkt c v = some (.OK, c', v)) ∧
      CpuInv m σ' rcv touches c' s w' := by
  have hrcv := hinv.rcv_eq
  cases hinv.fetch with
  | refused _ _ hnone => exact absurd hnone howed
  | done _ _ hnone => exact absurd hnone howed
  | owed told hstate hfetch hsome =>
      obtain ⟨hans, hnone⟩ := hside hsome
      have hreq := Core.fetch_spec hfetch
      have hdst : pkt.dst = c.rcv + 64 := by rw [hans.dst, hreq.src, hinv.base, hrcv]
      refine ⟨{ c with ils := { c.ils with pkt, state := .DONE } }, fun v => ?_, ?_⟩
      · rw [simpleRiscv64Receive, if_neg (by rw [hdst]; simp), if_pos hdst]
      · refine ⟨hinv.base, hinv.trace, hinv.error, hinv.ctrl, hinv.data.kept hdata rfl rfl,
          .done rfl ?_ hnone⟩
        rw [Seq.insn, hfetch]
        exact Core.convu32_answer hreq.flags hreq.access hans

/-- A control write puts the core to sleep or wakes it, and is acknowledged. -/
theorem receive_ctrl (hports : PortsOk m σ frame rcv touches ports) {sender : C} {pkt : Packet}
    {ret : Stat} (hinv : CpuInv m σ rcv touches c s w) (hdst : pkt.dst = rcv + 128)
    (h : simpleRiscv64Receive ports sender pkt c w = some (ret, c', w')) :
    CpuInv m σ rcv touches c' s w' := by
  have hrcv := hinv.rcv_eq
  rw [simpleRiscv64Receive, if_neg (by rw [hdst, hrcv]; simp), if_neg (by rw [hdst, hrcv]; simp),
    if_pos (by rw [hdst, hrcv])] at h
  simp only [Option.bind_eq_bind, Option.bind_eq_some_iff, Option.pure_def] at h
  obtain ⟨-, -, h⟩ := h
  split at h
  · cases h
    exact hinv
  obtain ⟨v, -, h⟩ := Option.bind_eq_some_iff.1 h
  split at h
  · cases h
    exact hinv
  obtain ⟨⟨r, w₁⟩, hsend, h⟩ := Option.bind_eq_some_iff.1 h
  have hkept := hports.ctrl hsend
  split at h
  · cases h
    exact hinv.kept hkept.data hkept.fetch rfl rfl rfl rfl (.inr ⟨rfl, sender, rfl⟩)
  · cases h
    exact hinv.kept hkept.data hkept.fetch rfl rfl rfl rfl (.inl rfl)

end Cpu

end Gran
