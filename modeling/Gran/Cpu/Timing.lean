import Gran.Cpu.ClockInvariant
import Mathlib.Logic.Relation

/-!
# A core does not see the timing of its memories

A run of one core between an instruction memory, a data memory and a component that writes control
words. Each `SEND` is accepted or refused with `EBUSY`, the data memory applies what it accepted in
the order of acceptance, answers come at any time after that, and control words put the core to
sleep and wake it. `simpleRiscv64_timing` says that on every run the core executes what the
interpreter executes.
-/

namespace Gran

open Relation

variable {M C : Type}

/-- Which sends are refused. -/
structure Refusals where
  imem : Bool
  dmem : Bool
  ctrl : Bool

/-- The memories around a core: what the data memory holds and accepted, newest first, and the
accepted requests that were not answered, oldest first, of which the data requests carry a line once
they were applied. -/
structure Env (M : Type) where
  mem : M
  accepted : List Packet
  dflight : List (Packet × Option Line)
  iflight : List Packet

/-- `SEND` to the components around a core. A refused request is not accepted. -/
def envPorts (refused : Refusals) : CpuPorts C (Env M) where
  imem p w :=
    if refused.imem then some (.EBUSY, w) else some (.OK, { w with iflight := w.iflight ++ [p] })
  dmem p w :=
    if refused.dmem then some (.EBUSY, w)
    else some (.OK, { w with accepted := p :: w.accepted, dflight := w.dflight ++ [(p, none)] })
  ctrl _ _ w := some (if refused.ctrl then .EBUSY else .OK, w)

namespace Timing

/-- A core with its surroundings, and the status that stopped it. -/
structure System (M C : Type) where
  cpu : Cpu C
  env : Env M
  halted : Option Stat

/-- The start of a run. -/
def System.init (cpu : Cpu C) (mem : M) : System M C := ⟨cpu, ⟨mem, [], [], []⟩, none⟩

/-- One step of a run. -/
inductive System.Step (m : Memories M) (s : System M C) : System M C → Prop where
  | clock (refused : Refusals) (ret : Stat) (cpu' : Cpu C) (env' : Env M)
      (h : Cpu.simpleRiscv64Clock (envPorts refused) s.cpu s.env = some (ret, cpu', env')) :
      Step m s ⟨cpu', env', if ret = .OK then none else some ret⟩
  | apply (before : List (Packet × Line)) (p : Packet) (after : List (Packet × Option Line))
      (h : s.env.dflight = before.map (fun q => (q.1, some q.2)) ++ (p, none) :: after) :
      Step m s { s with env := { s.env with
        mem := (m.apply s.env.mem p).1
        dflight := before.map (fun q => (q.1, some q.2)) ++
          (p, some (m.apply s.env.mem p).2) :: after } }
  | answerData (before : List (Packet × Option Line)) (p : Packet) (line : Line)
      (after : List (Packet × Option Line)) (h : s.env.dflight = before ++ (p, some line) :: after)
      (sender : C) (pkt : Packet) (hans : IsAnswer p line pkt) (refused : Refusals) (ret : Stat)
      (cpu' : Cpu C) (env' : Env M)
      (hreceive : Cpu.simpleRiscv64Receive (envPorts refused) sender pkt s.cpu
        { s.env with dflight := before ++ after } = some (ret, cpu', env')) :
      Step m s { s with cpu := cpu', env := env' }
  | answerFetch (before : List Packet) (p : Packet) (after : List Packet)
      (h : s.env.iflight = before ++ p :: after)
      (sender : C) (pkt : Packet) (hans : IsAnswer p (m.imem p) pkt) (refused : Refusals)
      (ret : Stat)
      (cpu' : Cpu C) (env' : Env M)
      (hreceive : Cpu.simpleRiscv64Receive (envPorts refused) sender pkt s.cpu
        { s.env with iflight := before ++ after } = some (ret, cpu', env')) :
      Step m s { s with cpu := cpu', env := env' }
  | control (sender : C) (pkt : Packet) (hdst : pkt.dst = s.cpu.rcv + 128) (refused : Refusals)
      (ret : Stat) (cpu' : Cpu C) (env' : Env M)
      (hreceive : Cpu.simpleRiscv64Receive (envPorts refused) sender pkt s.cpu s.env =
        some (ret, cpu', env')) :
      Step m s { s with cpu := cpu', env := env' }

/-- The runs of a core. Nothing happens after it stopped. -/
abbrev Reachable (m : Memories M) (start s : System M C) : Prop :=
  ReflTransGen (fun s s' => s.halted = none ∧ System.Step m s s') start s

/-! ## What the memories owe the core -/

/-- The side of the memories. The core is told of every request that is accepted. -/
def sides (m : Memories M) : Sides M (Env M) where
  data owed mem acc w := w.accepted = acc ∧
    match owed with
    | none => w.dflight = [] ∧ w.mem = mem
    | some (p, line, told) => told = true ∧
        (w.dflight = [(p, none)] ∧ m.apply w.mem p = (mem, line) ∨
          w.dflight = [(p, some line)] ∧ w.mem = mem)
  fetch owed w :=
    match owed with
    | none => w.iflight = []
    | some (p, told) => told = true ∧ w.iflight = [p]

variable {m : Memories M} {rcv : Word}

/-- The ports of a run are ones of the memories. -/
theorem envPorts_ok (refused : Refusals) :
    PortsOk m (sides m) (fun _ _ => True) rcv (fun _ => True) (envPorts (C := C) refused) where
  refl _ := trivial
  trans _ _ := trivial
  dmem {p w r w'} h _ _ := by
    simp only [envPorts] at h
    split at h <;> cases h <;> exact ⟨trivial, fun _ h => h⟩
  dmem_new {p w r w' mem acc} h _ _ hside := by
    obtain ⟨rfl, hflight, rfl⟩ := hside
    simp only [envPorts] at h
    split at h <;> cases h
    · exact .inl ⟨rfl, rfl, hflight, rfl⟩
    · exact .inr ⟨true, rfl, rfl, rfl, .inl ⟨by rw [hflight]; rfl, rfl⟩⟩
  dmem_owed h _ _ hside := absurd hside.2.1 Bool.false_ne_true
  imem {p w r w'} h _ := by
    simp only [envPorts] at h
    split at h <;> cases h <;> exact ⟨trivial, fun _ _ _ h => h⟩
  imem_new {p w r w'} h _ hside := by
    have hflight : w.iflight = [] := hside
    simp only [envPorts] at h
    split at h <;> cases h
    · exact .inl ⟨rfl, hflight⟩
    · exact .inr ⟨true, rfl, rfl, by rw [hflight]; rfl⟩
  imem_owed h _ hside := absurd hside.1 Bool.false_ne_true
  ctrl {k p w r w'} h := by
    cases h
    exact ⟨trivial, fun _ _ _ h => h, fun _ h => h⟩

/-- The ports of a run answer every request. -/
theorem envPorts_total (refused : Refusals) : Cpu.Total (envPorts (M := M) (C := C) refused) where
  imem p w := by simp only [envPorts]; split <;> rfl
  dmem p w := by simp only [envPorts]; split <;> rfl
  ctrl _ _ _ := rfl

/-! ## Runs -/

/-- The relation between the core and the interpreter that a run keeps. -/
abbrev Inv (m : Memories M) (s : System M C) (t : Seq M) : Prop :=
  CpuInv m (sides m) t.core.rcv (fun _ => True) s.cpu t s.env

/-- A core that stopped executed what the interpreter executed. -/
structure Stopped (s : System M C) (t : Seq M) : Prop where
  trace : s.cpu.trace = t.trace
  idle : s.cpu.dls.state = .IDLE
  accepted : s.env.accepted = t.accepted

/-- Every state of a run is one of the interpreter after so many instructions. -/
def Related (m : Memories M) (start : Seq M) (s : System M C) : Prop :=
  ∃ k ret t, start.run m k = some (ret, t) ∧
    (s.halted = none ∧ ret = .OK ∧ Inv m s t ∨ s.halted = some ret ∧ ret ≠ .OK ∧ Stopped s t)

/-- The memory applies a data request in flight. -/
theorem sides_apply {w : Env M} {before : List (Packet × Line)} {p : Packet}
    {after : List (Packet × Option Line)}
    (h : w.dflight = before.map (fun q => (q.1, some q.2)) ++ (p, none) :: after)
    {owed : Option (Packet × Line × Bool)} {mem : M} {acc : List Packet}
    (hside : (sides m).data owed mem acc w) :
    (sides m).data owed mem acc { w with
      mem := (m.apply w.mem p).1
      dflight := before.map (fun q => (q.1, some q.2)) ++
        (p, some (m.apply w.mem p).2) :: after } := by
  obtain ⟨rfl, hside⟩ := hside
  refine ⟨rfl, ?_⟩
  cases owed with
  | none => simp [h] at hside
  | some owed =>
      obtain ⟨q, line, told⟩ := owed
      obtain ⟨rfl, ⟨hflight, happly⟩ | ⟨hflight, -⟩⟩ := hside
      · rw [h] at hflight
        cases before with
        | cons _ _ => simp at hflight
        | nil =>
            simp only [List.map_nil, List.nil_append, List.cons.injEq, Prod.mk.injEq,
              and_true] at hflight
            obtain ⟨rfl, rfl⟩ := hflight
            rw [happly]
            exact ⟨rfl, .inr ⟨rfl, rfl⟩⟩
      · rw [h] at hflight
        cases before <;> simp at hflight

/-- After the answer that is owed nothing is owed. -/
theorem sides_answer {w : Env M} {before after : List (Packet × Option Line)} {p pkt : Packet}
    {line : Line} (h : w.dflight = before ++ (p, some line) :: after) (hans : IsAnswer p line pkt)
    {q : Packet} {line' : Line} {told : Bool} {mem : M} {acc : List Packet}
    (hside : (sides m).data (some (q, line', told)) mem acc w) :
    IsAnswer q line' pkt ∧
      (sides m).data none mem acc { w with dflight := before ++ after } := by
  obtain ⟨rfl, -, ⟨hflight, -⟩ | ⟨hflight, rfl⟩⟩ := hside
  · rw [h] at hflight
    cases before <;> simp at hflight
  · rw [h] at hflight
    cases before with
    | cons _ _ => simp at hflight
    | nil =>
        simp only [List.nil_append, List.cons.injEq, Prod.mk.injEq, Option.some.injEq] at hflight
        obtain ⟨⟨rfl, rfl⟩, rfl⟩ := hflight
        exact ⟨hans, rfl, rfl, rfl⟩

/-- The memory answers a fetch in flight. -/
theorem sides_fetch {w : Env M} {before after : List Packet} {p pkt : Packet}
    (h : w.iflight = before ++ p :: after) (hans : IsAnswer p (m.imem p) pkt) {q : Packet}
    {told : Bool} (hside : (sides m).fetch (some (q, told)) w) :
    IsAnswer q (m.imem q) pkt ∧ (sides m).fetch none { w with iflight := before ++ after } := by
  obtain ⟨-, hflight⟩ := hside
  rw [h] at hflight
  cases before with
  | cons _ _ => simp at hflight
  | nil =>
      simp only [List.nil_append, List.cons.injEq] at hflight
      obtain ⟨rfl, rfl⟩ := hflight
      exact ⟨hans, rfl⟩

/-- A step keeps the core in step with the interpreter. -/
theorem step_related {start : Seq M} {s s' : System M C} (hrel : Related m start s)
    (hlive : s.halted = none) (h : System.Step m s s') : Related m start s' := by
  obtain ⟨k, ret, t, hrun, ⟨-, rfl, hinv⟩ | ⟨hhalt, -⟩⟩ := hrel
  case inr => simp [hlive] at hhalt
  cases h with
  | clock refused ret cpu' env' h =>
      obtain ⟨-, hclocked⟩ := Cpu.clock_inv (envPorts_ok refused) hinv h fun _ => trivial
      cases hclocked with
      | waited hret hinv => exact ⟨k, .OK, t, hrun, .inl ⟨by simp [hret], rfl, hinv⟩⟩
      | ran hret t' hstep hinv' =>
          refine ⟨k + 1, .OK, t', (Seq.run_succ hrun).trans hstep, .inl ⟨by simp [hret], rfl, ?_⟩⟩
          rw [Inv, hinv'.base]
          exact hinv'
      | stopped hret t' hstep htrace hidle hside =>
          exact ⟨k + 1, ret, t', (Seq.run_succ hrun).trans hstep,
            .inr ⟨by simp [hret], hret, htrace, hidle, hside.1⟩⟩
  | apply before p after h =>
      exact ⟨k, .OK, t, hrun, .inl ⟨hlive, rfl, hinv.kept (fun _ _ _ => sides_apply h)
        (fun _ h => h) rfl rfl rfl rfl hinv.ctrl⟩⟩
  | answerData before p line after h sender pkt hans refused r cpu' env' hreceive =>
      obtain ⟨cpu₁, hcpu, hinv'⟩ := Cpu.receive_data _ _ hinv
        (fun _ _ hnone => by simp [sides, h] at hnone) (sides_answer h hans)
        (fun _ h => h)
      rw [hcpu] at hreceive
      cases hreceive
      exact ⟨k, .OK, t, hrun, .inl ⟨hlive, rfl, hinv'⟩⟩
  | answerFetch before p after h sender pkt hans refused r cpu' env' hreceive =>
      obtain ⟨cpu₁, hcpu, hinv'⟩ := Cpu.receive_fetch _ _ hinv
        (fun hnone => by simp [sides, h] at hnone) (sides_fetch h hans)
        (fun _ _ _ h => h)
      rw [hcpu] at hreceive
      cases hreceive
      exact ⟨k, .OK, t, hrun, .inl ⟨hlive, rfl, hinv'⟩⟩
  | control sender pkt hdst refused r cpu' env' hreceive =>
      have hinv' := Cpu.receive_ctrl (envPorts_ok refused) hinv
        (hdst.trans (by rw [hinv.rcv_eq])) hreceive
      exact ⟨k, .OK, t, hrun, .inl ⟨hlive, rfl, hinv'⟩⟩

/-- An idle request is no error. -/
theorem idle_error : isSet Ldst.idle.pkt PACKET_ERROR = false := by decide

/-- A core that was just created has fetched nothing. -/
theorem create_inv {pc : Word} {regs : BitVec 5 → Word} (mem : M) {cpu : Cpu C}
    (h : Cpu.create rcv pc regs = some cpu) :
    cpu.trace = [] ∧ CpuInv m (sides m) rcv (fun _ => True) cpu (.init ⟨rcv, regs, pc⟩ mem)
      ⟨mem, [], [], []⟩ := by
  obtain ⟨pkt, hpkt, h⟩ := Option.bind_eq_some_iff.1 h
  cases h
  exact ⟨rfl, rfl, rfl, idle_error, .inl rfl, .idle rfl rfl ⟨rfl, rfl, rfl⟩, .refused rfl hpkt rfl⟩

/-- In every reachable state the core is in step with the interpreter. -/
theorem reachable_related {pc : Word} {regs : BitVec 5 → Word} {mem : M} {cpu : Cpu C}
    (hcreate : Cpu.create rcv pc regs = some cpu) {s : System M C}
    (hrun : Reachable m (.init cpu mem) s) : Related m (.init ⟨rcv, regs, pc⟩ mem) s := by
  induction hrun with
  | refl => exact ⟨0, .OK, _, rfl, .inl ⟨rfl, rfl, (create_inv _ hcreate).2⟩⟩
  | tail _ hstep ih => exact step_related ih hstep.1 hstep.2

/-- The data request that was made and not accepted yet. -/
def refusedData (c : Cpu C) : List Packet :=
  if c.dls.state = .BLOCKED then [c.dls.pkt] else []

/-- No access of the interpreter leaves its line, before an instruction stops it. -/
def NeverCrosses (m : Memories M) (start : Seq M) : Prop :=
  ∀ k t, start.run m k = some (.OK, t) → (t.step m).isSome

/-- The data requests made are those that the interpreter made. -/
theorem Inv.accepted {s : System M C} {t : Seq M} (h : Inv m s t) :
    refusedData s.cpu ++ s.env.accepted = t.accepted := by
  cases h.data with
  | idle hstate _ hside => simp [refusedData, hstate, hside.1]
  | refused hstate _ _ _ _ _ hacc _ hside => simp [refusedData, hstate, hacc, hside.1]
  | owed told hstate _ _ _ _ hside =>
      obtain ⟨hacc, rfl, -⟩ := hside
      simp [refusedData, hstate, takenState, hacc]
  | done hstate _ hside => simp [refusedData, hstate, hside.1]

/-- On every run a core executes what the interpreter executes and its data memory accepts what the
interpreter's applies, in the same order. It never runs without a fetched instruction. No assertion
fails unless an access crosses a line. -/
theorem simpleRiscv64_timing {pc : Word} {regs : BitVec 5 → Word} {mem : M} {cpu : Cpu C}
    (hcreate : Cpu.create rcv pc regs = some cpu) {s : System M C}
    (hrun : Reachable m (.init cpu mem) s) :
    (∃ k ret t, (Seq.init ⟨rcv, regs, pc⟩ mem).run m k = some (ret, t) ∧
      s.cpu.trace.length = k ∧ s.cpu.trace = t.trace ∧
      refusedData s.cpu ++ s.env.accepted = t.accepted ∧
      s.halted = if ret = .OK then none else some ret) ∧
    (Seq.init ⟨rcv, regs, pc⟩ mem).Sees m s.cpu.trace ∧
    (s.halted = none → s.cpu.ils.state ≠ .IDLE ∧
      (NeverCrosses m (.init ⟨rcv, regs, pc⟩ mem) → ∀ refused,
        (Cpu.simpleRiscv64Clock (envPorts refused) s.cpu s.env).isSome)) := by
  obtain ⟨k, ret, t, hseq, hrel⟩ := reachable_related hcreate hrun
  obtain ⟨hlen, hlog⟩ := Seq.run_trace rfl hseq
  have htrace : s.cpu.trace = t.trace := by
    obtain ⟨-, -, hinv⟩ | ⟨-, -, hstopped⟩ := hrel
    · exact hinv.trace
    · exact hstopped.trace
  refine ⟨⟨k, ret, t, hseq, by rw [htrace, hlen], htrace, ?_, ?_⟩, by rw [htrace]; exact hlog,
    fun hlive => ?_⟩
  · obtain ⟨-, -, hinv⟩ | ⟨-, -, hstopped⟩ := hrel
    · exact hinv.accepted
    · simp [refusedData, hstopped.idle, hstopped.accepted]
  · obtain ⟨hlive, rfl, -⟩ | ⟨hhalt, hret, -⟩ := hrel
    · simp [hlive]
    · simp [hhalt, hret]
  · obtain ⟨-, rfl, hinv⟩ | ⟨hhalt, -⟩ := hrel
    case inr => simp [hlive] at hhalt
    refine ⟨?_, fun hcross refused => ?_⟩
    · cases hinv.fetch with
      | refused hstate => simp [hstate]
      | owed told hstate => cases told <;> simp [hstate, takenState]
      | done hstate => simp [hstate]
    · obtain ⟨⟨r, t'⟩, hstep⟩ := Option.isSome_iff_exists.1 (hcross k t hseq)
      refine Cpu.clock_isSome (envPorts_total refused) (envPorts_ok refused) hinv
        ⟨r, t', hstep, fun hr => ?_⟩
      subst hr
      obtain ⟨⟨r', t''⟩, hstep'⟩ :=
        Option.isSome_iff_exists.1 (hcross (k + 1) t' ((Seq.run_succ hseq).trans hstep))
      obtain ⟨insn, hinsn, -⟩ := Option.bind_eq_some_iff.1 hstep'
      rw [hinsn]
      rfl

/-- A program of nothing but `ld x1, 0(x0)`, and a data memory of one line. -/
def loads : Memories Line where
  imem _ i := match i.val % 4 with
    | 0 => 0x83
    | 1 => 0x30
    | _ => 0
  apply mem p :=
    (if isSet p PACKET_WRITE then fun i => if p.mask.getLsbD i then p.data i else mem i else mem,
      mem)

/-- The core of the run below. -/
def loader : Cpu Unit :=
  { rcv := 0, regs := fun _ => 0, pc := 0
    dls := .idle
    ils := ⟨⟨64, 0, 15, 0, fun _ => 0, PACKET_READ⟩, .BLOCKED, 0, false⟩
    cls := .idle, ctrl := none, sleep := false, trace := [] }

/-- The core of the example is created. -/
theorem loader_create : Cpu.create 0 0 (fun _ => 0) = some loader := rfl

/-- A load is refused once and answered with the line of sevens, and the instruction after it finds
the register written. -/
theorem loads_reachable : ∃ s, Reachable loads (.init loader fun _ => 7) s ∧
    s.cpu.trace.length = 2 ∧ s.cpu.trace.head?.map (·.regs 1) = some 0x0707070707070707 := by
  refine ⟨_,
    .head ⟨rfl, .clock ⟨false, false, false⟩ _ _ _ rfl⟩ <|
    .head ⟨rfl, .answerFetch [] _ [] rfl () (answer _ _) (answer_isAnswer (.inl rfl) _)
      ⟨false, false, false⟩ _ _ _ rfl⟩ <|
    .head ⟨rfl, .clock ⟨false, true, false⟩ _ _ _ rfl⟩ <|
    .head ⟨rfl, .clock ⟨false, false, false⟩ _ _ _ rfl⟩ <|
    .head ⟨rfl, .apply [] _ [] rfl⟩ <|
    .head ⟨rfl, .answerData [] _ _ [] rfl () (answer _ _) (answer_isAnswer (.inl rfl) _)
      ⟨false, false, false⟩ _ _ _ rfl⟩ <|
    .head ⟨rfl, .answerFetch [] _ [] rfl () (answer _ _) (answer_isAnswer (.inl rfl) _)
      ⟨false, false, false⟩ _ _ _ rfl⟩ <|
    .head ⟨rfl, .clock ⟨false, false, false⟩ _ _ _ rfl⟩ .refl, ?_, ?_⟩
  · rfl
  · rfl

/-- `simpleRiscv64_timing` on that run. -/
theorem simpleRiscv64_timing_loads : ∃ s : System Line Unit, s.cpu.trace.length = 2 ∧
    (Seq.init ⟨0, fun _ => 0, 0⟩ fun _ => 7).Sees loads s.cpu.trace := by
  obtain ⟨s, hs, hlen, -⟩ := loads_reachable
  exact ⟨s, hlen, (simpleRiscv64_timing (m := loads)
    loader_create hs).2.1⟩

end Timing

end Gran
