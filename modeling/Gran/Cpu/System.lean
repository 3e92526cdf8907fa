import Gran.Cpu.Attached
import Gran.Mem.Ram

/-!
# A core with its memories

The simulation of `tests/simple_riscv64/sim.c`: a core, a memory it fetches from and a memory for
its data, in one clock domain. `Machine.Inv` relates it to the sequential interpreter over the
contents of the two memories. `simpleRiscv64_schedule` says that the simulation does what the
interpreter does however its components are clocked, and `simpleRiscv64_rootRun` that `root_run`
runs one instruction a tick.
-/

namespace Gran

/-- The memories of the simulation. -/
inductive MemName where
  | imem | dmem
deriving DecidableEq

/-- The components of the simulation. -/
inductive Part where
  | rv64 | imem | dmem
deriving DecidableEq

/-- The two memories. The core is the only component that sends to them. -/
structure Mems where
  imem : SimpleMem Unit
  dmem : SimpleMem Unit

/-- What `main` builds. -/
structure Machine where
  rv64 : Cpu MemName
  mems : Mems

/-- `SEND` to a memory. -/
def Mems.send (p : Packet) (w : Mems) : MemName → Option (Stat × Mems)
  | .imem => do
      let (r, imem) ← w.imem.receive () p
      pure (r, { w with imem })
  | .dmem => do
      let (r, dmem) ← w.dmem.receive () p
      pure (r, { w with dmem })

namespace Machine

/-- `SEND` of the core. -/
def ports : CpuPorts MemName Mems where
  imem p w := w.send p .imem
  dmem p w := w.send p .dmem
  ctrl k p w := w.send p k

/-- `SEND` of a memory to the core. -/
def reply (k : MemName) (p : Packet) (s : Machine) : Option (Stat × Machine) := do
  let (r, rv64, mems) ← s.rv64.simpleRiscv64Receive ports k p s.mems
  pure (r, ⟨rv64, mems⟩)

/-- The clock of a component. A memory is busy while it sends, so that nothing else changes it. -/
def clock (p : Part) (s : Machine) : Option (Stat × Machine) :=
  match p with
  | .rv64 => do
      let (r, rv64, mems) ← s.rv64.simpleRiscv64Clock ports s.mems
      pure (r, ⟨rv64, mems⟩)
  | .imem => do
      let (imem, s) ← s.mems.imem.clock (fun _ => reply .imem) s
      pure (.OK, { s with mems := { s.mems with imem } })
  | .dmem => do
      let (dmem, s) ← s.mems.dmem.clock (fun _ => reply .dmem) s
      pure (.OK, { s with mems := { s.mems with dmem } })

/-- Components that are clocked one after the other, until one stops the run. -/
def run (s : Machine) (ps : List Part) : Option (Stat × Machine) := clockUntil clock ps s

end Machine

/-! ## The memories of the interpreter -/

/-- The line that an address lies in, in a buffer. -/
def lineOf (size : Word) (buf : Nat → BitVec 8) (addr : Word) : Line :=
  fun i => buf ((addr % size).toNat + i)

/-- The memories that the interpreter is run with: the program, and a buffer that requests are
applied to as `simple_mem_receive` does. -/
def simMemories (isize dsize : Word) (program : Nat → BitVec 8) :
    Memories (Nat → BitVec 8) where
  imem p := lineOf isize program p.dst
  apply buf p := ((createSimpleMem dsize buf : SimpleMem Unit).stored p, lineOf dsize buf p.dst)

/-- A memory size of whole lines. -/
def WholeLines (size : Word) : Prop := 0 < size.toNat ∧ 64 ∣ size.toNat

instance (size : Word) : Decidable (WholeLines size) := inferInstanceAs (Decidable (_ ∧ _))

namespace SimpleMem

/-- A memory holds the reply to a request. -/
structure Owes (mem : SimpleMem Unit) (p : Packet) (line : Line) : Prop where
  busy : mem.busy = true
  send : mem.send = some ()
  answer : IsAnswer p line mem.pkt

variable {mem : SimpleMem Unit} {p : Packet}

theorem replyTo_isAnswer (hflags : IsAccessFlags p.flags) :
    IsAnswer p (lineOf mem.size mem.buf p.dst) (mem.replyTo p) := by
  have hreply : (mem.replyTo p).flags = p.flags ||| PACKET_DONE := by
    unfold replyTo
    dsimp only
    split <;> rfl
  refine ⟨?_, ?_, ?_, ?_, ?_⟩
  · unfold replyTo
    dsimp only
    split <;> rfl
  · unfold replyTo
    dsimp only
    split <;> rfl
  · rcases hflags with h | h <;> rw [isSet, isSet, hreply, h] <;> rfl
  · rcases hflags with h | h <;> rw [isSet, hreply, h] <;> rfl
  · intro hread i hi
    simp only [replyTo, hread, if_true, setFlags_data, response_data, checkedCopyto, hi, lineOf]

/-- A free memory takes a request of a core and owes it the line it holds. -/
theorem receive_request (hlines : WholeLines mem.size) (hfree : mem.busy = false)
    (halign : packetAlign p.dst = p.dst) (hflags : IsAccessFlags p.flags) :
    mem.receive () p = some (.OK, mem.taken () p) ∧
      (mem.taken () p).Owes p (lineOf mem.size mem.buf p.dst) := by
  have hkind : isSet p PACKET_READ = true ∨ isSet p PACKET_WRITE = true := by
    rcases hflags with h | h
    · exact .inl (by rw [isSet, h]; rfl)
    · exact .inr (by rw [isSet, h]; rfl)
  exact ⟨receive_accepts hfree (accepts_of_valid hlines.1 hlines.2 halign hkind), rfl, rfl,
    replyTo_isAnswer hflags⟩

/-- Reading leaves the contents. -/
theorem stored_read (hread : p.flags = PACKET_READ) : mem.stored p = mem.buf := by
  have hset : isSet p PACKET_READ = true := by rw [isSet, hread]; rfl
  rw [stored, if_pos hset]

end SimpleMem

namespace Machine

/-! ## The simulation against the interpreter -/

variable {isize dsize : Word} {program buf : Nat → BitVec 8} {seen : List Part} {s s' : Machine}
  {t t' start : Seq (Nat → BitVec 8)} {ret : Stat} {rcv pc : Word} {regs : BitVec 5 → Word}
  {rv64 : Cpu MemName} {k : Nat}

/-- The memories of whole lines are attached to the core. -/
def attached (hilines : WholeLines isize) (hdlines : WholeLines dsize)
    (program : Nat → BitVec 8) (rcv : Word) :
    Attached MemName Mems (simMemories isize dsize program) rcv where
  ports := ports
  served _ := True
  data owed buf w := w.dmem.size = dsize ∧ w.dmem.buf = buf ∧ match owed with
    | none => w.dmem.busy = false
    | some (p, line) => w.dmem.Owes p line
  fetch owed w := w.imem.size = isize ∧ w.imem.buf = program ∧ match owed with
    | none => w.imem.busy = false
    | some p => w.imem.Owes p (lineOf isize program p.dst)
  takes_data {p mem w} hreq _ hfree := by
    obtain ⟨rfl, rfl, hfree⟩ := hfree
    obtain ⟨hreceive, howes⟩ := SimpleMem.receive_request hdlines hfree hreq.aligned hreq.flags
    refine ⟨{ w with dmem := w.dmem.taken () p }, ?_, ⟨rfl, rfl, howes⟩, fun _ => id⟩
    simp only [ports, Mems.send, hreceive]
    rfl
  takes_fetch {p w} hreq hfree := by
    obtain ⟨rfl, rfl, hfree⟩ := hfree
    obtain ⟨hreceive, howes⟩ :=
      SimpleMem.receive_request hilines hfree hreq.aligned (.inl hreq.flags)
    refine ⟨{ w with imem := w.imem.taken () p }, ?_,
      ⟨rfl, SimpleMem.stored_read hreq.flags, howes⟩, fun _ _ => id⟩
    simp only [ports, Mems.send, hreceive]
    rfl

section

variable (hilines : WholeLines isize) (hdlines : WholeLines dsize)

/-- The simulation and the interpreter fit together. `seen` are the components that were clocked
since the core was, and the core if it ever was: a memory that was clocked gave its answer, and a
core that was clocked sent its first fetch. -/
structure Inv (program : Nat → BitVec 8) (rcv : Word) (seen : List Part) (s : Machine)
    (t : Seq (Nat → BitVec 8)) : Prop where
  inv : (attached hilines hdlines program rcv).Inv s.rv64 s.mems t
  dmem : .dmem ∈ seen → s.rv64.dls.state ≠ .SENT
  imem : .imem ∈ seen → s.rv64.ils.state ≠ .SENT
  rv64 : s.rv64.ils.state = .BLOCKED ↔ .rv64 ∉ seen

/-- The simulation after the instruction that stopped it. -/
abbrev Stopped (program : Nat → BitVec 8) (rcv : Word) (s : Machine) (t : Seq (Nat → BitVec 8)) :
    Prop :=
  (attached hilines hdlines program rcv).Halted s.rv64 s.mems t

end

variable {hilines : WholeLines isize} {hdlines : WholeLines dsize}

/-! ### A memory is clocked -/

/-- A data memory that is busy owes the core an answer. -/
theorem Inv.owes_dmem (h : Inv hilines hdlines program rcv seen s t)
    (hbusy : s.mems.dmem.busy = true) : ∃ p line, s.mems.dmem.Owes p line := by
  cases h.inv.data with
  | idle _ _ hfree => simp [hfree.2.2] at hbusy
  | done _ _ hfree => simp [hfree.2.2] at hbusy
  | waiting _ _ line _ howed => exact ⟨_, line, howed.2.2⟩

/-- An instruction memory that is busy owes the core an answer. -/
theorem Inv.owes_imem (h : Inv hilines hdlines program rcv seen s t)
    (hbusy : s.mems.imem.busy = true) : ∃ p line, s.mems.imem.Owes p line := by
  cases h.inv.fetch with
  | first _ _ _ hfree => simp [hfree.2.2] at hbusy
  | done _ _ hfree => simp [hfree.2.2] at hbusy
  | waiting _ _ howed => exact ⟨_, _, howed.2.2⟩

/-- The answer of the data memory reaches the core. -/
theorem Inv.clock_dmem (h : Inv hilines hdlines program rcv seen s t) :
    ∃ s', s.clock .dmem = some (.OK, s') ∧
      Inv hilines hdlines program rcv (.dmem :: seen) s' t := by
  cases hbusy : s.mems.dmem.busy with
  | false =>
      have hsent : s.rv64.dls.state ≠ .SENT := by
        cases h.inv.data with
        | idle hstate => simp [hstate]
        | done hstate => simp [hstate]
        | waiting _ _ _ _ howed => simp [howed.2.2.busy] at hbusy
      exact ⟨s, by simp [clock, SimpleMem.clock, hbusy], h.inv, fun _ => hsent,
        fun hin => h.imem (by simpa using hin), by simpa using h.rv64⟩
  | true =>
      obtain ⟨p, line, howes⟩ := h.owes_dmem hbusy
      obtain ⟨c', hreceive, hinv, hdone, hils, -⟩ := h.inv.receive_data
        { s.mems with dmem := { s.mems.dmem with busy := false } }
        (fun buf hfree => by simp [hfree.2.2] at hbusy)
        (fun howed => ⟨howed.2.2.answer, howed.1, howed.2.1, rfl⟩) (fun _ => id)
      refine ⟨⟨c', { s.mems with dmem := { s.mems.dmem with busy := false } }⟩, ?_, hinv,
        fun _ => by simp [hdone], fun hin => ?_, by simpa [hils] using h.rv64⟩
      · simp [clock, SimpleMem.clock, hbusy, howes.send, reply, hreceive]
      · rw [hils]
        exact h.imem (by simpa using hin)

/-- The answer of the instruction memory reaches the core. -/
theorem Inv.clock_imem (h : Inv hilines hdlines program rcv seen s t) :
    ∃ s', s.clock .imem = some (.OK, s') ∧
      Inv hilines hdlines program rcv (.imem :: seen) s' t := by
  cases hbusy : s.mems.imem.busy with
  | false =>
      have hsent : s.rv64.ils.state ≠ .SENT := by
        cases h.inv.fetch with
        | first _ hstate => simp [hstate]
        | done hstate => simp [hstate]
        | waiting _ _ howed => simp [howed.2.2.busy] at hbusy
      exact ⟨s, by simp [clock, SimpleMem.clock, hbusy], h.inv,
        fun hin => h.dmem (by simpa using hin), fun _ => hsent, by simpa using h.rv64⟩
  | true =>
      obtain ⟨p, line, howes⟩ := h.owes_imem hbusy
      obtain ⟨c', hreceive, hinv, hdone, hdls, hsent⟩ := h.inv.receive_fetch
        { s.mems with imem := { s.mems.imem with busy := false } }
        (fun hfree => by simp [hfree.2.2] at hbusy)
        (fun howed => ⟨howed.2.2.answer, howed.1, howed.2.1, rfl⟩) (fun _ _ => id)
      refine ⟨⟨c', { s.mems with imem := { s.mems.imem with busy := false } }⟩, ?_, hinv,
        fun hin => ?_, fun _ => by simp [hdone], ?_⟩
      · simp [clock, SimpleMem.clock, hbusy, howes.send, reply, hreceive]
      · rw [hdls]
        exact h.dmem (by simpa using hin)
      · simpa [hdone, hsent] using h.rv64

/-! ### The core is clocked -/

/-- A core that waits for an answer, or has yet to fetch its first instruction. -/
theorem Inv.core_waits (h : Inv hilines hdlines program rcv seen s t)
    (hwait : s.rv64.dls.state = .SENT ∨ s.rv64.ils.state ≠ .DONE) :
    ∃ s', s.clock .rv64 = some (.OK, s') ∧ Inv hilines hdlines program rcv [.rv64] s' t := by
  obtain ⟨c', w', hclock, hinv, hcase⟩ := h.inv.waits hwait
  refine ⟨⟨c', w'⟩, ?_, hinv, by simp, by simp, ?_⟩
  · have hclock : Cpu.simpleRiscv64Clock ports s.rv64 s.mems = some (.OK, c', w') := hclock
    simp [clock, hclock]
  · obtain ⟨hsent, rfl, -⟩ | ⟨-, -, hstate⟩ := hcase
    · cases h.inv.fetch with
      | first hidle => simp [hsent] at hidle
      | waiting hstate => simp [hstate]
      | done hstate => simp [hstate]
    · simp [hstate]

/-- A core that has its instruction word and the answer to its last data request makes the step of
the interpreter. -/
theorem Inv.core_runs (h : Inv hilines hdlines program rcv seen s t)
    (hsent : s.rv64.dls.state ≠ .SENT) (hdone : s.rv64.ils.state = .DONE)
    (hstep : t.step (simMemories isize dsize program) = some (ret, t'))
    (hnext : ret = .OK → t'.core.fetch.isSome) :
    ∃ s', s.clock .rv64 = some (ret, s') ∧
      (ret = .OK → Inv hilines hdlines program rcv [.rv64] s' t') ∧
      (ret ≠ .OK → Stopped hilines hdlines program rcv s' t') := by
  obtain ⟨c', w', hclock, hok, hstop⟩ :=
    h.inv.runs hsent hdone hstep (fun _ _ => trivial) hnext
  refine ⟨⟨c', w'⟩, ?_, fun hret => ⟨(hok hret).1, by simp, by simp, ?_⟩, hstop⟩
  · have hclock : Cpu.simpleRiscv64Clock ports s.rv64 s.mems = some (ret, c', w') := hclock
    simp [clock, hclock]
  · simp [(hok hret).2]

/-- The simulation follows the interpreter. -/
theorem follows : Attached.Follows clock .rv64 (simMemories isize dsize program) (fun _ => True)
    (fun s t => ∃ seen, Inv hilines hdlines program rcv seen s t)
    (Stopped hilines hdlines program rcv) where
  other {p s t} hne h := by
    obtain ⟨seen, h⟩ := h
    cases p with
    | rv64 => exact absurd rfl hne
    | imem =>
        obtain ⟨s', hclock, h'⟩ := h.clock_imem
        exact ⟨s', hclock, _, h'⟩
    | dmem =>
        obtain ⟨s', hclock, h'⟩ := h.clock_dmem
        exact ⟨s', hclock, _, h'⟩
  runs {s t} h := by
    obtain ⟨seen, h⟩ := h
    by_cases hwait : s.rv64.dls.state = .SENT ∨ s.rv64.ils.state ≠ .DONE
    · obtain ⟨s', hclock, h'⟩ := h.core_waits hwait
      exact .inl ⟨s', hclock, _, h'⟩
    · rw [not_or, not_not] at hwait
      refine .inr fun hgo => ?_
      obtain ⟨s', hclock, hok, hstop⟩ := h.core_runs hwait.1 hwait.2 hgo.step hgo.fetch
      exact ⟨s', hclock, fun hret => ⟨_, hok hret⟩, hstop⟩

/-! ### Any schedule -/

/-- The simulation before its first clock. -/
def init (isize dsize : Word) (program buf : Nat → BitVec 8) (rv64 : Cpu MemName) : Machine :=
  ⟨rv64, createSimpleMem isize program, createSimpleMem dsize buf⟩

theorem init_inv (hcreate : Cpu.create rcv pc regs = some rv64) :
    Inv hilines hdlines program rcv [] (init isize dsize program buf rv64)
      (.init ⟨rcv, regs, pc⟩ buf) := by
  refine ⟨.create hcreate ⟨rfl, rfl, rfl⟩ ⟨rfl, rfl, rfl⟩, by simp, by simp, ?_⟩
  obtain ⟨pkt, -, hcreate⟩ := Option.bind_eq_some_iff.1 hcreate
  cases hcreate
  simp [init]

/-- The state of a run against the one of the interpreter: they executed the same instructions and
hold the same data. -/
structure Agrees (ret : Stat) (s : Machine) (t : Seq (Nat → BitVec 8)) : Prop where
  trace : s.rv64.trace = t.trace
  buf : s.mems.dmem.buf = t.mem
  core : ret ≠ .OK → s.rv64.toCore = t.core

theorem Inv.agrees (h : Inv hilines hdlines program rcv seen s t) : Agrees .OK s t := by
  refine ⟨h.inv.trace, ?_, fun hne => absurd rfl hne⟩
  cases h.inv.data with
  | idle _ _ hfree => exact hfree.2.1
  | done _ _ hfree => exact hfree.2.1
  | waiting _ _ _ _ howed => exact howed.2.1

theorem Stopped.agrees (h : Stopped hilines hdlines program rcv s t) : Agrees ret s t :=
  ⟨h.trace, h.data.2.1, fun _ => h.core⟩

/-- However its components are clocked, in any order and at any frequencies, the simulation
executes what the interpreter executes on the contents of its memories: no assertion fails unless an
access of the program crosses a line, the core never runs ahead of its clocks, the data memory holds
what the interpreter's holds, and a run that an instruction stops ends with its status and in the
state of the interpreter. -/
theorem simpleRiscv64_schedule (hilines : WholeLines isize) (hdlines : WholeLines dsize)
    (hcreate : Cpu.create rcv pc regs = some rv64)
    (hcross : Timing.NeverCrosses (simMemories isize dsize program) (.init ⟨rcv, regs, pc⟩ buf))
    (schedule : List Part) :
    ∃ ret s k t, (init isize dsize program buf rv64).run schedule = some (ret, s) ∧
      (Seq.init ⟨rcv, regs, pc⟩ buf).run (simMemories isize dsize program) k = some (ret, t) ∧
      k ≤ schedule.count .rv64 ∧ Agrees ret s t := by
  have hinit : Inv hilines hdlines program rcv [] (init isize dsize program buf rv64)
      (.init ⟨rcv, regs, pc⟩ buf) := init_inv hcreate
  obtain ⟨ret, s, k, t, hrun, hseq, hle, hend⟩ := follows.clockUntil hcross
    (fun _ _ _ _ _ _ => trivial) ⟨_, hinit⟩ (k := 0) rfl schedule
  refine ⟨ret, s, k, t, hrun, hseq, by omega, ?_⟩
  obtain ⟨rfl, seen, hinv⟩ | ⟨-, hstop⟩ := hend
  · exact hinv.agrees
  · exact Stopped.agrees hstop

/-- The bytes of `sw x1, 0(x0)` and of an instruction that stops the core. -/
def storeProgram : Nat → BitVec 8 := fun i => [0x23, 0x20, 0x10, 0x00, 0x73].getD i 0

/-- A core that runs it with sevens in its registers. -/
def storer : Cpu MemName :=
  { rcv := 0, regs := fun _ => 7, pc := 0
    dls := .idle
    ils := ⟨⟨64, 0, 15, 0, fun _ => 0, PACKET_READ⟩, .BLOCKED, 0, false⟩
    cls := .idle, ctrl := none, sleep := false, trace := [] }

theorem storer_create : Cpu.create 0 0 (fun _ => 7) = some storer := rfl

/-- The interpreter stores and stops. -/
theorem storeProgram_run : ∃ t, (Seq.init ⟨0, fun _ => 7, 0⟩ fun _ => 0).run
    (simMemories 64 64 storeProgram) 2 = some (.DONE, t) ∧ t.mem 0 = 7 := ⟨_, rfl, rfl⟩

theorem storeProgram_neverCrosses : Timing.NeverCrosses (simMemories 64 64 storeProgram)
    (.init ⟨0, fun _ => 7, 0⟩ fun _ => 0) := by
  obtain ⟨t, hstop, -⟩ := storeProgram_run
  exact Seq.neverCrosses_of_run hstop (by simp)

/-- The core is clocked far more often than its memories. -/
theorem simpleRiscv64_schedule_store :
    ∃ ret s k t, (init 64 64 storeProgram (fun _ => 0) storer).run
        [.rv64, .rv64, .imem, .rv64, .rv64, .imem, .rv64, .dmem, .rv64, .imem, .rv64] =
          some (ret, s) ∧
      (Seq.init ⟨0, fun _ => 7, 0⟩ fun _ => 0).run (simMemories 64 64 storeProgram) k =
        some (ret, t) ∧ k ≤ 7 ∧ Agrees ret s t :=
  simpleRiscv64_schedule (by decide) (by decide) storer_create storeProgram_neverCrosses _

/-! ### Ticks of a clock domain -/

/-- Memories that are clocked one after the other. -/
theorem Inv.clockAll (h : Inv hilines hdlines program rcv seen s t) {ps : List Part}
    (hps : .rv64 ∉ ps) :
    ∃ s', Gran.clockAll clock ps s = some (List.replicate ps.length .OK, s') ∧
      Inv hilines hdlines program rcv (ps.reverse ++ seen) s' t := by
  induction ps generalizing seen s with
  | nil => exact ⟨s, rfl, h⟩
  | cons p ps ih =>
      obtain ⟨s₁, hclock, h₁⟩ : ∃ s', s.clock p = some (.OK, s') ∧
          Inv hilines hdlines program rcv (p :: seen) s' t := by
        cases p with
        | rv64 => simp at hps
        | imem => exact h.clock_imem
        | dmem => exact h.clock_dmem
      obtain ⟨s₂, hall, h₂⟩ := ih h₁ fun hin => hps (List.mem_cons_of_mem _ hin)
      refine ⟨s₂, clockAll_cons hclock hall, ?_⟩
      rw [List.reverse_cons, List.append_assoc]
      exact h₂

/-- Nothing happens in the rest of the tick in which the core stopped. -/
theorem Stopped.clockAll (h : Stopped hilines hdlines program rcv s t) {ps : List Part}
    (hps : .rv64 ∉ ps) :
    Gran.clockAll clock ps s = some (List.replicate ps.length .OK, s) := by
  induction ps with
  | nil => rfl
  | cons p ps ih =>
      have hrest := ih fun hin => hps (List.mem_cons_of_mem _ hin)
      cases p with
      | rv64 => simp at hps
      | imem =>
          simp [Gran.clockAll, clock, SimpleMem.clock, h.fetch.2.2, hrest, List.replicate_succ]
      | dmem =>
          simp [Gran.clockAll, clock, SimpleMem.clock, h.data.2.2, hrest, List.replicate_succ]

/-- The core is clocked once in a tick, and both memories are. -/
structure Round (before after : List Part) : Prop where
  notBefore : .rv64 ∉ before
  notAfter : .rv64 ∉ after
  imem : .imem ∈ before ++ .rv64 :: after
  dmem : .dmem ∈ before ++ .rv64 :: after

theorem Round.of_count {cs : List Part} (hcore : cs.count .rv64 = 1) (himem : .imem ∈ cs)
    (hdmem : .dmem ∈ cs) : ∃ before after, cs = before ++ .rv64 :: after ∧ Round before after := by
  obtain ⟨before, after, rfl, hbefore, hafter⟩ := split_of_count hcore
  exact ⟨before, after, rfl, hbefore, hafter, himem, hdmem⟩

section

variable {before after : List Part} (hround : Round before after)
include hround

/-- The first tick sends the first fetch. -/
theorem Inv.first_tick (h : Inv hilines hdlines program rcv [] s t) :
    ∃ rs s', Gran.clockAll clock (before ++ .rv64 :: after) s = some (rs, s') ∧
      sticky .OK rs = .OK ∧ Inv hilines hdlines program rcv (after.reverse ++ [.rv64]) s' t := by
  obtain ⟨s₁, hall₁, h₁⟩ := h.clockAll hround.notBefore
  have hblocked : s₁.rv64.ils.state = .BLOCKED := h₁.rv64.2 (by simpa using hround.notBefore)
  obtain ⟨s₂, hclock, h₂⟩ := h₁.core_waits (.inr (by simp [hblocked]))
  obtain ⟨s₃, hall₃, h₃⟩ := h₂.clockAll hround.notAfter
  exact ⟨_, s₃, clockAll_append hall₁ (clockAll_cons hclock hall₃), sticky_one _ _ _, h₃⟩

/-- Every later tick runs an instruction. -/
theorem Inv.tick (h : Inv hilines hdlines program rcv (after.reverse ++ [.rv64]) s t)
    (hstep : t.step (simMemories isize dsize program) = some (ret, t'))
    (hnext : ret = .OK → t'.core.fetch.isSome) :
    ∃ rs s', Gran.clockAll clock (before ++ .rv64 :: after) s = some (rs, s') ∧
      sticky .OK rs = ret ∧ Agrees ret s' t' ∧
      (ret = .OK → Inv hilines hdlines program rcv (after.reverse ++ [.rv64]) s' t') := by
  obtain ⟨s₁, hall₁, h₁⟩ := h.clockAll hround.notBefore
  have hsent : s₁.rv64.dls.state ≠ .SENT := h₁.dmem (by
    simpa [or_comm, or_assoc] using hround.dmem)
  have himem : s₁.rv64.ils.state ≠ .SENT := h₁.imem (by
    simpa [or_comm, or_assoc] using hround.imem)
  have hdone : s₁.rv64.ils.state = .DONE := by
    cases h₁.inv.fetch with
    | first _ hstate => exact absurd hstate (h₁.rv64.not.2 (by simp))
    | waiting hstate => exact absurd hstate himem
    | done hstate => exact hstate
  obtain ⟨s₂, hclock, hok, hstop⟩ := h₁.core_runs hsent hdone hstep hnext
  -- the memories that are clocked after the core
  obtain ⟨s₃, hall₃, hagrees, h₃⟩ : ∃ s', Gran.clockAll clock after s₂ =
      some (List.replicate after.length .OK, s') ∧ Agrees ret s' t' ∧
      (ret = .OK → Inv hilines hdlines program rcv (after.reverse ++ [.rv64]) s' t') := by
    by_cases hret : ret = .OK
    · obtain ⟨s₃, hall₃, h₃⟩ := (hok hret).clockAll hround.notAfter
      exact ⟨s₃, hall₃, hret ▸ h₃.agrees, fun _ => h₃⟩
    · exact ⟨s₂, Stopped.clockAll (hstop hret) hround.notAfter, Stopped.agrees (hstop hret),
        fun h => absurd h hret⟩
  exact ⟨_, s₃, clockAll_append hall₁ (clockAll_cons hclock hall₃), sticky_one _ _ _, hagrees, h₃⟩

/-- After `k + 1` ticks the simulation is where the interpreter is after `k` instructions. -/
theorem Inv.ticks (h : Inv hilines hdlines program rcv [] s start)
    (hseq : start.run (simMemories isize dsize program) k = some (ret, t))
    (hnext : ret = .OK → t.core.fetch.isSome) :
    ∃ s', Gran.ticks clock (before ++ .rv64 :: after) s (k + 1) = some (ret, s') ∧
      Agrees ret s' t ∧
      (ret = .OK → Inv hilines hdlines program rcv (after.reverse ++ [.rv64]) s' t) := by
  induction k generalizing ret t with
  | zero =>
      cases hseq
      obtain ⟨rs, s', hall, hsticky, h'⟩ := h.first_tick hround
      exact ⟨s', by simp [Gran.ticks, hall, hsticky], h'.agrees, fun _ => h'⟩
  | succ k ih =>
      obtain ⟨⟨r, u⟩, hk, hseq⟩ := Option.bind_eq_some_iff.1 hseq
      simp only [Option.bind_eq_bind, Option.bind_eq_some_iff, Option.guard_eq_some'] at hseq
      obtain ⟨-, rfl, hstep⟩ := hseq
      obtain ⟨s₁, hticks, -, h₁⟩ := ih hk fun _ => Seq.fetch_isSome (by rw [hstep]; rfl)
      obtain ⟨rs, s', hall, hsticky, hagrees, h'⟩ := (h₁ rfl).tick hround hstep hnext
      refine ⟨s', ?_, hagrees, h'⟩
      rw [Gran.ticks, hticks]
      simp [hall, hsticky]

end

/-- `root_run` on one clock domain that clocks the core once in a tick, and both memories in any
order around it, sends the first fetch in its first tick and runs one instruction in each tick after
it: after `k + 1` ticks it has executed what the interpreter executes in `k` instructions, and it
ends exactly in the tick of the instruction that stops the interpreter, with its status and in its
state. -/
theorem simpleRiscv64_rootRun (hilines : WholeLines isize) (hdlines : WholeLines dsize)
    (hcreate : Cpu.create rcv pc regs = some rv64) {components : List Part}
    (hcore : components.count .rv64 = 1) (himem : .imem ∈ components) (hdmem : .dmem ∈ components)
    (period : Word)
    (hseq : (Seq.init ⟨rcv, regs, pc⟩ buf).run (simMemories isize dsize program) k = some (ret, t))
    (hnext : ret = .OK → t.core.fetch.isSome) :
    ∃ (log : List (TickRecord 0)) (l : RootLoop 0 Part (Option Machine)) (s : Machine),
      RootRun (clockOrAbort clock) (createdDomains (fun _ => period) fun _ => components)
        (some (init isize dsize program buf rv64)) log l ∧
      log.length = k + 1 ∧ l.ret = ret ∧ l.world = some s ∧ Agrees ret s t := by
  obtain ⟨before, after, rfl, hround⟩ := Round.of_count hcore himem hdmem
  have hinit : Inv hilines hdlines program rcv [] (init isize dsize program buf rv64)
      (.init ⟨rcv, regs, pc⟩ buf) := init_inv hcreate
  obtain ⟨s, hticks, hagrees, -⟩ := hinit.ticks hround hseq hnext
  obtain ⟨log, l, hrun, hlen, hret, hworld, -⟩ := rootRun_ticks period hticks
  exact ⟨log, l, s, hrun, hlen, hret, hworld, hagrees⟩

/-- A store is followed by the instruction that stops the core: three ticks. -/
theorem simpleRiscv64_rootRun_store :
    ∃ (log : List (TickRecord 0)) (l : RootLoop 0 Part (Option Machine)) (s : Machine),
      RootRun (clockOrAbort clock)
        (createdDomains (fun _ => 1000000) fun _ => [.rv64, .imem, .dmem])
        (some (init 64 64 storeProgram (fun _ => 0) storer)) log l ∧
      log.length = 3 ∧ l.ret = .DONE ∧ l.world = some s ∧ s.mems.dmem.buf 0 = 7 := by
  obtain ⟨t, hseq, hmem⟩ := storeProgram_run
  have hcore : [Part.rv64, .imem, .dmem].count .rv64 = 1 := rfl
  obtain ⟨log, l, s, hrun, hlen, hret, hworld, hagrees⟩ := simpleRiscv64_rootRun (by decide)
    (by decide) storer_create hcore (by simp) (by simp) 1000000 hseq (by simp)
  exact ⟨log, l, s, hrun, hlen, hret, hworld, by rw [hagrees.buf, hmem]⟩

end Machine

end Gran
