import Gran.Bus.SimpleBus
import Gran.Cpu.System
import Gran.Uart.SimpleUart

/-!
# A core with a UART

The simulation of `tests/simple_uart/sim.c`: a core, a memory it fetches from, and a bus that takes
its data requests to a data memory or to a UART and the replies back to the core. `console_schedule`
says that it does what the sequential interpreter does, and prints what the interpreter prints,
however its components are clocked, and `console_rootRun` that `root_run` ends it.
-/

namespace Gran

/-- What is mapped on the bus. -/
inductive BusEnd where
  | dmem | uart | rv64
deriving DecidableEq

/-- The components that send to the core. -/
inductive Caller where
  | imem | bus

/-- The components of the simulation. -/
inductive ConsolePart where
  | rv64 | dmem | imem | bus | uart
deriving DecidableEq

/-- What is around the core. Only the core sends to its instruction memory, and only the bus to the
data memory and the UART. -/
structure Around where
  imem : SimpleMem Unit
  dmem : SimpleMem Unit
  bus : SimpleBus BusEnd
  uart : SimpleUart Unit

/-- What `main` builds. -/
structure Console where
  rv64 : Cpu Caller
  around : Around

/-- The component mapped at an address. -/
def busRegion (regions : List (BusRegion BusEnd)) (addr : Word) : Option BusEnd :=
  (findBusRegion regions addr).map (·.component)

namespace Console

variable (regions : List (BusRegion BusEnd))

/-- `SEND` to the instruction memory. -/
def toImem (p : Packet) (w : Around) : Option (Stat × Around) := do
  let (r, imem) ← w.imem.receive () p
  pure (r, { w with imem })

/-- `SEND` to the bus. -/
def toBus (sender : BusEnd) (p : Packet) (w : Around) : Option (Stat × Around) :=
  let (r, bus) := simpleBusReceive regions w.bus sender p
  some (r, { w with bus })

/-- `SEND` of the core. -/
def ports : CpuPorts Caller Around where
  imem := toImem
  dmem := toBus regions .rv64
  ctrl
    | .imem => toImem
    | .bus => toBus regions .rv64

/-- `SEND` to the core. -/
def toCore (k : Caller) (p : Packet) (s : Console) : Option (Stat × Console) := do
  let (r, rv64, around) ← s.rv64.simpleRiscv64Receive (ports regions) k p s.around
  pure (r, ⟨rv64, around⟩)

/-- `SEND` of the bus. -/
def fromBus (e : BusEnd) (p : Packet) (s : Console) : Option (Stat × Console) :=
  match e with
  | .dmem => do
      let (r, dmem) ← s.around.dmem.receive () p
      pure (r, { s with around := { s.around with dmem } })
  | .uart => do
      let (r, uart) ← s.around.uart.receive () p
      pure (r, { s with around := { s.around with uart } })
  | .rv64 => toCore regions .bus p s

/-- `SEND` of a component on the bus. -/
def answer (e : BusEnd) (p : Packet) (s : Console) : Option (Stat × Console) := do
  let (r, around) ← toBus regions e p s.around
  pure (r, { s with around })

/-- The clock of a component. A component is busy while it sends, so that nothing else changes it.
-/
def clock (p : ConsolePart) (s : Console) : Option (Stat × Console) :=
  match p with
  | .rv64 => do
      let (r, rv64, around) ← s.rv64.simpleRiscv64Clock (ports regions) s.around
      pure (r, ⟨rv64, around⟩)
  | .imem => do
      let (imem, s) ← s.around.imem.clock (fun _ => toCore regions .imem) s
      pure (.OK, { s with around := { s.around with imem } })
  | .dmem => do
      let (dmem, s) ← s.around.dmem.clock (fun _ => answer regions .dmem) s
      pure (.OK, { s with around := { s.around with dmem } })
  | .uart => do
      let (uart, s) ← s.around.uart.clock (fun _ => answer regions .uart) s
      pure (.OK, { s with around := { s.around with uart } })
  | .bus => do
      let (r, bus, s) ← simpleBusClock (fromBus regions) s.around.bus s
      pure (r, { s with around := { s.around with bus } })

/-! ## The interpreter -/

/-- The contents of the data memory and what was printed. -/
structure Devices where
  buf : Nat → BitVec 8
  output : List (BitVec 8)

/-- The sizes of the memories, the program, the regions of the bus and the address of the core,
which the bus takes answers back to. -/
structure Setup where
  regions : List (BusRegion BusEnd)
  isize : Word
  dsize : Word
  rcv : Word
  program : Nat → BitVec 8
  ilines : WholeLines isize
  dlines : WholeLines dsize
  core : busRegion regions rcv = some .rv64

namespace Setup

variable (sys : Setup)

/-- A request for the UART prints its byte, and the others are applied to the data memory. -/
def apply (d : Devices) (p : Packet) : Devices × Line :=
  if busRegion sys.regions p.dst = some .uart then
    ({ d with output := d.output ++ (packetConvu8 p).toList }, p.data)
  else
    ({ d with buf := (createSimpleMem sys.dsize d.buf : SimpleMem Unit).stored p },
      lineOf sys.dsize d.buf p.dst)

/-- The memories that the interpreter is run with. -/
def memories : Memories Devices where
  imem p := lineOf sys.isize sys.program p.dst
  apply := sys.apply

/-- A request is for the data memory, or one of a byte for the UART. -/
def Served (p : Packet) : Prop :=
  busRegion sys.regions p.dst = some .dmem ∨
    busRegion sys.regions p.dst = some .uart ∧ packetConvsize p = some 1

instance (p : Packet) : Decidable (sys.Served p) := inferInstanceAs (Decidable (_ ∨ _))

/-- The simulation before its first clock. -/
def init (buf : Nat → BitVec 8) (rv64 : Cpu Caller) : Console :=
  ⟨rv64, createSimpleMem sys.isize sys.program, createSimpleMem sys.dsize buf, ⟨none, .zero, false⟩,
    createSimpleUart⟩

end Setup

/-! ## The way of a data request -/

/-- Nothing is under way on the bus. -/
structure Idle (w : Around) : Prop where
  bus : w.bus.busy = false
  dmem : w.dmem.busy = false
  uart : w.uart.busy = false

/-- How many components have a data request before the core has the answer. -/
def dataRank (w : Around) : Nat :=
  if w.bus.busy then if w.bus.send = some .rv64 then 1 else 3
  else if w.dmem.busy || w.uart.busy then 2 else 0

namespace Setup

variable (sys : Setup)

/-- The data memory and the UART are those of the interpreter. -/
structure Holds (d : Devices) (w : Around) : Prop where
  size : w.dmem.size = sys.dsize
  buf : w.dmem.buf = d.buf
  output : w.uart.output = d.output

/-- Where a data request is that is answered with a line: the bus has it, and the devices are those
of the interpreter before it, or the data memory or the UART has the answer, or the bus has. -/
inductive Underway (p : Packet) (line : Line) (d : Devices) (w : Around) : Prop where
  | request (e : BusEnd) (hbus : w.bus = ⟨some e, p, true⟩) (hdmem : w.dmem.busy = false)
      (huart : w.uart.busy = false) (hreq : Core.IsDataRequest sys.rcv p)
      (hregion : busRegion sys.regions p.dst = some e) (hserved : sys.Served p) (before : Devices)
      (hholds : sys.Holds before w) (happly : sys.apply before p = (d, line))
  | dmem (hbus : w.bus.busy = false) (huart : w.uart.busy = false) (howes : w.dmem.Owes p line)
      (hreq : Core.IsDataRequest sys.rcv p) (hholds : sys.Holds d w)
  | uart (hbus : w.bus.busy = false) (hdmem : w.dmem.busy = false) (hbusy : w.uart.busy = true)
      (hsend : w.uart.send = some ()) (hanswer : IsAnswer p line w.uart.pkt)
      (hreq : Core.IsDataRequest sys.rcv p) (hholds : sys.Holds d w)
  | reply (hbusy : w.bus.busy = true) (hsend : w.bus.send = some .rv64)
      (hdmem : w.dmem.busy = false) (huart : w.uart.busy = false)
      (hanswer : IsAnswer p line w.bus.pkt) (hholds : sys.Holds d w)

/-- The answer that the bus owes the core: there is none, or it is under way. -/
def DataOwed : Option (Packet × Line) → Devices → Around → Prop
  | none, d, w => Idle w ∧ sys.Holds d w
  | some (p, line), d, w => sys.Underway p line d w

/-- The answer that the instruction memory owes the core. -/
structure FetchOwed (owed : Option Packet) (w : Around) : Prop where
  size : w.imem.size = sys.isize
  buf : w.imem.buf = sys.program
  owed : match owed with
    | none => w.imem.busy = false
    | some p => w.imem.Owes p (lineOf sys.isize sys.program p.dst)

end Setup

variable {sys : Setup} {w w' : Around} {p pkt : Packet} {line : Line} {d : Devices}
  {bus : SimpleBus BusEnd} {sender e : BusEnd} {uart : SimpleUart Unit}

/-- The bus takes a packet for a component that is mapped. -/
theorem receive_mapped {regions : List (BusRegion BusEnd)} (hfree : bus.busy = false)
    (h : busRegion regions p.dst = some e) :
    simpleBusReceive regions bus sender p = (.OK, ⟨some e, p, true⟩) := by
  obtain ⟨region, hfind, rfl⟩ := Option.map_eq_some_iff.1 h
  simp [simpleBusReceive, hfree, hfind]

/-- The bus takes an answer back to the core. -/
theorem receive_answer (hfree : bus.busy = false) (hreq : Core.IsDataRequest sys.rcv p)
    (hans : IsAnswer p line pkt) :
    simpleBusReceive sys.regions bus sender pkt = (.OK, ⟨some .rv64, pkt, true⟩) :=
  receive_mapped hfree (by rw [hans.dst, hreq.src, sys.core])

/-- A UART after a request of one byte. -/
def printed (uart : SimpleUart Unit) (p : Packet) : SimpleUart Unit where
  send := some ()
  pkt := setFlags (response p) PACKET_DONE
  busy := true
  output := uart.output ++ (packetConvu8 p).toList

/-- A free UART prints the byte of a request of a core. -/
theorem receive_byte (hfree : uart.busy = false) {rcv : Word} (hreq : Core.IsDataRequest rcv p)
    (hsize : packetConvsize p = some 1) : uart.receive () p = some (.OK, printed uart p) := by
  obtain ⟨size, haccess⟩ := hreq.access
  obtain rfl : size = 1 := Option.some.inj (haccess.convsize.symm.trans hsize)
  obtain ⟨v, hv⟩ := haccess.conv
  simp [SimpleUart.receive, hfree, hsize, packetConvu8, hv, printed]

/-- The UART answers a request for data with its own line. -/
theorem printed_isAnswer {rcv : Word} (hreq : Core.IsDataRequest rcv p) :
    IsAnswer p p.data (printed uart p).pkt := by
  have hflags := hreq.flags
  refine ⟨rfl, rfl, ?_, ?_, fun _ _ _ => rfl⟩ <;>
    rcases hflags with h | h <;> simp only [isSet, printed, setFlags_flags, response_flags, h] <;>
    rfl

namespace Setup

/-- Nothing that was printed is taken back. -/
theorem apply_output {before : Devices} (h : sys.apply before p = (d, line)) :
    before.output <+: d.output := by
  unfold apply at h
  split at h <;> cases h
  · exact List.prefix_append _ _
  · exact List.prefix_rfl

/-- The instruction memory has no part in it. -/
theorem Underway.kept (h : sys.Underway p line d w) (hbus : w'.bus = w.bus)
    (hdmem : w'.dmem = w.dmem) (huart : w'.uart = w.uart) : sys.Underway p line d w' := by
  obtain ⟨imem, dmem, bus, uart⟩ := w
  obtain ⟨imem', dmem', bus', uart'⟩ := w'
  obtain rfl : bus' = bus := hbus
  obtain rfl : dmem' = dmem := hdmem
  obtain rfl : uart' = uart := huart
  have hkept {d : Devices} (h : sys.Holds d ⟨imem, dmem', bus', uart'⟩) :
      sys.Holds d ⟨imem', dmem', bus', uart'⟩ := ⟨h.size, h.buf, h.output⟩
  cases h with
  | request e hbus hdmem huart hreq hregion hserved before hholds happly =>
      exact .request e hbus hdmem huart hreq hregion hserved before (hkept hholds) happly
  | dmem hbus huart howes hreq hholds => exact .dmem hbus huart howes hreq (hkept hholds)
  | uart hbus hdmem hbusy hsend hanswer hreq hholds =>
      exact .uart hbus hdmem hbusy hsend hanswer hreq (hkept hholds)
  | reply hbusy hsend hdmem huart hanswer hholds =>
      exact .reply hbusy hsend hdmem huart hanswer (hkept hholds)

/-- The bus gives a request to the data memory. -/
theorem Underway.bus_dmem (h : sys.Underway p line d w) (hbusy : w.bus.busy = true)
    (hsend : w.bus.send = some .dmem) :
    w.dmem.receive () w.bus.pkt = some (.OK, w.dmem.taken () w.bus.pkt) ∧
      sys.Underway p line d
        { w with dmem := w.dmem.taken () w.bus.pkt, bus := { w.bus with busy := false } } := by
  cases h with
  | dmem hbus => simp [hbus] at hbusy
  | uart hbus => simp [hbus] at hbusy
  | reply _ hsend' => simp [hsend'] at hsend
  | request e hbus hdmem huart hreq hregion hserved before hholds happly =>
      obtain rfl : e = .dmem := by simpa [hbus] using hsend
      have hlines : WholeLines w.dmem.size := by
        rw [hholds.size]
        exact sys.dlines
      obtain ⟨hreceive, howes⟩ := SimpleMem.receive_request hlines hdmem hreq.aligned hreq.flags
      rw [hbus]
      refine ⟨hreceive, .dmem rfl huart ?_ hreq ⟨hholds.size, ?_, ?_⟩⟩ <;>
        simp only [apply, hregion, Option.some.injEq, reduceCtorEq, if_false, Prod.mk.injEq]
          at happly <;> obtain ⟨rfl, rfl⟩ := happly
      · rw [hholds.size, hholds.buf] at howes
        exact howes
      · rw [← hholds.size, ← hholds.buf]
        rfl
      · exact hholds.output

/-- The bus gives a request to the UART. -/
theorem Underway.bus_uart (h : sys.Underway p line d w) (hbusy : w.bus.busy = true)
    (hsend : w.bus.send = some .uart) :
    w.uart.receive () w.bus.pkt = some (.OK, printed w.uart w.bus.pkt) ∧
      sys.Underway p line d
        { w with uart := printed w.uart w.bus.pkt, bus := { w.bus with busy := false } } := by
  cases h with
  | dmem hbus => simp [hbus] at hbusy
  | uart hbus => simp [hbus] at hbusy
  | reply _ hsend' => simp [hsend'] at hsend
  | request e hbus hdmem huart hreq hregion hserved before hholds happly =>
      obtain rfl : e = .uart := by simpa [hbus] using hsend
      have hsize : packetConvsize p = some 1 := by
        obtain h | ⟨-, h⟩ := hserved
        · simp [hregion] at h
        · exact h
      rw [hbus]
      simp only [apply, hregion, if_true, Prod.mk.injEq] at happly
      obtain ⟨rfl, rfl⟩ := happly
      exact ⟨receive_byte huart hreq hsize, .uart rfl hdmem rfl rfl (printed_isAnswer hreq) hreq
        ⟨hholds.size, hholds.buf, congrArg (· ++ _) hholds.output⟩⟩

/-- The bus gives the answer to the core. -/
theorem Underway.bus_rv64 (h : sys.Underway p line d w) (hbusy : w.bus.busy = true)
    (hsend : w.bus.send = some .rv64) :
    IsAnswer p line w.bus.pkt ∧ Idle { w with bus := { w.bus with busy := false } } ∧
      sys.Holds d { w with bus := { w.bus with busy := false } } := by
  cases h with
  | dmem hbus => simp [hbus] at hbusy
  | uart hbus => simp [hbus] at hbusy
  | request e hbus _ _ _ hregion hserved =>
      obtain rfl : e = .rv64 := by simpa [hbus] using hsend
      obtain h | ⟨h, -⟩ := hserved <;> simp [hregion] at h
  | reply _ _ hdmem huart hanswer hholds =>
      exact ⟨hanswer, ⟨rfl, hdmem, huart⟩, hholds.size, hholds.buf, hholds.output⟩

/-- The data memory gives its answer to the bus. -/
theorem Underway.answer_dmem (h : sys.Underway p line d w) (hbusy : w.dmem.busy = true) :
    w.dmem.send = some () ∧ w.bus.busy = false ∧
      simpleBusReceive sys.regions w.bus .dmem w.dmem.pkt =
        (.OK, ⟨some .rv64, w.dmem.pkt, true⟩) ∧
      sys.Underway p line d
        { w with
          dmem := { w.dmem with busy := false }
          bus := ⟨some .rv64, w.dmem.pkt, true⟩ } := by
  cases h with
  | request _ _ hdmem => simp [hdmem] at hbusy
  | uart _ hdmem => simp [hdmem] at hbusy
  | reply _ _ hdmem => simp [hdmem] at hbusy
  | dmem hbus huart howes hreq hholds =>
      exact ⟨howes.send, hbus, receive_answer hbus hreq howes.answer,
        .reply rfl rfl rfl huart howes.answer ⟨hholds.size, hholds.buf, hholds.output⟩⟩

/-- The UART gives its answer to the bus. -/
theorem Underway.answer_uart (h : sys.Underway p line d w) (hbusy : w.uart.busy = true) :
    w.uart.send = some () ∧ w.bus.busy = false ∧
      simpleBusReceive sys.regions w.bus .uart w.uart.pkt =
        (.OK, ⟨some .rv64, w.uart.pkt, true⟩) ∧
      sys.Underway p line d
        { w with
          uart := { w.uart with busy := false }
          bus := ⟨some .rv64, w.uart.pkt, true⟩ } := by
  cases h with
  | request _ _ _ huart => simp [huart] at hbusy
  | dmem _ huart => simp [huart] at hbusy
  | reply _ _ _ huart => simp [huart] at hbusy
  | uart hbus hdmem _ hsend hanswer hreq hholds =>
      exact ⟨hsend, hbus, receive_answer hbus hreq hanswer,
        .reply rfl rfl hdmem rfl hanswer ⟨hholds.size, hholds.buf, hholds.output⟩⟩

/-! ## The simulation against the interpreter -/

/-- What is owed is the same when only the instruction memory changed. -/
theorem DataOwed.kept {owed : Option (Packet × Line)} (h : sys.DataOwed owed d w)
    (hbus : w'.bus = w.bus) (hdmem : w'.dmem = w.dmem) (huart : w'.uart = w.uart) :
    sys.DataOwed owed d w' := by
  match owed, h with
  | none, ⟨hidle, hholds⟩ =>
      exact ⟨⟨by rw [hbus, hidle.bus], by rw [hdmem, hidle.dmem], by rw [huart, hidle.uart]⟩,
        by rw [hdmem, hholds.size], by rw [hdmem, hholds.buf], by rw [huart, hholds.output]⟩
  | some (p, line), h => exact Underway.kept h hbus hdmem huart

/-- A fetch is owed as long as the instruction memory does not change. -/
theorem FetchOwed.kept {owed : Option Packet} (h : sys.FetchOwed owed w)
    (himem : w'.imem = w.imem) : sys.FetchOwed owed w' := by
  obtain ⟨hsize, hbuf, howed⟩ := h
  rw [← himem] at hsize hbuf howed
  exact ⟨hsize, hbuf, howed⟩

/-- The bus takes a data request that is served. -/
theorem takes_data (hreq : Core.IsDataRequest sys.rcv p) (hserved : sys.Served p)
    (h : sys.DataOwed none d w) : ∃ w', (ports sys.regions).dmem p w = some (.OK, w') ∧
      sys.DataOwed (some (p, (sys.memories.apply d p).2)) (sys.memories.apply d p).1 w' ∧
      ∀ owed, sys.FetchOwed owed w → sys.FetchOwed owed w' := by
  obtain ⟨hidle, hholds⟩ := h
  obtain ⟨e, hregion⟩ : ∃ e, busRegion sys.regions p.dst = some e := by
    obtain h | ⟨h, -⟩ := hserved
    · exact ⟨_, h⟩
    · exact ⟨_, h⟩
  refine ⟨{ w with bus := ⟨some e, p, true⟩ }, ?_, .request e rfl hidle.dmem hidle.uart hreq
    hregion hserved d ⟨hholds.size, hholds.buf, hholds.output⟩ rfl,
    fun owed h => h.kept rfl⟩
  simp only [ports, toBus, receive_mapped hidle.bus hregion]

/-- The instruction memory takes a fetch. -/
theorem takes_fetch (hreq : IsRequest (sys.rcv + 64) 4 PACKET_READ p)
    (h : sys.FetchOwed none w) : ∃ w', (ports sys.regions).imem p w = some (.OK, w') ∧
      sys.FetchOwed (some p) w' ∧ ∀ owed d, sys.DataOwed owed d w → sys.DataOwed owed d w' := by
  have hlines : WholeLines w.imem.size := by
    rw [h.size]
    exact sys.ilines
  obtain ⟨hreceive, howes⟩ :=
    SimpleMem.receive_request hlines h.owed hreq.aligned (.inl hreq.flags)
  rw [h.size, h.buf] at howes
  refine ⟨{ w with imem := w.imem.taken () p }, ?_,
    ⟨h.size, (SimpleMem.stored_read hreq.flags).trans h.buf, howes⟩,
    fun owed d hdata => hdata.kept rfl rfl rfl⟩
  simp only [ports, toImem, hreceive]
  rfl

variable (sys) in
/-- The instruction memory and the bus are attached to the core. -/
def attached : Attached Caller Around sys.memories sys.rcv where
  ports := ports sys.regions
  served := sys.Served
  data := sys.DataOwed
  fetch := sys.FetchOwed
  takes_data := takes_data
  takes_fetch := takes_fetch

variable (sys) in
/-- The simulation and the interpreter fit together. -/
abbrev Inv (s : Console) (t : Seq Devices) : Prop := sys.attached.Inv s.rv64 s.around t

variable (sys) in
/-- The simulation after the instruction that stopped it. -/
abbrev Stopped (s : Console) (t : Seq Devices) : Prop := sys.attached.Halted s.rv64 s.around t

end Setup

/-- How many clocks a fetch takes before the core has the instruction. -/
def fetchRank : LdstState → Nat
  | .BLOCKED => 2
  | .SENT => 1
  | .IDLE | .DONE => 0

def rank (s : Console) : Nat := dataRank s.around + fetchRank s.rv64.ils.state

/-- The component that has to be clocked next. -/
def next (s : Console) : ConsolePart :=
  if s.around.bus.busy then .bus
  else if s.around.dmem.busy then .dmem
  else if s.around.uart.busy then .uart
  else if s.rv64.ils.state = .SENT then .imem
  else .rv64

/-- At most three components have a data request before the core has the answer. -/
theorem dataRank_le : dataRank w ≤ 3 := by
  unfold dataRank
  split_ifs <;> omega

/-- A fetch takes two clocks at most. -/
theorem fetchRank_le (state : LdstState) : fetchRank state ≤ 2 := by
  cases state <;> simp [fetchRank]

/-- Nothing is owed while nothing is under way. -/
theorem Idle.rank (h : Idle w) : dataRank w = 0 := by
  simp [dataRank, h.bus, h.dmem, h.uart]

/-- The component whose turn it is has something to do. -/
theorem next_busy {s : Console} : ∀ {p}, next s = p → match p with
    | .bus => s.around.bus.busy = true
    | .dmem => s.around.dmem.busy = true
    | .uart => s.around.uart.busy = true
    | .imem => s.rv64.ils.state = .SENT
    | .rv64 => True := by
  rintro p rfl
  unfold next
  split_ifs <;> first | assumption | trivial

/-- The instruction memory is next when only a fetch is under way. -/
theorem next_idle {s : Console} (h : Idle s.around) (hsent : s.rv64.ils.state = .SENT) :
    next s = .imem := by
  simp [next, h.bus, h.dmem, h.uart, hsent]

/-- The core is not next while data is under way. -/
theorem next_of_busy {s : Console} (h : ¬ Idle s.around) : next s ≠ .rv64 := by
  intro hnext
  unfold next at hnext
  split_ifs at hnext with hbus hdmem huart
  exact h ⟨by simpa using hbus, by simpa using hdmem, by simpa using huart⟩

namespace Setup

variable {s : Console} {t : Seq Devices}

/-- A data request is under way when a component it passes is busy. -/
theorem Inv.underway (h : sys.Inv s t) (hbusy : ¬ Idle s.around) :
    ∃ line, sys.Underway s.rv64.dls.pkt line t.mem s.around := by
  cases h.data with
  | idle _ _ hfree => exact absurd hfree.1 hbusy
  | done _ _ hfree => exact absurd hfree.1 hbusy
  | waiting _ _ line _ howed => exact ⟨line, howed⟩

/-- The data request goes on its way. -/
theorem Inv.moved (h : sys.Inv s t) (hbusy : ¬ Idle s.around) (himem : w.imem = s.around.imem)
    (hway : ∀ {p line d}, sys.Underway p line d s.around → sys.Underway p line d w) :
    sys.Inv ⟨s.rv64, w⟩ t := by
  refine h.kept (fun owed d hdata => ?_) fun owed hfetch => ?_
  · match owed, hdata with
    | none, ⟨hidle, _⟩ => exact absurd hidle hbusy
    | some (p, line), hdata => exact hway hdata
  · exact FetchOwed.kept hfetch himem

/-- Nothing is under way when the core waits for no answer. -/
theorem Inv.idle (h : sys.Inv s t) (hsent : s.rv64.dls.state ≠ .SENT) :
    Idle s.around ∧ sys.Holds t.mem s.around := by
  cases h.data with
  | idle _ _ hfree => exact hfree
  | done _ _ hfree => exact hfree
  | waiting hstate => exact absurd hstate hsent

/-- Data that the core waits for is under way. -/
theorem Inv.not_idle (h : sys.Inv s t) (hsent : s.rv64.dls.state = .SENT) : ¬ Idle s.around := by
  intro hidle
  cases h.data with
  | idle hstate => simp [hsent] at hstate
  | done hstate => simp [hsent] at hstate
  | waiting _ _ _ _ howed =>
      cases howed with
      | request _ hbus => simpa [hbus] using hidle.bus
      | dmem _ _ howes => simpa [howes.busy] using hidle.dmem
      | uart _ _ hbusy => simpa [hbusy] using hidle.uart
      | reply hbusy => simpa [hbusy] using hidle.bus

/-! ### A component is clocked -/

variable (sys) in
/-- A clock that no instruction is run in. -/
def Waits (p : ConsolePart) (s : Console) (t : Seq Devices) : Prop :=
  ∃ s', clock sys.regions p s = some (.OK, s') ∧ sys.Inv s' t ∧
    Attached.Closer rank next [p] s s'

/-- A component that has nothing to do. -/
theorem Inv.unchanged (h : sys.Inv s t) {p : ConsolePart}
    (hclock : clock sys.regions p s = some (.OK, s)) (hnext : next s ≠ p) : sys.Waits p s t :=
  ⟨s, hclock, h, .inr ⟨rfl, rfl, by simpa using hnext⟩⟩

/-- The data memory gives its answer to the bus. -/
theorem Inv.clock_dmem (h : sys.Inv s t) : sys.Waits .dmem s t := by
  cases hbusy : s.around.dmem.busy with
  | false =>
      exact h.unchanged (by simp [clock, SimpleMem.clock, hbusy]) fun hnext => by
        simpa [hbusy] using next_busy hnext
  | true =>
      have hway : ¬ Idle s.around := fun hidle => by simp [hidle.dmem] at hbusy
      obtain ⟨line, hunder⟩ := h.underway hway
      obtain ⟨hsend, hbus, hreceive, -⟩ := hunder.answer_dmem hbusy
      refine ⟨_, ?_, h.moved hway (w := { s.around with
        dmem := { s.around.dmem with busy := false }
        bus := ⟨some .rv64, s.around.dmem.pkt, true⟩ }) rfl
          fun hunder => (hunder.answer_dmem hbusy).2.2.2, .inl ?_⟩
      · simp [clock, SimpleMem.clock, hbusy, hsend, answer, toBus, hreceive]
      · simp [rank, dataRank, hbus, hbusy]

/-- The UART gives its answer to the bus. -/
theorem Inv.clock_uart (h : sys.Inv s t) : sys.Waits .uart s t := by
  cases hbusy : s.around.uart.busy with
  | false =>
      exact h.unchanged (by simp [clock, SimpleUart.clock, hbusy]) fun hnext => by
        simpa [hbusy] using next_busy hnext
  | true =>
      have hway : ¬ Idle s.around := fun hidle => by simp [hidle.uart] at hbusy
      obtain ⟨line, hunder⟩ := h.underway hway
      obtain ⟨hsend, hbus, hreceive, -⟩ := hunder.answer_uart hbusy
      refine ⟨_, ?_, h.moved hway (w := { s.around with
        uart := { s.around.uart with busy := false }
        bus := ⟨some .rv64, s.around.uart.pkt, true⟩ }) rfl
          fun hunder => (hunder.answer_uart hbusy).2.2.2, .inl ?_⟩
      · simp [clock, SimpleUart.clock, hbusy, hsend, answer, toBus, hreceive]
      · simp [rank, dataRank, hbus, hbusy]

/-- The bus gives its packet to the component it is for. -/
theorem Inv.clock_bus (h : sys.Inv s t) : sys.Waits .bus s t := by
  cases hbusy : s.around.bus.busy with
  | false =>
      exact h.unchanged (by simp [clock, simpleBusClock, hbusy]) fun hnext => by
        simpa [hbusy] using next_busy hnext
  | true =>
      have hway : ¬ Idle s.around := fun hidle => by simp [hidle.bus] at hbusy
      obtain ⟨line, hunder⟩ := h.underway hway
      obtain ⟨e, hsend⟩ : ∃ e, s.around.bus.send = some e := by
        cases hunder with
        | request e hbus => exact ⟨e, by rw [hbus]⟩
        | dmem hbus => simp [hbus] at hbusy
        | uart hbus => simp [hbus] at hbusy
        | reply _ hsend => exact ⟨_, hsend⟩
      cases e with
      | dmem =>
          have hreceive := (hunder.bus_dmem hbusy hsend).1
          refine ⟨_, ?_, h.moved hway (w := { s.around with
            dmem := s.around.dmem.taken () s.around.bus.pkt
            bus := { s.around.bus with busy := false } }) rfl
              fun hunder => (hunder.bus_dmem hbusy hsend).2, .inl ?_⟩
          · simp [clock, simpleBusClock, hbusy, hsend, fromBus, hreceive]
          · simp [rank, dataRank, hbusy, hsend, SimpleMem.taken]
      | uart =>
          have hreceive := (hunder.bus_uart hbusy hsend).1
          refine ⟨_, ?_, h.moved hway (w := { s.around with
            uart := printed s.around.uart s.around.bus.pkt
            bus := { s.around.bus with busy := false } }) rfl
              fun hunder => (hunder.bus_uart hbusy hsend).2, .inl ?_⟩
          · simp [clock, simpleBusClock, hbusy, hsend, fromBus, hreceive]
          · simp [rank, dataRank, hbusy, hsend, printed]
      | rv64 =>
          obtain ⟨c', hreceive, hinv, -, hils, -⟩ := h.receive_data
            { s.around with bus := { s.around.bus with busy := false } }
            (fun d hfree => hway hfree.1) (fun howed => howed.bus_rv64 hbusy hsend)
            fun _ hfetch => FetchOwed.kept hfetch rfl
          refine ⟨⟨c', { s.around with bus := { s.around.bus with busy := false } }⟩, ?_, hinv,
            .inl ?_⟩
          · simp [clock, simpleBusClock, hbusy, hsend, fromBus, toCore, hreceive]
          · have hidle := (hunder.bus_rv64 hbusy hsend).2.1
            have hdmem : s.around.dmem.busy = false := hidle.dmem
            have huart : s.around.uart.busy = false := hidle.uart
            simp [rank, hils, dataRank, hbusy, hsend, hdmem, huart]

/-- The answer of the instruction memory reaches the core. -/
theorem Inv.clock_imem (h : sys.Inv s t) : sys.Waits .imem s t := by
  cases hbusy : s.around.imem.busy with
  | false =>
      have hsent : s.rv64.ils.state ≠ .SENT := by
        cases h.fetch with
        | first _ hstate => simp [hstate]
        | done hstate => simp [hstate]
        | waiting _ _ howed => simp [howed.owed.busy] at hbusy
      exact h.unchanged (by simp [clock, SimpleMem.clock, hbusy])
        fun hnext => hsent (next_busy hnext)
  | true =>
      obtain ⟨c', hreceive, hinv, hdone, -, hsent⟩ := h.receive_fetch
        { s.around with imem := { s.around.imem with busy := false } }
        (fun hfree => by simp [hfree.owed] at hbusy)
        (fun howed => ⟨howed.owed.answer, howed.size, howed.buf, rfl⟩)
        fun owed d hdata => DataOwed.kept hdata rfl rfl rfl
      obtain ⟨p, howes⟩ : ∃ p, s.around.imem.Owes p (lineOf sys.isize sys.program p.dst) := by
        cases h.fetch with
        | first _ hstate => simp [hsent] at hstate
        | done hstate => simp [hsent] at hstate
        | waiting _ _ howed => exact ⟨_, howed.owed⟩
      refine ⟨⟨c', { s.around with imem := { s.around.imem with busy := false } }⟩, ?_, hinv,
        .inl ?_⟩
      · simp [clock, SimpleMem.clock, hbusy, howes.send, toCore, hreceive]
      · simp [rank, dataRank, fetchRank, hdone, hsent]

/-- A core that waits for an answer, or has yet to fetch its first instruction. -/
theorem Inv.core_waits (h : sys.Inv s t)
    (hwait : s.rv64.dls.state = .SENT ∨ s.rv64.ils.state ≠ .DONE) : sys.Waits .rv64 s t := by
  obtain ⟨c', w', hclock, hinv, hcase⟩ := h.waits hwait
  have hclock : Cpu.simpleRiscv64Clock (ports sys.regions) s.rv64 s.around = some (.OK, c', w') :=
    hclock
  refine ⟨⟨c', w'⟩, by simp [clock, hclock], hinv, ?_⟩
  obtain ⟨hsent, rfl, rfl⟩ | ⟨hsent, hidle, hstate⟩ := hcase
  · exact .inr ⟨rfl, rfl, by simpa using next_of_busy (h.not_idle hsent)⟩
  · -- no data request is under way, before or after it
    have hbefore := (h.idle hsent).1
    have hafter : Idle w' := (Inv.idle (s := ⟨c', w'⟩) hinv (by simp [hidle])).1
    cases h.fetch with
    | first _ hblocked =>
        exact .inl (by simp [rank, hbefore.rank, hafter.rank, fetchRank, hblocked, hstate])
    | waiting hwaiting =>
        refine .inr ⟨?_, ?_, ?_⟩
        · simp [rank, hbefore.rank, hafter.rank, hwaiting, hstate]
        · rw [next_idle hbefore hwaiting, next_idle hafter hstate]
        · simp [next_idle hbefore hwaiting]
    | done hdone =>
        obtain h | h := hwait
        · exact absurd h hsent
        · exact absurd hdone h

/-- A core that has its instruction word and the answer to its last data request makes the step of
the interpreter. -/
theorem Inv.core_runs (h : sys.Inv s t) (hsent : s.rv64.dls.state ≠ .SENT)
    (hdone : s.rv64.ils.state = .DONE) {ret : Stat} {t' : Seq Devices}
    (hgo : Attached.GoesOn sys.memories sys.Served t ret t') :
    ∃ s', clock sys.regions .rv64 s = some (ret, s') ∧
      (ret = .OK → sys.Inv s' t' ∧ rank s' ≤ 4) ∧ (ret ≠ .OK → sys.Stopped s' t') := by
  obtain ⟨c', w', hclock, hok, hstop⟩ := h.runs hsent hdone hgo.step hgo.served hgo.fetch
  have hclock : Cpu.simpleRiscv64Clock (ports sys.regions) s.rv64 s.around = some (ret, c', w') :=
    hclock
  refine ⟨⟨c', w'⟩, by simp [clock, hclock], fun hret => ⟨(hok hret).1, ?_⟩, hstop⟩
  have hle : dataRank w' ≤ 3 := dataRank_le
  simp only [rank, (hok hret).2, fetchRank]
  omega

/-- Nothing is left to do when the core stopped. -/
theorem Stopped.clock_other (h : sys.Stopped s t) {p : ConsolePart} (hne : p ≠ .rv64) :
    clock sys.regions p s = some (.OK, s) := by
  have hidle : Idle s.around := h.data.1
  cases p with
  | rv64 => exact absurd rfl hne
  | dmem => simp [clock, SimpleMem.clock, hidle.dmem]
  | imem => simp [clock, SimpleMem.clock, h.fetch.owed]
  | bus => simp [clock, simpleBusClock, hidle.bus]
  | uart => simp [clock, SimpleUart.clock, hidle.uart]

/-- A clock of another component runs no instruction. -/
theorem clock_other {p : ConsolePart} (hne : p ≠ .rv64) (h : sys.Inv s t) : sys.Waits p s t := by
  cases p with
  | rv64 => exact absurd rfl hne
  | dmem => exact h.clock_dmem
  | imem => exact h.clock_imem
  | bus => exact h.clock_bus
  | uart => exact h.clock_uart

/-- A clock of the core runs no instruction, or the one of the interpreter. -/
theorem clock_core (h : sys.Inv s t) : sys.Waits .rv64 s t ∨
    ∀ {ret t'}, Attached.GoesOn sys.memories sys.Served t ret t' →
      ∃ s', clock sys.regions .rv64 s = some (ret, s') ∧
        (ret = .OK → sys.Inv s' t' ∧ rank s' ≤ 4) ∧ (ret ≠ .OK → sys.Stopped s' t') := by
  by_cases hwait : s.rv64.dls.state = .SENT ∨ s.rv64.ils.state ≠ .DONE
  · exact .inl (h.core_waits hwait)
  · rw [not_or, not_not] at hwait
    exact .inr fun hgo => h.core_runs hwait.1 hwait.2 hgo

variable (sys) in
/-- The simulation follows the interpreter, with a rank that a tick of all components decreases. -/
def paced : Attached.Paced (clock sys.regions) .rv64 sys.memories sys.Served sys.Inv
    sys.Stopped where
  rank := rank
  next := next
  top := 4
  other := clock_other
  runs := clock_core
  stopped hne h := Stopped.clock_other h hne

/-! ### Any schedule -/

variable {regs : BitVec 5 → Word} {pc : Word} {buf : Nat → BitVec 8} {rv64 : Cpu Caller}
  {ret : Stat} {k : Nat}

/-- A new console is in step with the interpreter. -/
theorem init_inv (hcreate : Cpu.create sys.rcv pc regs = some rv64) :
    sys.Inv (sys.init buf rv64) (.init ⟨sys.rcv, regs, pc⟩ ⟨buf, []⟩) :=
  .create hcreate ⟨⟨rfl, rfl, rfl⟩, rfl, rfl, rfl⟩ ⟨rfl, rfl, rfl⟩

end Setup

/-- The state of a run against the one of the interpreter: they executed the same instructions, and
printed the same, but for the byte that is on its way to the UART. After the instruction that
stopped it nothing is. -/
structure Agrees (ret : Stat) (s : Console) (t : Seq Devices) : Prop where
  trace : s.rv64.trace = t.trace
  printed : s.around.uart.output <+: t.mem.output
  core : ret ≠ .OK → s.rv64.toCore = t.core
  buf : ret ≠ .OK → s.around.dmem.buf = t.mem.buf
  output : ret ≠ .OK → s.around.uart.output = t.mem.output

namespace Setup

variable {regs : BitVec 5 → Word} {pc : Word} {buf : Nat → BitVec 8} {rv64 : Cpu Caller}
  {ret : Stat} {k : Nat} {s : Console} {t : Seq Devices}

/-- A running console agrees with the interpreter. -/
theorem Inv.agrees (h : sys.Inv s t) : Agrees .OK s t := by
  have hprinted : s.around.uart.output <+: t.mem.output := by
    cases h.data with
    | idle _ _ hfree => rw [hfree.2.output]
    | done _ _ hfree => rw [hfree.2.output]
    | waiting _ _ _ _ howed =>
        cases howed with
        | request e _ _ _ _ _ _ before hholds happly =>
            rw [hholds.output]
            exact apply_output happly
        | dmem _ _ _ _ hholds => rw [hholds.output]
        | uart _ _ _ _ _ _ hholds => rw [hholds.output]
        | reply _ _ _ _ _ hholds => rw [hholds.output]
  exact ⟨h.trace, hprinted, fun hne => absurd rfl hne, fun hne => absurd rfl hne,
    fun hne => absurd rfl hne⟩

/-- A stopped console agrees with the interpreter. -/
theorem Stopped.agrees (h : sys.Stopped s t) : Agrees ret s t := by
  obtain ⟨-, hholds⟩ := h.data
  exact ⟨h.trace, by rw [hholds.output], fun _ => h.core, fun _ => hholds.buf,
    fun _ => hholds.output⟩

end Setup

/-! ## The program of the test -/

/-- `simple_hello` of `tests/simple_uart/sim.c`, in a memory of zeros. -/
def simpleHello : Nat → BitVec 8 := fun i =>
  [0xb7, 0x17, 0x00, 0x00, 0x13, 0x07, 0x80, 0x04, 0x23, 0x80, 0xe7, 0x00, 0x13, 0x07, 0x50, 0x06,
    0x23, 0x80, 0xe7, 0x00, 0x13, 0x07, 0xc0, 0x06, 0x23, 0x80, 0xe7, 0x00, 0x23, 0x80, 0xe7, 0x00,
    0x13, 0x07, 0xf0, 0x06, 0x23, 0x80, 0xe7, 0x00, 0x13, 0x07, 0x10, 0x02, 0x23, 0x80, 0xe7, 0x00,
    0x13, 0x07, 0xa0, 0x00, 0x23, 0x80, 0xe7, 0x00, 0x73, 0x00, 0x10, 0x00, 0x67, 0x80, 0x00,
    0x00].getD i 0

/-- What `main` adds to the bus. -/
def helloRegions : List (BusRegion BusEnd) :=
  let dmem := (simpleBusAdd [] BusEnd.dmem 0 4096).2
  let uart := (simpleBusAdd dmem .uart 4096 1).2
  (simpleBusAdd uart .rv64 8192 4096).2

/-- The core is at 8192. -/
theorem helloRegions_core : busRegion helloRegions 8192 = some .rv64 := by
  decide

/-- A page is made of whole lines. -/
theorem wholeLines_page : WholeLines 4096 := by
  decide

/-- What `main` builds. -/
def hello : Setup where
  regions := helloRegions
  isize := 4096
  dsize := 4096
  rcv := 8192
  program := simpleHello
  ilines := wholeLines_page
  dlines := wholeLines_page
  core := helloRegions_core

/-- The core that `main` creates. -/
def greeter : Cpu Caller :=
  { rcv := 8192, regs := fun _ => 0, pc := 0
    dls := .idle
    ils := ⟨⟨8256, 0, 15, 0, fun _ => 0, PACKET_READ⟩, .BLOCKED, 0, false⟩
    cls := .idle, ctrl := none, sleep := false, trace := [] }

/-- The core of the example is created. -/
theorem greeter_create : Cpu.create hello.rcv 0 (fun _ => 0) = some greeter := rfl

/-- The interpreter before the first instruction. -/
def helloStart : Seq Devices := .init ⟨8192, fun _ => 0, 0⟩ ⟨fun _ => 0, []⟩

/-- The interpreter runs fifteen instructions, and prints `Hello!` and a line feed. -/
theorem hello_run : ∃ t, helloStart.run hello.memories 15 = some (.DONE, t) ∧
    t.mem.output = [0x48, 0x65, 0x6c, 0x6c, 0x6f, 0x21, 0x0a] ∧
    ∀ p ∈ t.accepted, hello.Served p := by
  have hrun : (helloStart.run hello.memories 15).map (fun x =>
      (x.1, x.2.mem.output, decide (∀ p ∈ x.2.accepted, hello.Served p))) =
      some (.DONE, [0x48, 0x65, 0x6c, 0x6c, 0x6f, 0x21, 0x0a], true) := by
    decide +kernel
  obtain ⟨⟨ret, t⟩, hseq, heq⟩ := Option.map_eq_some_iff.1 hrun
  simp only [Prod.mk.injEq, decide_eq_true_eq] at heq
  obtain ⟨rfl, houtput, hserved⟩ := heq
  exact ⟨t, hseq, houtput, hserved⟩

/-! ## What the simulation does -/

/-- However its components are clocked, in any order and at any frequencies, the simulation executes
what the interpreter executes whose requests are applied to the data memory or printed: no assertion
fails unless an access of the program crosses a line or is one that neither the data memory nor the
UART serves, the core never runs ahead of its clocks, the UART prints the bytes of the interpreter
in its order, and a run that an instruction stops ends with its status, in its state and with all
that it printed. -/
theorem console_schedule {regs : BitVec 5 → Word} {pc : Word} {buf : Nat → BitVec 8}
    {rv64 : Cpu Caller} (hcreate : Cpu.create sys.rcv pc regs = some rv64)
    (hcross : Timing.NeverCrosses sys.memories (.init ⟨sys.rcv, regs, pc⟩ ⟨buf, []⟩))
    (hserved : ∀ k ret t, (Seq.init ⟨sys.rcv, regs, pc⟩ ⟨buf, []⟩).run sys.memories k =
      some (ret, t) → ∀ p ∈ t.accepted, sys.Served p)
    (schedule : List ConsolePart) :
    ∃ ret s k t, clockUntil (clock sys.regions) schedule (sys.init buf rv64) = some (ret, s) ∧
      (Seq.init ⟨sys.rcv, regs, pc⟩ ⟨buf, []⟩).run sys.memories k = some (ret, t) ∧
      k ≤ schedule.count .rv64 ∧ Agrees ret s t := by
  have hinit : sys.Inv (sys.init buf rv64) (.init ⟨sys.rcv, regs, pc⟩ ⟨buf, []⟩) :=
    Setup.init_inv hcreate
  obtain ⟨ret, s, k, t, hrun, hseq, hle, hend⟩ :=
    sys.paced.follows.clockUntil hcross hserved hinit (k := 0) rfl schedule
  refine ⟨ret, s, k, t, hrun, hseq, by omega, ?_⟩
  obtain ⟨rfl, hinv⟩ | ⟨-, hstop⟩ := hend
  · exact Setup.Inv.agrees hinv
  · exact Setup.Stopped.agrees hstop

/-- The core is clocked before and far more often than the others. -/
theorem console_schedule_hello : ∃ ret s k t, clockUntil (clock hello.regions)
        [.rv64, .rv64, .imem, .rv64, .rv64, .uart, .imem, .rv64, .bus, .rv64]
        (hello.init (fun _ => 0) greeter) = some (ret, s) ∧
      helloStart.run hello.memories k = some (ret, t) ∧ k ≤ 6 ∧ Agrees ret s t := by
  obtain ⟨t, hseq, -, hserved⟩ := hello_run
  have hdone : Stat.DONE ≠ .OK := by simp
  exact console_schedule greeter_create (Seq.neverCrosses_of_run hseq hdone)
    (fun _ _ _ hj p hp => hserved p ((Seq.run_within hseq hdone hj).1 hp)) _

/-- `root_run` on one clock domain that clocks the core once in a tick, and the memories, the bus
and the UART in any order around it and any number of times, ends after at most five ticks an
instruction and two more, with the status of the instruction that stops the interpreter, in its
state and with all that it printed. -/
theorem console_rootRun {regs : BitVec 5 → Word} {pc : Word} {buf : Nat → BitVec 8}
    {rv64 : Cpu Caller} (hcreate : Cpu.create sys.rcv pc regs = some rv64)
    {components : List ConsolePart} (hcore : components.count .rv64 = 1)
    (hall : ∀ p, p ∈ components) (period : Word) {ret : Stat} {k : Nat} {t : Seq Devices}
    (hseq : (Seq.init ⟨sys.rcv, regs, pc⟩ ⟨buf, []⟩).run sys.memories k = some (ret, t))
    (hret : ret ≠ .OK) (hserved : ∀ p ∈ t.accepted, sys.Served p) :
    ∃ (log : List (TickRecord 0)) (l : RootLoop 0 ConsolePart (Option Console)) (s : Console),
      RootRun (clockOrAbort (clock sys.regions))
        (createdDomains (fun _ => period) fun _ => components) (some (sys.init buf rv64)) log l ∧
      log.length ≤ 5 * k + 2 ∧ l.ret = ret ∧ l.world = some s ∧ Agrees ret s t := by
  obtain ⟨before, after, rfl, hbefore, hafter⟩ := split_of_count hcore
  have hinit : sys.Inv (sys.init buf rv64) (.init ⟨sys.rcv, regs, pc⟩ ⟨buf, []⟩) :=
    Setup.init_inv hcreate
  have hpos : 0 < k := by
    rcases Nat.eq_zero_or_pos k with rfl | hpos
    · cases hseq
      exact absurd rfl hret
    · exact hpos
  obtain ⟨n, s, hticks, hstop, hle⟩ :=
    sys.paced.ticks hbefore hafter hall hseq hret hserved (j := 0) rfl hinit hpos
  have hrank : sys.paced.rank (sys.init buf rv64) ≤ 2 := by
    show 0 + fetchRank rv64.ils.state ≤ 2
    have := fetchRank_le rv64.ils.state
    omega
  have htop : sys.paced.top = 4 := rfl
  obtain ⟨log, l, hroot, hlen, hend, hworld, -⟩ := rootRun_ticks period hticks
  rw [htop] at hle
  exact ⟨log, l, s, hroot, by omega, hend, hworld, Setup.Stopped.agrees hstop⟩

/-- The simulation of the test prints `Hello!` and a line feed, and `root_run` returns `OK`. -/
theorem console_rootRun_hello :
    ∃ (log : List (TickRecord 0)) (l : RootLoop 0 ConsolePart (Option Console)) (s : Console),
      RootRun (clockOrAbort (clock hello.regions))
        (createdDomains (fun _ => 1000000) fun _ => [.rv64, .dmem, .imem, .bus, .uart])
        (some (hello.init (fun _ => 0) greeter)) log l ∧
      log.length ≤ 77 ∧ l.ret ≠ .OK ∧ l.returned = .OK ∧ l.world = some s ∧
      s.around.uart.output = [0x48, 0x65, 0x6c, 0x6c, 0x6f, 0x21, 0x0a] := by
  obtain ⟨t, hseq, houtput, hserved⟩ := hello_run
  have hcore : [ConsolePart.rv64, .dmem, .imem, .bus, .uart].count .rv64 = 1 := rfl
  have hall : ∀ p, p ∈ [ConsolePart.rv64, .dmem, .imem, .bus, .uart] := by
    intro p
    cases p <;> simp
  obtain ⟨log, l, s, hroot, hlen, hret, hworld, hagrees⟩ := console_rootRun
    greeter_create hcore hall 1000000 hseq (by simp) hserved
  exact ⟨log, l, s, hroot, hlen, by simp [hret], by simp [RootLoop.returned, hret],
    hworld, by rw [hagrees.output (by simp), houtput]⟩

end Console

end Gran
