import Gran.Bus.SimpleBus
import Gran.Foundations.Exchange
import Gran.Mem.AllocAnswers
import Gran.Simt.Cache
import Gran.Simt.SimtRiscv64
import Gran.Uart.SimpleUart

/-!
# Replies

Five components answer requests: the memory, the UART, the bus at an address where nothing is
mapped, the control port of a core, and the region allocator. Whoever made a request checks of the
reply that it was turned around, that it has the mask of the request, and that it says that the
request was done or that it failed. `Answerer` makes machines of the five that note down the
requests they take and the replies they send. The control port and the allocator turn a request
around and set no flag.
-/

namespace Gran

open Simt Exchange

/-- What the one who made a request checks of the reply. -/
structure Convention (request reply : Packet) : Prop where
  src : reply.src = request.dst
  dst : reply.dst = request.src
  mask : reply.mask = request.mask
  flag : isSet reply PACKET_DONE = true ∨ isSet reply PACKET_ERROR = true

/-- The reply is the request turned around with more flags, whatever its data. -/
structure Carries (extra : BitVec 32) (request reply : Packet) : Prop where
  src : reply.src = request.dst
  dst : reply.dst = request.src
  mask : reply.mask = request.mask
  flags : reply.flags = request.flags ||| extra

/-- The components that answer requests. `W` is what a core sends to. -/
inductive Answerer : Type 1 where
  | simpleMem (C : Type)
  | simpleUart (C : Type)
  | simpleBus {E : Type} (regions : List (BusRegion E))
  | simpleRiscv64 (C W : Type)
  | idealAlloc (tree : SearchTree.Store Region regionCmp)

/-- A packet is presented to a component, or it is clocked. `A` is what the component finds around
it meanwhile. -/
inductive Call (C A : Type) where
  | present (sender : C) (pkt : Packet) (around : A)
  | clock (around : A)

/-- What a component did with a packet that was presented to it. -/
def taking (r : Stat) (pkt : Packet) : List (Act Packet Packet) :=
  if r = .OK then [.took pkt] else []

/-- `SEND` to a component that gives the answer, with a note of the reply. -/
def noting {C : Type} (answer : Stat) (_ : C) (pkt : Packet) (acts : List (Act Packet Packet)) :
    Option (Stat × List (Act Packet Packet)) :=
  some (answer, acts ++ [.sent pkt (answer = .EBUSY)])

/-- The ports of a core, with notes of the replies of its control port. -/
def notingPorts {C W : Type} (ports : CpuPorts C W) :
    CpuPorts C (W × List (Act Packet Packet)) where
  dmem pkt x := do
    let (r, w) ← ports.dmem pkt x.1
    pure (r, w, x.2)
  imem pkt x := do
    let (r, w) ← ports.imem pkt x.1
    pure (r, w, x.2)
  ctrl k pkt x := do
    let (r, w) ← ports.ctrl k pkt x.1
    pure (r, w, x.2 ++ [.sent pkt (r = .EBUSY)])

namespace Answerer

/-- The state of a component. -/
abbrev State : Answerer → Type
  | simpleMem C => SimpleMem C
  | simpleUart C => SimpleUart C
  | simpleBus (E := E) _ => SimpleBus E
  | simpleRiscv64 C _ => Cpu C
  | idealAlloc tree => Alloc tree

/-- What happens to a component. Around a core are its ports and what is behind them, around the
allocator the answers to a reply that was refused before and to a new one, and around the others the
answer to the reply. -/
abbrev Event : Answerer → Type
  | simpleMem C => Call C Stat
  | simpleUart C => Call C Stat
  | simpleBus (E := E) _ => Call E Stat
  | simpleRiscv64 C W => Call C (CpuPorts C W × W)
  | idealAlloc _ => Call Unit (Stat × Stat)

/-- One event, with the requests taken and the replies sent. -/
def step : (k : Answerer) → k.State → k.Event → Option (k.State × List (Act Packet Packet))
  | simpleMem _, mem, .present sender pkt _ => do
      let (r, mem) ← mem.receive sender pkt
      pure (mem, taking r pkt)
  | simpleMem _, mem, .clock answer => mem.clock (noting answer) []
  | simpleUart _, uart, .present sender pkt _ => do
      let (r, uart) ← uart.receive sender pkt
      pure (uart, taking r pkt)
  | simpleUart _, uart, .clock answer => uart.clock (noting answer) []
  | simpleBus regions, bus, .present sender pkt _ =>
      let (r, bus) := simpleBusReceive regions bus sender pkt
      some (bus, taking r pkt)
  | simpleBus _, bus, .clock answer => do
      let (_, bus, acts) ← simpleBusClock (noting answer) bus []
      pure (bus, acts)
  | simpleRiscv64 _ _, c, .present sender pkt (ports, w) => do
      let (r, c', _, acts) ←
        Cpu.simpleRiscv64Receive (notingPorts ports) sender pkt c (w, [])
      pure (c', if pkt.dst = c.rcv + 128 then taking r pkt ++ acts else acts)
  | simpleRiscv64 _ _, c, .clock (ports, w) => do
      let (_, c, _, acts) ← Cpu.simpleRiscv64Clock (notingPorts ports) c (w, [])
      pure (c, acts)
  | idealAlloc _, a, .present _ pkt _ =>
      let (r, a) := Alloc.allocReceive a pkt
      some (a, taking r pkt)
  | idealAlloc _, a, .clock (again, now) => do
      let (_, a, offers) ← Alloc.allocClock again now a
      pure (a, offers.map fun o => .sent o.pkt (o.ret = .EBUSY))

/-- Nothing is left of earlier requests. -/
def Idle : (k : Answerer) → k.State → Prop
  | simpleMem _, mem => mem.busy = false
  | simpleUart _, uart => uart.busy = false
  | simpleBus _, bus => bus.busy = false
  | simpleRiscv64 _ _, c => c.cls.state = .IDLE
  | idealAlloc _, a => a.inn.busy = false ∧ a.out.busy = false

/-- The packets that a component answers itself. A bus passes others on. -/
def IsRequest : Answerer → Packet → Prop
  | simpleBus regions, pkt => findBusRegion regions pkt.dst = none
  | _, _ => True

/-- The flags that a component adds to a request. -/
def extra : Answerer → Packet → BitVec 32
  | simpleMem _, _ => PACKET_DONE
  | simpleUart _, pkt => SimpleUart.replyFlag pkt
  | simpleBus _, _ => PACKET_ERROR
  | simpleRiscv64 _ _, _ => 0
  | idealAlloc _, _ => 0

/-- The component says of every request what became of it, or the request has a flag already that
says so. -/
def Flags : Answerer → Packet → Prop
  | simpleRiscv64 _ _, pkt => isSet pkt PACKET_DONE = true ∨ isSet pkt PACKET_ERROR = true
  | idealAlloc _, pkt => isSet pkt PACKET_DONE = true ∨ isSet pkt PACKET_ERROR = true
  | _, _ => True

/-- The reply to a request. -/
def Right (k : Answerer) (request reply : Packet) : Prop :=
  k.IsRequest request → Carries (k.extra request) request reply

/-! ## One reply at a time -/

section Slots

variable {C E W : Type}

/-- The reply a component holds. -/
abbrev held (busy : Bool) (pkt : Packet) : Option Packet := (Reg.mk pkt busy).held

/-- A reply that was sent is held on to if it was refused. -/
theorem slotStep_send {k : Answerer} {pkt : Packet} {answer : Stat} :
    SlotStep k.Right (held true pkt) [.sent pkt (answer = .EBUSY)]
      (held (decide (answer = .EBUSY)) pkt) := by
  have hsend : SlotStep k.Right (some pkt) [.sent pkt (answer = .EBUSY)] _ := .send pkt _
  exact hsend

/-- `simple_mem` keeps its reply until it is taken. -/
theorem simpleMem_slotStep {mem mem' : SimpleMem C} {e : Call C Stat}
    {acts : List (Act Packet Packet)} (h : (simpleMem C).step mem e = some (mem', acts)) :
    SlotStep (simpleMem C).Right (held mem.busy mem.pkt) acts (held mem'.busy mem'.pkt) := by
  cases e with
  | present sender pkt answer =>
      obtain ⟨⟨r, t⟩, hreceive, h⟩ := Option.bind_eq_some_iff.1 h
      cases h
      obtain ⟨rfl, -, rfl⟩ | ⟨rfl, hfree, rfl⟩ := SimpleMem.receive_cases hreceive
      · exact .idle _
      · rw [hfree]
        refine .take pkt _ fun _ => ?_
        simp only [SimpleMem.taken, SimpleMem.replyTo]
        split
        · exact ⟨rfl, rfl, rfl, rfl⟩
        · exact ⟨rfl, rfl, rfl, rfl⟩
  | clock answer =>
      obtain ⟨receiver, pkt, busy, size, buf⟩ := mem
      cases busy with
      | false =>
          cases h
          exact .idle none
      | true =>
          cases receiver with
          | none => cases h
          | some receiver =>
              have hclock : (simpleMem C).step ⟨some receiver, pkt, true, size, buf⟩
                  (.clock answer) = some (⟨some receiver, pkt, decide (answer = .EBUSY), size, buf⟩,
                    [.sent pkt (answer = .EBUSY)]) := by
                cases answer <;> rfl
              cases hclock.symm.trans h
              exact slotStep_send

/-- `simple_uart` keeps its reply until it is taken. -/
theorem simpleUart_slotStep {uart uart' : SimpleUart C} {e : Call C Stat}
    {acts : List (Act Packet Packet)} (h : (simpleUart C).step uart e = some (uart', acts)) :
    SlotStep (simpleUart C).Right (held uart.busy uart.pkt) acts (held uart'.busy uart'.pkt) := by
  cases e with
  | present sender pkt answer =>
      obtain ⟨⟨r, t⟩, hreceive, h⟩ := Option.bind_eq_some_iff.1 h
      cases h
      obtain ⟨rfl, -, rfl⟩ | ⟨rfl, hfree, hbusy, -, hpkt⟩ := SimpleUart.receive_cases hreceive
      · exact .idle _
      · rw [hfree, hbusy, hpkt]
        exact .take pkt _ fun _ => ⟨rfl, rfl, rfl, rfl⟩
  | clock answer =>
      obtain ⟨receiver, pkt, busy, output⟩ := uart
      cases busy with
      | false =>
          cases h
          exact .idle none
      | true =>
          cases receiver with
          | none => cases h
          | some receiver =>
              have hclock : (simpleUart C).step ⟨some receiver, pkt, true, output⟩ (.clock answer) =
                  some (⟨some receiver, pkt, decide (answer = .EBUSY), output⟩,
                    [.sent pkt (answer = .EBUSY)]) := by
                cases answer <;> rfl
              cases hclock.symm.trans h
              exact slotStep_send

/-- `simple_bus` keeps its packet until it is taken. -/
theorem simpleBus_slotStep {regions : List (BusRegion E)} {bus bus' : SimpleBus E}
    {e : Call E Stat} {acts : List (Act Packet Packet)}
    (h : (simpleBus regions).step bus e = some (bus', acts)) :
    SlotStep (simpleBus regions).Right (held bus.busy bus.pkt) acts (held bus'.busy bus'.pkt) := by
  obtain ⟨receiver, pkt, busy⟩ := bus
  cases e with
  | present sender request answer =>
      replace h := Option.some.inj h
      cases busy with
      | true =>
          cases h
          exact .idle _
      | false =>
          cases hregion : findBusRegion regions request.dst with
          | none =>
              simp only [hregion] at h
              cases h
              exact .take request _ fun _ => ⟨rfl, rfl, rfl, rfl⟩
          | some region =>
              simp only [hregion] at h
              cases h
              refine .take request _ fun hrequest => ?_
              cases hregion.symm.trans hrequest
  | clock answer =>
      cases busy with
      | false =>
          cases h
          exact .idle none
      | true =>
          cases receiver with
          | none => cases h
          | some receiver =>
              have hclock : (simpleBus regions).step ⟨some receiver, pkt, true⟩ (.clock answer) =
                  some (⟨some receiver, pkt, decide (answer = .EBUSY)⟩,
                    [.sent pkt (answer = .EBUSY)]) := by
                cases answer <;> rfl
              cases hclock.symm.trans h
              exact slotStep_send

/-! ## The control port -/

variable {ports : CpuPorts C W} {c c' : Cpu C} {x x' : W × List (Act Packet Packet)} {r : Stat}
  {go : Bool}

/-- Asking for data is no reply. -/
theorem dmem_notes {pkt : Packet} (h : (notingPorts ports).dmem pkt x = some (r, x')) :
    x'.2 = x.2 := by
  obtain ⟨⟨r, w⟩, -, h⟩ := Option.bind_eq_some_iff.1 h
  cases h
  rfl

/-- Asking for an instruction is no reply. -/
theorem imem_notes {pkt : Packet} (h : (notingPorts ports).imem pkt x = some (r, x')) :
    x'.2 = x.2 := by
  obtain ⟨⟨r, w⟩, -, h⟩ := Option.bind_eq_some_iff.1 h
  cases h
  rfl

/-- Neither the control acknowledgement nor the notes change. -/
structure Aside (c c' : Cpu C) (x x' : W × List (Act Packet Packet)) : Prop where
  cls : c'.cls = c.cls
  notes : x'.2 = x.2

/-- Steps aside of the control port follow one another. -/
theorem Aside.trans {c₁ c₂ c₃ : Cpu C} {x₁ x₂ x₃ : W × List (Act Packet Packet)}
    (h : Aside c₁ c₂ x₁ x₂) (h' : Aside c₂ c₃ x₂ x₃) : Aside c₁ c₃ x₁ x₃ :=
  ⟨h'.cls.trans h.cls, h'.notes.trans h.notes⟩

/-- Finishing a load has nothing to do with the control port. -/
theorem clockData_aside (h : Cpu.clockData (notingPorts ports) c x = some (go, c', x')) :
    Aside c c' x x' := by
  unfold Cpu.clockData at h
  split at h
  · cases h
    exact ⟨rfl, rfl⟩
  · obtain ⟨-, -, h⟩ := Option.bind_eq_some_iff.1 h
    obtain ⟨⟨r, x₁⟩, hsend, h⟩ := Option.bind_eq_some_iff.1 h
    have hnotes : x₁.2 = x.2 := dmem_notes hsend
    dsimp only at h
    split at h <;> cases h <;> exact ⟨rfl, hnotes⟩
  · obtain ⟨-, -, h⟩ := Option.bind_eq_some_iff.1 h
    cases h
    exact ⟨rfl, rfl⟩
  · obtain ⟨-, -, h⟩ := Option.bind_eq_some_iff.1 h
    obtain ⟨core, -, h⟩ := Option.bind_eq_some_iff.1 h
    cases h
    exact ⟨rfl, rfl⟩

/-- Issuing a load or a store has nothing to do with the control port. -/
theorem issue_aside {ld : Ldst} (h : Cpu.issue (notingPorts ports) ld c x = some (r, c', x')) :
    Aside c c' x x' := by
  obtain ⟨⟨r, x₁⟩, hsend, h⟩ := Option.bind_eq_some_iff.1 h
  have hnotes : x₁.2 = x.2 := dmem_notes hsend
  dsimp only at h
  split at h <;> cases h <;> exact ⟨rfl, hnotes⟩

/-- Running an instruction has nothing to do with the control port. -/
theorem run_aside {insn : BitVec 32}
    (h : Cpu.run (notingPorts ports) insn c x = some (r, c', x')) : Aside c c' x x' := by
  obtain ⟨o, -, h⟩ := Option.bind_eq_some_iff.1 h
  cases o with
  | ret ret core =>
      cases h
      exact ⟨rfl, rfl⟩
  | request ld =>
      have hissue := issue_aside h
      exact ⟨hissue.cls, hissue.notes⟩

/-- Sending a fetch has nothing to do with the control port. -/
theorem clockSend_aside (h : Cpu.clockSend (notingPorts ports) c x = some (r, c', x')) :
    Aside c c' x x' := by
  unfold Cpu.clockSend at h
  split at h
  · obtain ⟨⟨r, x₁⟩, hsend, h⟩ := Option.bind_eq_some_iff.1 h
    have hnotes : x₁.2 = x.2 := imem_notes hsend
    dsimp only at h
    split at h
    · cases h
      exact ⟨rfl, hnotes⟩
    · split at h <;> cases h <;> exact ⟨rfl, hnotes⟩
  · cases h
    exact ⟨rfl, rfl⟩

/-- Running an instruction and fetching the next one has nothing to do with the control port. -/
theorem ran_aside {insn : BitVec 32} {ret : Stat} {c₀ c₁ : Cpu C}
    {x₁ : W × List (Act Packet Packet)} (hcls : c₀.cls = c.cls)
    (hrun : Cpu.run (notingPorts ports) insn c₀ x = some (ret, c₁, x₁))
    (h : (if ret ≠ .OK then some (ret, c₁, x₁) else c₁.toCore.fetch.bind fun pkt =>
        Cpu.clockSend (notingPorts ports) { c₁ with ils := { c₁.ils with pkt, state := .BLOCKED } }
          x₁) = some (r, c', x')) : Aside c c' x x' := by
  have hran : Aside c c₁ x x₁ := ⟨(run_aside hrun).cls.trans hcls, (run_aside hrun).notes⟩
  split at h
  · cases h
    exact hran
  · obtain ⟨pkt, -, h⟩ := Option.bind_eq_some_iff.1 h
    have hsent := clockSend_aside h
    exact hran.trans ⟨hsent.cls, hsent.notes⟩

/-- The part of a clock that runs instructions has nothing to do with the control port. -/
theorem clockRun_aside (h : Cpu.clockRun (notingPorts ports) c x = some (r, c', x')) :
    Aside c c' x x' := by
  simp only [Cpu.clockRun, Option.bind_eq_bind, Option.pure_def] at h
  split at h
  · obtain ⟨-, -, h⟩ := Option.bind_eq_some_iff.1 h
    obtain ⟨insn, -, h⟩ := Option.bind_eq_some_iff.1 h
    obtain ⟨⟨ret, c₁, x₁⟩, hrun, h⟩ := Option.bind_eq_some_iff.1 h
    refine ran_aside ?_ hrun h
    rfl
  · obtain ⟨insn, -, h⟩ := Option.bind_eq_some_iff.1 h
    obtain ⟨⟨ret, c₁, x₁⟩, hrun, h⟩ := Option.bind_eq_some_iff.1 h
    refine ran_aside ?_ hrun h
    rfl

/-- A clock sends the control acknowledgement again if it was refused, -/
theorem clockCtrl_slotStep {k : Answerer} (hnotes : x.2 = [])
    (h : Cpu.clockCtrl (notingPorts ports) c x = some (go, c', x')) :
    SlotStep k.Right (held (c.cls.state = .BLOCKED) c.cls.pkt) x'.2
        (held (c'.cls.state = .BLOCKED) c'.cls.pkt) ∧
      (c'.cls.state = .IDLE ∨ c'.cls.state = .BLOCKED) := by
  unfold Cpu.clockCtrl at h
  split at h
  case isTrue =>
    obtain ⟨_, hguard, h⟩ := Option.bind_eq_some_iff.1 h
    have hblocked : c.cls.state = .BLOCKED := by simpa using hguard
    obtain ⟨ctrl, -, h⟩ := Option.bind_eq_some_iff.1 h
    obtain ⟨⟨r, x₁⟩, hsend, h⟩ := Option.bind_eq_some_iff.1 h
    obtain ⟨⟨r', w⟩, -, hsend⟩ := Option.bind_eq_some_iff.1 hsend
    cases hsend
    have hstep := @slotStep_send k c.cls.pkt r
    rw [hnotes, List.nil_append] at h
    rw [hblocked]
    dsimp only at h
    split at h
    case isTrue hbusy =>
      cases h
      exact ⟨by simpa [hblocked, hbusy] using hstep, .inr hblocked⟩
    case isFalse hbusy =>
      cases h
      exact ⟨by simpa [hbusy] using hstep, .inl rfl⟩
  case isFalse hidle =>
    cases h
    rw [hnotes]
    exact ⟨.idle _, .inl (Decidable.not_not.1 hidle)⟩

/-- and the rest of the clock has nothing to do with it. -/
theorem clock_slotStep {k : Answerer} (hnotes : x.2 = [])
    (h : Cpu.simpleRiscv64Clock (notingPorts ports) c x = some (r, c', x')) :
    SlotStep k.Right (held (c.cls.state = .BLOCKED) c.cls.pkt) x'.2
        (held (c'.cls.state = .BLOCKED) c'.cls.pkt) ∧
      (c'.cls.state = .IDLE ∨ c'.cls.state = .BLOCKED) := by
  obtain ⟨⟨go, c₁, x₁⟩, hctrl, h⟩ := Option.bind_eq_some_iff.1 h
  have hstep := clockCtrl_slotStep (k := k) hnotes hctrl
  have hrest : Aside c₁ c' x₁ x' := by
    dsimp only at h
    split at h
    · cases h
      exact ⟨rfl, rfl⟩
    split at h
    · cases h
      exact ⟨rfl, rfl⟩
    obtain ⟨⟨go, c₂, x₂⟩, hdata, h⟩ := Option.bind_eq_some_iff.1 h
    refine (clockData_aside hdata).trans ?_
    dsimp only at h
    split at h
    · cases h
      exact ⟨rfl, rfl⟩
    split at h
    · exact clockSend_aside h
    · cases h
      exact ⟨rfl, rfl⟩
    · exact clockRun_aside h
  rw [hrest.cls, hrest.notes]
  exact hstep

/-- A core acknowledges a control word at once, unless it still has an acknowledgement to send. -/
theorem receive_slotStep {sender : C} {pkt : Packet} {w : W}
    (hstate : c.cls.state = .IDLE ∨ c.cls.state = .BLOCKED)
    (h : Cpu.simpleRiscv64Receive (notingPorts ports) sender pkt c (w, []) = some (r, c', x')) :
    SlotStep (simpleRiscv64 C W).Right (held (c.cls.state = .BLOCKED) c.cls.pkt)
        (if pkt.dst = c.rcv + 128 then taking r pkt ++ x'.2 else x'.2)
        (held (c'.cls.state = .BLOCKED) c'.cls.pkt) ∧
      (c'.cls.state = .IDLE ∨ c'.cls.state = .BLOCKED) := by
  unfold Cpu.simpleRiscv64Receive at h
  split at h
  case isTrue hdst =>
    cases h
    rw [if_neg (by rw [hdst]; bv_omega)]
    exact ⟨.idle _, hstate⟩
  split at h
  case isTrue hdst =>
    cases h
    rw [if_neg (by rw [hdst]; bv_omega)]
    exact ⟨.idle _, hstate⟩
  split at h
  case isFalse hdst =>
    cases h
    rw [if_neg hdst]
    exact ⟨.idle _, hstate⟩
  case isTrue hdst =>
    rw [if_pos hdst]
    obtain ⟨-, -, h⟩ := Option.bind_eq_some_iff.1 h
    split at h
    case isTrue =>
      cases h
      exact ⟨.idle _, hstate⟩
    case isFalse hblocked =>
      obtain ⟨v, -, h⟩ := Option.bind_eq_some_iff.1 h
      split at h
      case isTrue =>
        cases h
        exact ⟨.idle _, hstate⟩
      case isFalse =>
        obtain ⟨⟨r', x₁⟩, hsend, h⟩ := Option.bind_eq_some_iff.1 h
        obtain ⟨⟨r'', w'⟩, -, hsend⟩ := Option.bind_eq_some_iff.1 hsend
        cases hsend
        have hright : (simpleRiscv64 C W).Right pkt (response pkt) :=
          fun _ => ⟨rfl, rfl, rfl, (BitVec.or_zero).symm⟩
        have hreply : SlotStep (simpleRiscv64 C W).Right none
          [.took pkt, .sent (response pkt) (r' = .EBUSY)] _ := .reply pkt _ hright _
        dsimp only at h
        rw [decide_eq_false hblocked]
        split at h
        case isTrue hbusy =>
          cases h
          exact ⟨by simpa [hbusy, taking] using hreply, .inr rfl⟩
        case isFalse hbusy =>
          cases h
          exact ⟨by simpa [hbusy, taking] using hreply, .inl rfl⟩

end Slots

/-! ## The allocator -/

section Allocator

variable {tree : SearchTree.Store Region regionCmp} {a a' : Alloc tree} {again now : Stat}
  {outs qs : List Packet} {acts : List (Act Packet Packet)}

/-- The offers of a clock as replies sent. -/
abbrev offered (offers : List Offer) : List (Act Packet Packet) :=
  offers.map fun o => .sent o.pkt (o.ret = .EBUSY)

/-- The requests of the two registers: the one whose reply is in the output register comes first. -/
def AllocHolds (a : Alloc tree) (qs : List Packet) : Prop :=
  ∃ outs, qs = outs ++ a.inn.held.toList ∧ Holds (idealAlloc tree).Right a.out.held outs

/-- The reply in the output register is taken. -/
theorem reoffer_exchanges (hgone : a.out.busy = true → again = .OK)
    (houts : Holds (idealAlloc tree).Right a.out.held outs) (rest : List Packet) :
    (∀ x ∈ exchanges (outs ++ rest) (offered (Alloc.reoffer again a)),
        ∃ q, x.1 = some q ∧ (idealAlloc tree).Right q x.2) ∧
      unanswered (outs ++ rest) (offered (Alloc.reoffer again a)) = rest := by
  unfold Alloc.reoffer
  cases hout : a.out.busy with
  | false =>
      rw [Reg.held_eq_none.2 hout, holds_none] at houts
      subst houts
      exact ⟨fun x hx => absurd hx List.not_mem_nil, rfl⟩
  | true =>
      rw [Reg.held_eq_some.2 ⟨hout, rfl⟩] at houts
      obtain ⟨hnone, -⟩ | ⟨q, r, hsome, rfl, hright⟩ := houts
      · cases hnone
      · obtain rfl := Option.some.inj hsome
        rw [hgone hout]
        refine ⟨fun x hx => ?_, rfl⟩
        obtain rfl := List.mem_singleton.1 hx
        exact ⟨q, rfl, hright⟩

/-- The reply of an operation is one to its request. -/
theorem reply_right (request : Packet) (o : Alloc.Outcome tree) :
    (idealAlloc tree).Right request (Alloc.reply request o) :=
  fun _ => ⟨rfl, rfl, rfl, BitVec.or_zero.symm⟩

/-- A clock of the allocator answers the requests it holds, and holds the others. -/
theorem allocClock_keeps {offers : List Offer} (h : Alloc.Clocks again now a a' offers)
    (hqs : AllocHolds a qs) :
    (∀ x ∈ exchanges qs (offered offers), ∃ q, x.1 = some q ∧ (idealAlloc tree).Right q x.2) ∧
      AllocHolds a' (unanswered qs (offered offers)) := by
  obtain ⟨outs, rfl, houts⟩ := hqs
  cases h with
  | idle hin => exact ⟨fun x hx => absurd hx List.not_mem_nil, outs, rfl, houts⟩
  | refused hin hout hagain =>
      have hheld : a.out.held = some a.out.pkt := Reg.held_eq_some.2 ⟨hout, rfl⟩
      obtain ⟨hnone, -⟩ | ⟨q, r, hsome, rfl, hright⟩ := id houts
      · rw [hheld] at hnone
        cases hnone
      · rw [hheld] at hsome
        obtain rfl := Option.some.inj hsome
        rw [hagain, Alloc.reoffer, if_pos hout]
        refine ⟨fun x hx => ?_, [q], rfl, houts⟩
        obtain rfl := List.mem_singleton.1 hx
        exact ⟨q, rfl, hright⟩
  | stuck hin hgone hop =>
      obtain ⟨hnow, hleft⟩ := reoffer_exchanges hgone houts a.inn.held.toList
      refine ⟨hnow, [], ?_, .inl ⟨rfl, rfl⟩⟩
      rw [hleft]
      rfl
  | served hin hgone hop =>
      obtain ⟨hnow, hleft⟩ := reoffer_exchanges hgone houts a.inn.held.toList
      have hheld : a.inn.held = some a.inn.pkt := Reg.held_eq_some.2 ⟨hin, rfl⟩
      obtain ⟨hlast, hkept⟩ := holds_sent
        (reply_right a.inn.pkt (Alloc.outcome (Alloc.sent a))) (decide (now = .EBUSY))
      rw [offered, List.map_append, exchanges_append, unanswered_append, hleft, hheld]
      refine ⟨fun x hx => ?_, _, (List.append_nil _).symm, ?_⟩
      · rcases List.mem_append.1 hx with hx | hx
        · rw [hheld] at hnow
          exact hnow x hx
        · exact hlast x hx
      · by_cases hbusy : now = .EBUSY
        · simpa [hbusy] using hkept
        · simpa [hbusy, Alloc.held_sent] using hkept

/-- The allocator holds a request that it accepted. -/
theorem allocReceive_keeps {pkt : Packet} (hqs : AllocHolds a qs) :
    AllocHolds (Alloc.allocReceive a pkt).2
      (unanswered qs (taking (Alloc.allocReceive a pkt).1 pkt)) := by
  unfold Alloc.allocReceive
  cases hin : a.inn.busy with
  | true => exact hqs
  | false =>
      obtain ⟨outs, rfl, houts⟩ := hqs
      rw [Reg.held_eq_none.2 hin, Option.toList_none, List.append_nil]
      exact ⟨outs, rfl, houts⟩

end Allocator

/-! ## Runs -/

/-- What a component holds answers the requests it has not answered yet. -/
def Inv : (k : Answerer) → k.State → List Packet → Prop
  | simpleMem C, mem, qs => Holds (simpleMem C).Right (held mem.busy mem.pkt) qs
  | simpleUart C, uart, qs => Holds (simpleUart C).Right (held uart.busy uart.pkt) qs
  | simpleBus regions, bus, qs => Holds (simpleBus regions).Right (held bus.busy bus.pkt) qs
  | simpleRiscv64 C W, c, qs =>
      (c.cls.state = .IDLE ∨ c.cls.state = .BLOCKED) ∧
        Holds (simpleRiscv64 C W).Right (held (c.cls.state = .BLOCKED) c.cls.pkt) qs
  | idealAlloc _, a, qs => AllocHolds a qs

variable {k : Answerer} {s s' : k.State} {e : k.Event} {es : List k.Event}
  {acts : List (Act Packet Packet)} {qs : List Packet}

/-- A free register holds no request. -/
theorem holds_free {busy : Bool} {pkt : Packet} (h : busy = false) :
    Holds k.Right (held busy pkt) [] := by
  rw [h]
  exact holds_none.2 rfl

/-- An idle component holds no request. -/
theorem Idle.inv (h : k.Idle s) : k.Inv s [] := by
  cases k with
  | simpleMem C => exact holds_free h
  | simpleUart C => exact holds_free h
  | simpleBus regions => exact holds_free h
  | simpleRiscv64 C W =>
      replace h : s.cls.state = .IDLE := h
      exact ⟨.inl h, holds_free (by rw [h]; rfl)⟩
  | idealAlloc tree =>
      refine ⟨[], ?_, .inl ⟨Reg.held_eq_none.2 h.2, rfl⟩⟩
      rw [Reg.held_eq_none.2 h.1]
      rfl

/-- Taking a request answers none. -/
theorem exchanges_taking {r : Stat} {pkt : Packet} :
    ∀ x ∈ exchanges qs (taking r pkt), ∃ q, x.1 = some q ∧ k.Right q x.2 := by
  intro x hx
  unfold taking at hx
  split at hx <;> cases hx

/-- Every step of a component answers requests it holds, and holds the others. -/
theorem step_inv (hs : k.Inv s qs) (h : k.step s e = some (s', acts)) :
    (∀ x ∈ exchanges qs acts, ∃ q, x.1 = some q ∧ k.Right q x.2) ∧
      k.Inv s' (unanswered qs acts) := by
  cases k with
  | simpleMem C => exact (simpleMem_slotStep h).keeps hs
  | simpleUart C => exact (simpleUart_slotStep h).keeps hs
  | simpleBus regions => exact (simpleBus_slotStep h).keeps hs
  | simpleRiscv64 C W =>
      obtain ⟨hstate, hholds⟩ := hs
      cases e with
      | present sender pkt around =>
          obtain ⟨⟨r, c, w, acts⟩, hreceive, h⟩ := Option.bind_eq_some_iff.1 h
          cases h
          obtain ⟨hstep, hstate'⟩ := receive_slotStep hstate hreceive
          exact ⟨(hstep.keeps hholds).1, hstate', (hstep.keeps hholds).2⟩
      | clock around =>
          obtain ⟨⟨r, c, w, acts⟩, hclock, h⟩ := Option.bind_eq_some_iff.1 h
          cases h
          obtain ⟨hstep, hstate'⟩ := clock_slotStep (k := simpleRiscv64 C W) rfl hclock
          exact ⟨(hstep.keeps hholds).1, hstate', (hstep.keeps hholds).2⟩
  | idealAlloc tree =>
      cases e with
      | present sender pkt around =>
          cases h
          exact ⟨exchanges_taking, allocReceive_keeps hs⟩
      | clock around =>
          obtain ⟨⟨r, a, offers⟩, hclock, h⟩ := Option.bind_eq_some_iff.1 h
          cases h
          exact allocClock_keeps (Alloc.allocClock_cases hclock) hs

/-- The replies of a run answer the requests in their order, each in the way of the component. -/
theorem run_right (hidle : k.Idle s) (h : run k.step s es = some (s', acts)) :
    ∀ x ∈ exchanges [] acts, ∃ q, x.1 = some q ∧ k.Right q x.2 :=
  run_exchanges k.Inv k.Right step_inv hidle.inv h

/-! ## What requesters check -/

/-- A flag that is added is set. -/
theorem isSet_or {q r : Packet} {extra flags : BitVec 32} (h : r.flags = q.flags ||| extra)
    (hextra : extra &&& flags ≠ 0#32) : isSet r flags = true := by
  have hand : r.flags &&& flags ≠ 0#32 := by
    intro hzero
    rw [h, BitVec.and_or_distrib_right] at hzero
    exact hextra (BitVec.or_eq_zero_iff.1 hzero).2
  simpa [isSet] using hand

/-- A reply has one of the two flags exactly if the component sets one or the request had one. -/
theorem flags_iff {q r : Packet} (h : Carries (k.extra q) q r) :
    isSet r PACKET_DONE = true ∨ isSet r PACKET_ERROR = true ↔ k.Flags q := by
  -- without further flags the reply has those of the request
  have hsame : k.extra q = 0 → ∀ flags, isSet r flags = isSet q flags := by
    intro hzero flags
    have hflags : r.flags = q.flags := by
      rw [h.flags, hzero]
      exact BitVec.or_zero
    rw [isSet, isSet, hflags]
  cases k with
  | simpleMem C =>
      have hdone : PACKET_DONE &&& PACKET_DONE ≠ 0#32 := by decide
      exact iff_of_true (.inl (isSet_or h.flags hdone)) trivial
  | simpleUart C =>
      refine iff_of_true ?_ trivial
      have hflags := h.flags
      rw [show (simpleUart C).extra q = SimpleUart.replyFlag q from rfl] at hflags
      unfold SimpleUart.replyFlag at hflags
      split at hflags
      · exact .inl (isSet_or hflags (by decide))
      · exact .inr (isSet_or hflags (by decide))
  | simpleBus regions =>
      have herror : PACKET_ERROR &&& PACKET_ERROR ≠ 0#32 := by decide
      exact iff_of_true (.inr (isSet_or h.flags herror)) trivial
  | simpleRiscv64 C W => rw [hsame rfl, hsame rfl]; rfl
  | idealAlloc tree => rw [hsame rfl, hsame rfl]; rfl

/-- A reply keeps the convention exactly if its component adds a flag or the request had it. -/
theorem convention_iff {q r : Packet} (h : Carries (k.extra q) q r) :
    Convention q r ↔ k.Flags q :=
  ⟨fun hconv => (flags_iff h).1 hconv.flag,
    fun hflags => ⟨h.src, h.dst, h.mask, (flags_iff h).2 hflags⟩⟩

/-- Both front ends fail an assertion on a reply that does not say that the request was done. -/
def Rejected (reply : Packet) : Prop :=
  (∀ (C W : Type) (c : SimtCache C) (ports : Ports W) (s : SimtCache.State) (w : W),
      c.simtCacheHandleResponse ports reply s w = none) ∧
    ∀ (C W : Type) (c : SimtIntf C) (ports : Ports W) (reqs : SimtIntf.Reqs) (w : W),
      c.simtRiscv64HandleResponse ports reply reqs w = none

/-- A reply without `PACKET_DONE` is rejected. -/
theorem rejected_of_not_done {reply : Packet} (h : isSet reply PACKET_DONE = false) :
    Rejected reply := by
  refine ⟨fun C W c ports s w => ?_, fun C W c ports reqs w => ?_⟩
  · rw [Option.eq_none_iff_forall_not_mem]
    intro x hx
    obtain ⟨-, -, hx⟩ := Option.bind_eq_some_iff.1 hx
    obtain ⟨_, hguard, -⟩ := Option.bind_eq_some_iff.1 hx
    simp [h] at hguard
  · rw [Option.eq_none_iff_forall_not_mem]
    intro x hx
    obtain ⟨q, -, hx⟩ := Option.bind_eq_some_iff.1 hx
    obtain ⟨-, -, hx⟩ := Option.bind_eq_some_iff.1 hx
    obtain ⟨-, -, hx⟩ := Option.bind_eq_some_iff.1 hx
    obtain ⟨_, hguard, -⟩ := Option.bind_eq_some_iff.1 hx
    simp [h] at hguard

/-- In every run every reply answers a request, and is what requesters check of it exactly if the
component sets one of the two flags or the request had one already. A reply without an error passes
the assertion of the front ends of a SIMT core under the same condition, and else both of them
abort. -/
theorem replies_convention (k : Answerer) {s s' : k.State} {es : List k.Event}
    {acts : List (Act Packet Packet)} (hidle : k.Idle s)
    (h : run k.step s es = some (s', acts)) :
    ∀ x ∈ exchanges [] acts, ∃ q, x.1 = some q ∧ (k.IsRequest q →
      (Convention q x.2 ↔ k.Flags q) ∧
        ((isSet x.2 PACKET_ERROR = false → isSet x.2 PACKET_DONE = true) ↔ k.Flags q) ∧
        (¬ k.Flags q → Rejected x.2)) := by
  intro x hx
  obtain ⟨q, hq, hright⟩ := run_right hidle h x hx
  refine ⟨q, hq, fun hrequest => ?_⟩
  have hcarries := hright hrequest
  refine ⟨convention_iff hcarries, ?_, fun hflags => rejected_of_not_done ?_⟩
  · rw [← flags_iff hcarries]
    cases isSet x.2 PACKET_DONE <;> cases isSet x.2 PACKET_ERROR <;> simp
  · rw [← flags_iff hcarries, not_or] at hflags
    exact Bool.eq_false_iff.2 hflags.1

/-- A lane's write of 1 to the control port of a core at address 0. -/
def wake : Packet :=
  extPacket 0 ⟨0, 128, 0xff, 0, fun i => if (i : Nat) = 0 then 1 else 0, PACKET_WRITE⟩

/-- `replies_convention` for a memory whose reply to a write is refused once. -/
theorem replies_convention_write :
    let k := simpleMem Unit
    ∃ s' acts, run k.step (createSimpleMem 256 fun _ => 0)
        [.present () wake .OK, .clock .EBUSY, .clock .OK] = some (s', acts) ∧
      (exchanges [] acts).length = 2 ∧ ∀ x ∈ exchanges [] acts, Convention wake x.2 := by
  have hrun : ∃ mem, run (simpleMem Unit).step (createSimpleMem 256 fun _ => 0)
      [.present () wake .OK, .clock .EBUSY, .clock .OK] =
        some (mem, [.took wake, .sent (setFlags (response wake) PACKET_DONE) true,
          .sent (setFlags (response wake) PACKET_DONE) false]) := ⟨_, rfl⟩
  obtain ⟨mem, hrun⟩ := hrun
  have hidle : (simpleMem Unit).Idle (createSimpleMem 256 fun _ => 0) := rfl
  refine ⟨mem, _, hrun, rfl, fun x hx => ?_⟩
  obtain ⟨q, hq, hreply⟩ := replies_convention (simpleMem Unit) hidle hrun x hx
  obtain rfl : wake = q := by
    simp only [exchanges, List.mem_cons, List.not_mem_nil, or_false] at hx
    obtain rfl | rfl := hx
    · exact Option.some.inj hq
    · exact Option.some.inj hq
  exact (hreply trivial).1.2 trivial

/-- A core acknowledges the write of a control word, and the allocator a request to add a region,
with replies that say neither that the request was done nor that it failed, and on which the front
ends abort. -/
theorem replies_unflagged :
    (∃ c c' : Cpu Unit, Cpu.create 0 0 (fun _ => 0) = some c ∧ ∃ acts,
      run (simpleRiscv64 Unit Unit).step c
        [.present () wake (⟨fun _ _ => none, fun _ _ => none, fun _ _ _ => some (.OK, ())⟩, ())] =
          some (c', acts) ∧
      ∃ reply, exchanges [] acts = [(some wake, reply)] ∧ ¬ Convention wake reply ∧
        Rejected reply) ∧
    let tree := SearchTree.Store.plain Region regionCmp
    ∃ a acts, run (idealAlloc tree).step (createIdealAlloc tree 1)
        [.present () Alloc.addEmpty (.OK, .OK), .clock (.OK, .OK)] = some (a, acts) ∧
      ∃ reply, exchanges [] acts = [(some Alloc.addEmpty, reply)] ∧
        ¬ Convention Alloc.addEmpty reply ∧ Rejected reply := by
  refine ⟨⟨_, _, rfl, _, rfl, _, rfl, ?_, rejected_of_not_done rfl⟩, _, _, rfl, _, rfl, ?_,
    rejected_of_not_done rfl⟩
  · rintro ⟨-, -, -, hdone | herror⟩
    · cases hdone
    · cases herror
  · rintro ⟨-, -, -, hdone | herror⟩
    · cases hdone
    · cases herror

end Answerer

end Gran
