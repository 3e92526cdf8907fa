import Gran.Simt.LaneSides
import Gran.Cpu.Timing

/-!
# Lanes do not disturb each other

A run of a SIMT core over a data memory that applies each accepted request at some instant before it
answers it, and an instruction memory, both of which refuse and answer in any order. As long as each
data line is touched by one lane only, and by no other master, a lane executes what a simple core
with its registers executes alone (`simtRiscv64_lanes_alone`).
-/

namespace Gran

open Simt Relation

variable {C : Type}

/-! ## Replies to lanes -/

/-- A core that got an answer. -/
def Cpu.answered (pkt : Packet) (c : Cpu C) : Cpu C :=
  if pkt.dst = c.rcv then { c with dls := { c.dls with pkt, state := .DONE } }
  else { c with ils := { c.ils with pkt, state := .DONE } }

/-- An answer leaves the receive address alone. -/
theorem Cpu.answered_rcv (pkt : Packet) (c : Cpu C) : (c.answered pkt).rcv = c.rcv := by
  unfold answered
  split <;> rfl

/-- A core takes a packet for one of its two ports. -/
theorem Cpu.receive_answered {W : Type} {ports : CpuPorts C W} {sender : C} {pkt : Packet}
    {c : Cpu C}
    (h : pkt.dst = c.rcv ∨ pkt.dst = c.rcv + 64) (w : W) :
    simpleRiscv64Receive ports sender pkt c w = some (.OK, c.answered pkt, w) := by
  unfold simpleRiscv64Receive answered
  by_cases hdst : pkt.dst = c.rcv
  · rw [if_pos hdst, if_pos hdst]
  · rw [if_neg hdst, if_neg hdst, if_pos (h.resolve_left hdst)]

/-- What a core is after a packet for one of its two ports. -/
theorem Cpu.eq_answered {W : Type} {ports : CpuPorts C W} {sender : C} {pkt : Packet}
    {c c' : Cpu C} {w : W} (h : simpleRiscv64Receive ports sender pkt c w = some (.OK, c', w))
    (hdst : pkt.dst = c.rcv ∨ pkt.dst = c.rcv + 64) : c' = c.answered pkt := by
  rw [receive_answered hdst] at h
  cases h
  rfl

namespace SimtIntf

variable {W : Type} {intf : SimtIntf C} {ports ports' : Ports W} {reqs : Reqs} {pkt : Packet}

/-- The slots hold the requests they held, and none of them became busy. -/
def OnlyFreed (reqs reqs' : Reqs) : Prop :=
  ∀ j, (reqs' j).reg.pkt = (reqs j).reg.pkt ∧
    ((reqs' j).reg.busy = true → (reqs j).reg.busy = true)

/-- A table that does not change. -/
theorem OnlyFreed.refl (reqs : Reqs) : OnlyFreed reqs reqs := fun _ => ⟨rfl, id⟩

/-- One more slot is freed. -/
theorem OnlyFreed.update {reqs reqs' : Reqs} (h : OnlyFreed reqs reqs') (i : Nat) :
    OnlyFreed reqs (Function.update reqs' i
      { reqs' i with reg := { (reqs' i).reg with busy := false } }) := by
  intro j
  by_cases hji : j = i
  · subst hji
    simpa using (h j).1
  · simpa [Function.update_of_ne hji] using h j

section Lanes

variable (P : W → Prop) (hlane : ∀ j rep w, P w → (reqs j).reg.busy = true →
  rep.dst = (reqs j).reg.pkt.src →
    ports.lane j rep w = ports'.lane j rep w ∧ ∀ ok w', ports'.lane j rep w = some (ok, w') → P w')

include hlane

/-- Two kinds of lanes that treat the replies to their requests alike are told the same in one
iteration of a broadcast. -/
theorem broadcastSlot_congr {reqs' : Reqs} (hreqs : OnlyFreed reqs reqs') {w : W} (hw : P w)
    (i : Nat) :
    intf.broadcastSlot ports pkt (reqs', w) i = intf.broadcastSlot ports' pkt (reqs', w) i ∧
      ∀ s, intf.broadcastSlot ports' pkt (reqs', w) i = some s → P s.2 ∧ OnlyFreed reqs s.1 := by
  simp only [broadcastSlot, reqsAt]
  by_cases hi : i < intf.numLanes
  case neg => simp [hi]
  simp only [hi, if_true, Option.bind_eq_bind, Option.bind_some, Option.pure_def]
  cases hbusy : (reqs' i).reg.busy with
  | false => simpa using ⟨hw, hreqs⟩
  | true =>
      by_cases hdst : (reqs' i).reg.pkt.dst = pkt.src
      case neg => simpa [hdst] using ⟨hw, hreqs⟩
      cases hread : isSet (reqs' i).reg.pkt PACKET_READ with
      | false => simpa [hdst] using ⟨hw, hreqs⟩
      | true =>
          obtain ⟨hsame, hkeep⟩ := hlane i (laneReply (reqs' i) pkt) w hw ((hreqs i).2 hbusy)
            (congrArg Packet.src (hreqs i).1)
          simp only [hdst, hsame, Bool.not_true, Bool.false_eq_true, if_false, ne_eq,
            not_true_eq_false, true_and]
          intro s hs
          obtain ⟨⟨ok, w'⟩, hsend, hs⟩ := Option.bind_eq_some_iff.1 hs
          obtain ⟨-, -, hs⟩ := Option.bind_eq_some_iff.1 hs
          cases hs
          exact ⟨hkeep ok w' hsend, hreqs.update i⟩

/-- Two kinds of lanes that treat the replies to their requests alike lead to the same table. -/
theorem handleResponse_congr {w : W} (hw : P w) :
    intf.simtRiscv64HandleResponse ports pkt reqs w =
      intf.simtRiscv64HandleResponse ports' pkt reqs w := by
  simp only [simtRiscv64HandleResponse, Option.bind_eq_bind, Option.pure_def]
  refine Option.bind_congr fun s hs => ?_
  obtain rfl : s = reqs (pkt.dst.truncate 32).toNat := by
    simp only [reqsAt, Option.ite_none_right_eq_some, Option.some.injEq] at hs
    exact hs.2.symm
  refine Option.bind_congr fun _ _ => Option.bind_congr fun _ hbusy => Option.bind_congr fun _ _ =>
    Option.bind_congr fun _ _ => Option.bind_congr fun _ _ => ?_
  have hbusy : (reqs (pkt.dst.truncate 32).toNat).reg.busy = true := by
    simpa [Option.guard_eq_some'] using hbusy
  obtain ⟨hsame, hkeep⟩ := hlane _ (laneReply (reqs (pkt.dst.truncate 32).toNat) pkt) w hw hbusy rfl
  rw [hsame]
  refine Option.bind_congr fun x hx => Option.bind_congr fun _ _ => ?_
  split
  case isFalse => rfl
  congr 1
  exact Fold.foldlM_congr (fun s => P s.2 ∧ OnlyFreed reqs s.1)
    (fun s i _ hs => broadcastSlot_congr P hlane hs.2 hs.1 i)
    ⟨hkeep _ _ hx, (OnlyFreed.refl reqs).update _⟩

end Lanes

end SimtIntf

namespace SimtRiscv64

open SimtIntf

variable [DecidableEq C] {c : SimtRiscv64 C} {own : Word → Option Nat} {imem : Word → Line}
  {mem mem' : Word → Line} {applied applied' : Packet → Option Line} {t t' : Wires}
  {flying : List Nat}
  {cpus cpus' : Nat → Cpu C}

/-- A lane accepts every reply to a request of its own. -/
theorem receive_reply_eq {intf : SimtIntf C} {sender : C} {reqs : Reqs} {r : Packet}
    (hsrc : ∀ j, (reqs j).reg.busy = true → (reqs j).reg.pkt.src = (cpus j).rcv ∨
      (reqs j).reg.pkt.src = (cpus j).rcv + 64) :
    intf.simtRiscv64Receive (replyPorts sender) intf.mem r reqs cpus =
      intf.simtRiscv64Receive (lanePorts fun _ => Cpu.answered) intf.mem r reqs cpus := by
  simp only [simtRiscv64Receive, if_true]
  refine handleResponse_congr (fun cpus' => ∀ j, (cpus' j).rcv = (cpus j).rcv)
    (fun j rep cpus' hrcv hbusy hdst => ⟨?_, fun ok cpus'' hsend k => ?_⟩) fun _ => rfl
  · have hrep : rep.dst = (cpus' j).rcv ∨ rep.dst = (cpus' j).rcv + 64 := by
      rw [hdst, hrcv]
      exact hsrc j hbusy
    simp only [replyPorts, Cpu.receive_answered hrep, lanePorts, Option.bind_eq_bind,
      Option.bind_some, Option.pure_def]
  · cases hsend
    by_cases hk : k = j
    · subst hk
      rw [Function.update_self, Cpu.answered_rcv, hrcv]
    · rw [Function.update_of_ne hk, hrcv]

omit [DecidableEq C] in
/-- The table stays in order when the slot of an answered request is freed. -/
theorem DataOk.free (hok : DataOk c own applied t flying) {before after : List Packet} {p : Packet}
    (hflight : t.dmem = before ++ p :: after) {reqs' : Reqs} {flying' : List Nat} {j : Nat}
    (hinv : Inv c.dmemIntf reqs' (before ++ after) flying') (hfree : (reqs' j).reg.busy = false)
    (hother : ∀ k ≠ j, reqs' k = t.dataRqs k) :
    DataOk c own (Function.update applied p none)
      { t with dataRqs := reqs', dmem := before ++ after } flying' where
  inv := hinv
  request k hk := by
    have hkj : k ≠ j := by
      rintro rfl
      simp [hfree] at hk
    have hsame := hother k hkj
    simp only [hsame] at hk ⊢
    exact hok.request k hk
  applied q hq := by
    have hne : q ≠ p := by
      rintro rfl
      exact hq (Function.update_self ..)
    rw [Function.update_of_ne hne] at hq
    have hmem := hok.applied q hq
    rw [hflight] at hmem
    simpa [hne] using hmem

/-- A reply to a data request is for one lane, since no other lane touches the line. -/
theorem data_reply (hrcv : c.conf.dataRcv.truncate 32 = 0#32)
    (hok : DataOk c own applied t flying)
    (hcpus : ∀ j < c.conf.numLanes, j < 2 ^ 31 → (cpus j).rcv = laneRcv j)
    {before after : List Packet} {p r : Packet} (hflight : t.dmem = before ++ p :: after)
    (hr : IsReply p r) {intf : C} {ret : Stat} {reqs' : Reqs}
    (h : c.dmemIntf.simtRiscv64Receive (replyPorts intf) c.dmem r t.dataRqs cpus =
      some (ret, reqs', cpus')) :
    ∃ j, j < 2 ^ 31 ∧ (t.dataRqs j).reg.busy = true ∧ p = c.dmemIntf.sentPacket t.dataRqs j ∧
      (∃ flying', DataOk c own (Function.update applied p none)
        { t with dataRqs := reqs', dmem := before ++ after } flying') ∧
      (reqs' j).reg.busy = false ∧ cpus' j = (cpus j).answered (laneReply (t.dataRqs j) r) ∧
      Answered (t.dataRqs j).reg.pkt (laneReply (t.dataRqs j) r) ∧
      ∀ k ≠ j, (reqs' k).reg = (t.dataRqs k).reg ∧ cpus' k = cpus k := by
  obtain ⟨b, j, a, rfl, hb, hp, ha⟩ := split_flying (hflight.symm.trans hok.inv.flight)
  rw [hp] at hr
  obtain ⟨reqs'', cpus'', hresp, hinv, hdel, hfreed⟩ :=
    simtRiscv64HandleResponse_inv (f := fun _ => Cpu.answered) hok.inv hr hrcv cpus
  have hsrc : ∀ j, (t.dataRqs j).reg.busy = true →
      (t.dataRqs j).reg.pkt.src = (cpus j).rcv ∨ (t.dataRqs j).reg.pkt.src = (cpus j).rcv + 64 := by
    intro k hk
    obtain ⟨hint, -, hsrc, -⟩ := hok.request k hk
    exact .inl (by rw [hsrc, hcpus k (hok.inv.request k hk).1 hint])
  rw [show c.dmem = c.dmemIntf.mem from rfl, receive_reply_eq hsrc, simtRiscv64Receive,
    if_pos rfl, hresp] at h
  cases h
  have hbusy : (t.dataRqs j).reg.busy = true := (hok.inv.sent j (by simp)).1
  have hself : cpus' j = (cpus j).answered (laneReply (t.dataRqs j) r) ∧
      Answered (t.dataRqs j).reg.pkt (laneReply (t.dataRqs j) r) := by
    cases hdel j with
    | other hreq =>
        rw [hfreed] at hreq
        rw [← hreq] at hbusy
        cases hbusy
    | lane _ _ hlane hans => exact ⟨hlane, hans⟩
  have hother : ∀ k ≠ j, reqs' k = t.dataRqs k ∧ cpus' k = cpus k := by
    intro k hk
    cases hdel k with
    | other hreq hlane => exact ⟨hreq, hlane⟩
    | lane hkbusy _ _ hans =>
        -- both lanes would touch the line of the reply
        have hdst : (t.dataRqs k).reg.pkt.dst = (t.dataRqs j).reg.pkt.dst :=
          hans.src.symm.trans hself.2.src
        have hown := (hok.request k hkbusy).2.1
        rw [hdst, (hok.request j hbusy).2.1] at hown
        exact absurd (Option.some.inj hown).symm hk
  have hfree : (reqs' j).reg.busy = false := by rw [hfreed]; rfl
  rw [List.map_append, ← hb, ← ha] at hinv
  exact ⟨j, (hok.request j hbusy).1, hbusy, hp,
    ⟨b ++ a, hok.free hflight hinv hfree fun k hk => (hother k hk).1⟩, hfree, hself.1, hself.2,
    fun k hk => ⟨by rw [(hother k hk).1], (hother k hk).2⟩⟩

/-- What a reply to a fetch does to a lane: nothing, or the lane gets the answer to its fetch. -/
inductive Fetched (t : Wires) (r : Packet) (reqs' : Reqs) (cpus cpus' : Nat → Cpu C) (k : Nat) :
    Prop where
  | other (hreq : (reqs' k).reg = (t.instRqs k).reg) (hlane : cpus' k = cpus k)
  | lane (hbusy : (t.instRqs k).reg.busy = true) (hreq : (reqs' k).reg.busy = false)
      (hlane : cpus' k = (cpus k).answered (laneReply (t.instRqs k) r))
      (hans : Answered (t.instRqs k).reg.pkt (laneReply (t.instRqs k) r))

/-- A reply to a fetch may be for several lanes. -/
theorem inst_reply (hrcv : c.conf.instRcv.truncate 32 = 0#32) (hok : InstOk c t flying)
    (hcpus : ∀ j < c.conf.numLanes, j < 2 ^ 31 → (cpus j).rcv = laneRcv j)
    {before after : List Packet} {p r : Packet} (hflight : t.imem = before ++ p :: after)
    (hr : IsReply p r) {intf : C} {ret : Stat} {reqs' : Reqs}
    (h : c.imemIntf.simtRiscv64Receive (replyPorts intf) c.imem r t.instRqs cpus =
      some (ret, reqs', cpus')) :
    (∃ flying', InstOk c { t with instRqs := reqs', imem := before ++ after } flying') ∧
      ∀ k, Fetched t r reqs' cpus cpus' k := by
  obtain ⟨reqs'', cpus'', flying', hresp, hinv, hdel⟩ :=
    simtRiscv64Receive_mem (f := fun _ => Cpu.answered) hok.inv hrcv hflight hr cpus
  have hsrc : ∀ j, (t.instRqs j).reg.busy = true →
      (t.instRqs j).reg.pkt.src = (cpus j).rcv ∨ (t.instRqs j).reg.pkt.src = (cpus j).rcv + 64 := by
    intro k hk
    obtain ⟨hint, hsrc⟩ := hok.request k hk
    exact .inr (by rw [hsrc, hcpus k (hok.inv.request k hk).1 hint])
  rw [show c.imem = c.imemIntf.mem from rfl, receive_reply_eq hsrc, hresp] at h
  cases h
  refine ⟨⟨flying', hinv, fun k hk => ?_⟩, fun k => ?_⟩
  · cases hdel k with
    | other hreq =>
        simp only [hreq] at hk ⊢
        exact hok.request k hk
    | lane _ hreq =>
        simp only [hreq] at hk
        cases hk
  · cases hdel k with
    | other hreq hlane => exact .other (by rw [hreq]) hlane
    | lane hbusy hreq hlane hans => exact .lane hbusy (by rw [hreq]; rfl) hlane hans

/-! ## Runs -/

/-- A SIMT core with its memories: the data lines, the line each accepted data request was applied
with, and the status that stopped the core. -/
structure System (C : Type) where
  cpus : Nat → Cpu C
  tables : Wires
  mem : Word → Line
  applied : Packet → Option Line
  halted : Option Stat

/-- The start of a run. -/
def System.init (cpus : Nat → Cpu C) (mem : Word → Line) : System C :=
  ⟨cpus, createTables [] [], mem, fun _ => none, none⟩

/-- One step of a run. `own` is the one lane that touches a data line, if any does. -/
inductive System.Step (c : SimtRiscv64 C) (imem : Word → Line) (own : Word → Option Nat)
    (s : System C) : System C → Prop where
  | clock (danswer ianswer : Packet → Stat) (hd : ∀ p, danswer p = .OK ∨ danswer p = .EBUSY)
      (hi : ∀ p, ianswer p = .OK ∨ ianswer p = .EBUSY) (ret : Stat) (cpus' : Nat → Cpu C)
      (t' : Wires) (h : c.simtRiscv64Clock (memPorts danswer) (memPorts ianswer) s.cpus s.tables =
        some (ret, cpus', t'))
      (hown : ∀ i < c.conf.numLanes, (cpus' i).dls.Asks → own (cpus' i).dls.pkt.dst = some i) :
      Step c imem own s { s with
        cpus := cpus', tables := t', halted := if ret = .OK then none else some ret }
  | apply (p : Packet) (hp : p ∈ s.tables.dmem) (hnew : s.applied p = none) :
      Step c imem own s { s with
        mem := (applyLine s.mem p).1
        applied := Function.update s.applied p (some (applyLine s.mem p).2) }
  | dataReply (before : List Packet) (p : Packet) (after : List Packet)
      (hflight : s.tables.dmem = before ++ p :: after) (line : Line)
      (happ : s.applied p = some line) (r : Packet) (hr : IsReply p r)
      (hdata : isSet r PACKET_READ = true → r.data = line) (intf : C)
      (ret : Stat) (reqs' : Reqs) (cpus' : Nat → Cpu C)
      (h : c.dmemIntf.simtRiscv64Receive (replyPorts intf) c.dmem r s.tables.dataRqs s.cpus =
        some (ret, reqs', cpus')) :
      Step c imem own s { s with
        cpus := cpus'
        tables := { s.tables with dataRqs := reqs', dmem := before ++ after }
        applied := Function.update s.applied p none }
  | instReply (before : List Packet) (p : Packet) (after : List Packet)
      (hflight : s.tables.imem = before ++ p :: after)
      (r : Packet) (hr : IsReply p r) (hdata : isSet r PACKET_READ = true → r.data = imem r.src)
      (intf : C) (ret : Stat) (reqs' : Reqs) (cpus' : Nat → Cpu C)
      (h : c.imemIntf.simtRiscv64Receive (replyPorts intf) c.imem r s.tables.instRqs s.cpus =
        some (ret, reqs', cpus')) :
      Step c imem own s { s with
        cpus := cpus', tables := { s.tables with instRqs := reqs', imem := before ++ after } }
  | otherMaster (a : Word) (hown : own a = none) (line : Line) :
      Step c imem own s { s with mem := Function.update s.mem a line }

/-- The runs of a SIMT core. Nothing happens after it stopped. -/
abbrev Reachable (c : SimtRiscv64 C) (imem : Word → Line) (own : Word → Option Nat)
    (start s : System C) : Prop :=
  ReflTransGen (fun s s' => s.halted = none ∧ System.Step c imem own s s') start s

variable {regs : Nat → BitVec 5 → Word} {mem₀ : Word → Line} {cpus₀ : Nat → Cpu C}

/-- The interpreter that lane `i` is compared with. -/
def laneSeq (c : SimtRiscv64 C) (regs : Nat → BitVec 5 → Word) (mem₀ : Word → Line) (i : Nat) :
    Seq (Word → Line) :=
  .init ⟨laneRcv i, regs i, c.conf.startPc⟩ mem₀

/-- Lane `i` is where its interpreter is after so many instructions. -/
def LaneRun (c : SimtRiscv64 C) (imem : Word → Line) (own : Word → Option Nat)
    (regs : Nat → BitVec 5 → Word) (mem₀ : Word → Line) (mem : Word → Line)
    (applied : Packet → Option Line) (t : Wires) (i : Nat) (cpu : Cpu C) : Prop :=
  ∃ k u, (laneSeq c regs mem₀ i).run (lineMemories imem) k = some (.OK, u) ∧
    CpuInv (lineMemories imem) (sides c own i mem applied) (laneRcv i) (fun p => own p.dst = some i)
      cpu u t

/-- What holds while the core runs. A lane from `2 ^ 31` on never gets to its first clock, because
the interfaces index their tables by an `int32_t`. -/
structure Running (c : SimtRiscv64 C) (imem : Word → Line) (own : Word → Option Nat)
    (regs : Nat → BitVec 5 → Word) (mem₀ : Word → Line) (cpus₀ : Nat → Cpu C) (mem : Word → Line)
    (applied : Packet → Option Line) (cpus : Nat → Cpu C) (t : Wires) : Prop where
  dataOk : ∃ flying, DataOk c own applied t flying
  instOk : ∃ flying, InstOk c t flying
  lanes : ∀ i < c.conf.numLanes, i < 2 ^ 31 → LaneRun c imem own regs mem₀ mem applied t i (cpus i)
  rest : ∀ i, 2 ^ 31 ≤ i → cpus i = cpus₀ i

omit [DecidableEq C] in
/-- The receive address of a lane. -/
theorem LaneRun.rcv {i : Nat} {cpu : Cpu C} (h : LaneRun c imem own regs mem₀ mem applied t i cpu) :
    cpu.rcv = laneRcv i := by
  obtain ⟨_, _, _, hinv⟩ := h
  exact hinv.rcv_eq

omit [DecidableEq C] in
/-- A lane has run what the interpreter runs. -/
theorem LaneRun.sees {i : Nat} {cpu : Cpu C}
    (h : LaneRun c imem own regs mem₀ mem applied t i cpu) :
    (laneSeq c regs mem₀ i).Sees (lineMemories imem) cpu.trace := by
  obtain ⟨k, u, hrun, hinv⟩ := h
  rw [hinv.trace]
  exact (Seq.run_trace rfl hrun).2

omit [DecidableEq C] in
/-- A lane keeps its place when the tables keep what they owe it. -/
theorem LaneRun.kept {i : Nat} {cpu : Cpu C} (h : LaneRun c imem own regs mem₀ mem applied t i cpu)
    (hdata : ∀ owed smem acc, (sides c own i mem applied).data owed smem acc t →
      (sides c own i mem' applied').data owed smem acc t')
    (hfetch : ∀ owed, (sides c own i mem applied).fetch owed t →
      (sides c own i mem' applied').fetch owed t') :
    LaneRun c imem own regs mem₀ mem' applied' t' i cpu := by
  obtain ⟨k, u, hrun, hinv⟩ := h
  exact ⟨k, u, hrun, hinv.kept hdata hfetch rfl rfl rfl rfl hinv.ctrl⟩

omit [DecidableEq C] in
/-- The clock of one lane leaves the others where they are. -/
theorem Running.clocked (h : Running c imem own regs mem₀ cpus₀ mem applied cpus t) {a : Nat}
    (hint : a < 2 ^ 31) (hframe : Unseen c own mem applied a t t') {cpu : Cpu C}
    (hlane : LaneRun c imem own regs mem₀ mem applied t' a cpu) :
    Running c imem own regs mem₀ cpus₀ mem applied (Function.update cpus a cpu) t' where
  dataOk := hframe.dataOk h.dataOk
  instOk := hframe.instOk h.instOk
  lanes i hi hi' := by
    by_cases hne : i = a
    · subst hne
      rwa [Function.update_self]
    · rw [Function.update_of_ne hne]
      exact (h.lanes i hi hi').kept (hframe.data i hne) (hframe.fetch i hne)
  rest i hi := by
    have hne : i ≠ a := by omega
    rw [Function.update_of_ne hne]
    exact h.rest i hi

omit [DecidableEq C] in
/-- The receive address of every lane. -/
theorem Running.rcv (h : Running c imem own regs mem₀ cpus₀ mem applied cpus t) (j : Nat)
    (hj : j < c.conf.numLanes) (hint : j < 2 ^ 31) : (cpus j).rcv = laneRcv j :=
  (h.lanes j hj hint).rcv

omit [DecidableEq C] in
/-- A lane that has not run anything yet. -/
theorem sees_nil (i : Nat) : (laneSeq c regs mem₀ i).Sees (lineMemories imem) [] := by
  intro j r h
  simp at h

omit [DecidableEq C] in
/-- Every lane has run what the interpreter runs. -/
theorem Running.sees (hcreate : ∀ i < c.conf.numLanes, c.createLane regs i = some (cpus₀ i))
    (h : Running c imem own regs mem₀ cpus₀ mem applied cpus t) (i : Nat)
    (hi : i < c.conf.numLanes) :
    (laneSeq c regs mem₀ i).Sees (lineMemories imem) (cpus i).trace := by
  by_cases hint : i < 2 ^ 31
  · exact (h.lanes i hi hint).sees
  · rw [h.rest i (by omega), (Timing.create_inv (m := lineMemories imem) mem₀ (hcreate i hi)).1]
    exact sees_nil i

/-! ## The clock -/

section Clock

variable {danswer ianswer : Packet → Stat} {ret : Stat}

/-- The loop over the lanes leaves the others alone. -/
theorem clockLanes_other {l : List Nat} {i : Nat} (hi : i ∉ l)
    (h : c.clockLanes (memPorts danswer) (memPorts ianswer) cpus t l = some (ret, cpus', t')) :
    cpus' i = cpus i := by
  induction l generalizing cpus t with
  | nil =>
      cases h
      rfl
  | cons j l ih =>
      obtain ⟨⟨r, cpu, t₁⟩, -, h⟩ := Option.bind_eq_some_iff.1 h
      dsimp only at h
      have hij : i ≠ j := fun hij => hi (hij ▸ List.mem_cons_self)
      split at h
      · cases h
        rw [Function.update_of_ne hij]
      · rw [ih (fun hl => hi (List.mem_cons_of_mem j hl)) h, Function.update_of_ne hij]

/-- The index of lane `2 ^ 31` does not fit into an `int32_t`. -/
theorem clock_stuck {cpu : Cpu C} (hcreate : c.createLane regs (2 ^ 31) = some cpu) :
    Cpu.simpleRiscv64Clock (c.cpuPorts (memPorts danswer) (memPorts ianswer) (2 ^ 31)) cpu t =
      none := by
  obtain ⟨pkt, hpkt, h⟩ := Option.bind_eq_some_iff.1 hcreate
  cases h
  have hsrc : pkt.src = laneRcv (2 ^ 31) + 64 := (Core.fetch_spec hpkt).src
  have hlane : ¬ laneOf pkt.src < 2 ^ 31 := by
    rw [hsrc]
    decide +kernel
  have hrecv : c.imemIntf.simtRiscv64Receive (memPorts ianswer) (c.lane (2 ^ 31)) pkt t.instRqs
      t.imem = none := by
    have hguard : (guard (laneOf pkt.src < 2 ^ 31) : Option Unit) = none := if_neg hlane
    rw [simtRiscv64Receive, if_neg (show ¬ c.imemIntf.mem = _ from c.lane_ne_imem _)]
    dsimp only
    rw [hguard]
    rfl
  simp only [Cpu.simpleRiscv64Clock, Cpu.clockCtrl, Cpu.clockData, Cpu.clockSend, Ldst.idle,
    cpuPorts, hrecv, Option.bind_eq_bind, Option.bind_some, Option.bind_none, ne_eq,
    not_true_eq_false, if_false,
    if_true, Bool.not_true, Bool.false_eq_true]

/-- The lanes are clocked one after the other, from lane `a` on. -/
theorem clockLanes_inv (hd : ∀ p, danswer p = .OK ∨ danswer p = .EBUSY)
    (hians : ∀ p, ianswer p = .OK ∨ ianswer p = .EBUSY)
    (hrcv : c.conf.dataRcv.truncate 32 = 0#32)
    (hcreate : ∀ i < c.conf.numLanes, c.createLane regs i = some (cpus₀ i)) {a len : Nat}
    (ha : a ≤ 2 ^ 31) (hlen : a + len ≤ c.conf.numLanes)
    (hrun : Running c imem own regs mem₀ cpus₀ mem applied cpus t)
    (h : c.clockLanes (memPorts danswer) (memPorts ianswer) cpus t (List.range' a len) =
      some (ret, cpus', t'))
    (hown : ∀ i < c.conf.numLanes, (cpus' i).dls.Asks → own (cpus' i).dls.pkt.dst = some i) :
    (ret = .OK → Running c imem own regs mem₀ cpus₀ mem applied cpus' t') ∧
      (ret ≠ .OK → ∀ i < c.conf.numLanes,
        (laneSeq c regs mem₀ i).Sees (lineMemories imem) (cpus' i).trace) := by
  induction len generalizing a cpus t with
  | zero =>
      cases h
      exact ⟨fun _ => hrun, fun hne => absurd rfl hne⟩
  | succ len ih =>
      rw [List.range'_succ] at h
      obtain ⟨⟨r, cpu, t₁⟩, hclock, h⟩ := Option.bind_eq_some_iff.1 h
      dsimp only at h
      have halt : a < c.conf.numLanes := by omega
      rcases Nat.eq_or_lt_of_le ha with rfl | hint
      · rw [hrun.rest _ le_rfl, clock_stuck (hcreate _ halt)] at hclock
        cases hclock
      have hcpu : cpus' a = cpu := by
        split at h
        · cases h
          rw [Function.update_self]
        · rw [clockLanes_other (by simp) h, Function.update_self]
      obtain ⟨k, u, hseq, hinv⟩ := hrun.lanes a halt hint
      obtain ⟨hframe, hclocked⟩ := Cpu.clock_inv (cpuPorts_ok hd hians halt hint hrcv) hinv hclock
        (hcpu ▸ hown a halt)
      have hnext (hr : r = .OK) (hlane : LaneRun c imem own regs mem₀ mem applied t₁ a cpu) := by
        rw [if_neg (by simp [hr])] at h
        exact ih (by omega) (by omega) (hrun.clocked hint hframe hlane) h
      cases hclocked with
      | waited hret hinv' => exact hnext hret ⟨k, u, hseq, hinv'⟩
      | ran hret u' hstep hinv' =>
          exact hnext hret ⟨k + 1, u', (Seq.run_succ hseq).trans hstep, hinv'⟩
      | stopped hret u' hstep htrace hidle hside =>
          rw [if_pos hret] at h
          cases h
          refine ⟨fun hok => absurd hok hret, fun _ i hi => ?_⟩
          by_cases hne : i = a
          · subst hne
            rw [Function.update_self, htrace]
            exact (Seq.run_trace rfl ((Seq.run_succ hseq).trans hstep)).2
          · rw [Function.update_of_ne hne]
            exact hrun.sees hcreate i hi

omit [DecidableEq C] in
/-- Sending queued data requests keeps the lanes running. -/
theorem sendData_running (hd : ∀ p, danswer p = .OK ∨ danswer p = .EBUSY)
    (hrun : Running c imem own regs mem₀ cpus₀ mem applied cpus t) {reqs' : Reqs}
    {dmem' : List Packet} (h : c.dmemIntf.sendQueued (memPorts danswer) t.dataRqs t.dmem
      (List.range c.conf.numLanes) = some (ret, reqs', dmem')) :
    ret = .OK ∧ Running c imem own regs mem₀ cpus₀ mem applied cpus
      { t with dataRqs := reqs', dmem := dmem' } := by
  obtain ⟨flying, hdata⟩ := hrun.dataOk
  obtain ⟨reqs₁, dmem₁, flying', hsend, hinv, hsub, hreg⟩ :=
    sendQueued_inv hd (fun i hi => List.mem_range.1 hi) hdata.inv
  cases hsend.symm.trans h
  have hok : DataOk c own applied { t with dataRqs := reqs', dmem := dmem' } flying' := by
    refine ⟨hinv, fun j hj => ?_, fun p hp => hsub.subset (hdata.applied p hp)⟩
    simp only [hreg] at hj ⊢
    exact hdata.request j hj
  have hinst : ∃ flying, InstOk c { t with dataRqs := reqs', dmem := dmem' } flying :=
    instOk_congr (t := t) rfl rfl hrun.instOk
  exact ⟨rfl, ⟨flying', hok⟩, hinst, fun i hi hi' => (hrun.lanes i hi hi').kept
    (fun _ _ _ => sides_data_kept ⟨flying', hok⟩ (hreg i) (fun _ _ => rfl) (fun _ => rfl))
    (fun _ => sides_fetch_kept (t := t) hinst rfl), hrun.rest⟩

omit [DecidableEq C] in
/-- Sending queued fetches keeps the lanes running. -/
theorem sendInst_running (hians : ∀ p, ianswer p = .OK ∨ ianswer p = .EBUSY)
    (hrun : Running c imem own regs mem₀ cpus₀ mem applied cpus t) {reqs' : Reqs}
    {imem' : List Packet} (h : c.imemIntf.sendQueued (memPorts ianswer) t.instRqs t.imem
      (List.range c.conf.numLanes) = some (ret, reqs', imem')) :
    ret = .OK ∧ Running c imem own regs mem₀ cpus₀ mem applied cpus
      { t with instRqs := reqs', imem := imem' } := by
  obtain ⟨flying, hinst⟩ := hrun.instOk
  obtain ⟨reqs₁, imem₁, flying', hsend, hinv, hsub, hreg⟩ :=
    sendQueued_inv hians (fun i hi => List.mem_range.1 hi) hinst.inv
  cases hsend.symm.trans h
  have hok : InstOk c { t with instRqs := reqs', imem := imem' } flying' := by
    refine ⟨hinv, fun j hj => ?_⟩
    simp only [hreg] at hj ⊢
    exact hinst.request j hj
  have hdata :
      ∃ flying, DataOk c own applied { t with instRqs := reqs', imem := imem' } flying :=
    dataOk_congr (t := t) rfl rfl hrun.dataOk
  exact ⟨rfl, hdata, ⟨flying', hok⟩, fun i hi hi' => (hrun.lanes i hi hi').kept
    (fun _ _ _ => sides_data_kept (t := t) hdata rfl (fun _ _ => rfl) (fun _ => rfl))
    (fun _ => sides_fetch_kept ⟨flying', hok⟩ (hreg i)), hrun.rest⟩

/-- A clock of the SIMT core. -/
theorem simtRiscv64Clock_inv (hd : ∀ p, danswer p = .OK ∨ danswer p = .EBUSY)
    (hians : ∀ p, ianswer p = .OK ∨ ianswer p = .EBUSY) (hrcv : c.conf.dataRcv.truncate 32 = 0#32)
    (hcreate : ∀ i < c.conf.numLanes, c.createLane regs i = some (cpus₀ i))
    (hrun : Running c imem own regs mem₀ cpus₀ mem applied cpus t)
    (h : c.simtRiscv64Clock (memPorts danswer) (memPorts ianswer) cpus t = some (ret, cpus', t'))
    (hown : ∀ i < c.conf.numLanes, (cpus' i).dls.Asks → own (cpus' i).dls.pkt.dst = some i) :
    (ret = .OK → Running c imem own regs mem₀ cpus₀ mem applied cpus' t') ∧
      (ret ≠ .OK → ∀ i < c.conf.numLanes,
        (laneSeq c regs mem₀ i).Sees (lineMemories imem) (cpus' i).trace) := by
  obtain ⟨⟨r, reqs', dmem'⟩, hdata, h⟩ := Option.bind_eq_some_iff.1 h
  obtain ⟨rfl, hrun₁⟩ := sendData_running hd hrun hdata
  obtain ⟨⟨r, reqs'', imem'⟩, hinst, h⟩ := Option.bind_eq_some_iff.1 h
  obtain ⟨rfl, hrun₂⟩ := sendInst_running hians hrun₁ hinst
  exact clockLanes_inv hd hians hrcv hcreate (by omega) (by omega) hrun₂
    (List.range_eq_range' ▸ h) hown

end Clock

/-! ## Steps of a run -/

section Steps

variable {s s' : System C}

omit [DecidableEq C] in
/-- A data request is applied. -/
theorem apply_running (hrcv : c.conf.dataRcv.truncate 32 = 0#32)
    (hrun : Running c imem own regs mem₀ cpus₀ mem applied cpus t) {p : Packet} (hp : p ∈ t.dmem)
    (hnew : applied p = none) :
    Running c imem own regs mem₀ cpus₀ (applyLine mem p).1
      (Function.update applied p (some (applyLine mem p).2)) cpus t := by
  obtain ⟨flying, hdata⟩ := hrun.dataOk
  have hok : DataOk c own (Function.update applied p (some (applyLine mem p).2)) t flying := by
    refine ⟨hdata.inv, hdata.request, fun q hq => ?_⟩
    by_cases h : q = p
    · exact h ▸ hp
    · rw [Function.update_of_ne h] at hq
      exact hdata.applied q hq
  have hmem := hp
  rw [hdata.inv.flight] at hmem
  obtain ⟨j, hj, hsent⟩ := List.mem_map.1 hmem
  have hbusy := (hdata.inv.sent j hj).1
  obtain ⟨hjint, hjown, -, hjflags⟩ := hdata.request j hbusy
  have hdst : p.dst = (t.dataRqs j).reg.pkt.dst := by rw [← hsent, sentPacket, extPacket_dst]
  refine ⟨⟨flying, hok⟩, hrun.instOk, fun i hi hi' => ?_, hrun.rest⟩
  by_cases hij : i = j
  · subst hij
    refine (hrun.lanes i hi hi').kept (fun owed smem acc h => ⟨⟨flying, hok⟩, ?_⟩)
      fun owed h => sides_fetch_kept hrun.instOk rfl h
    cases owed with
    | none =>
        rw [h.2.1] at hbusy
        cases hbusy
    | some owed =>
        obtain ⟨q, line, told⟩ := owed
        obtain ⟨-, hslot, htaken⟩ := h
        have hsame : applyLine mem p = applyLine mem q := by
          rw [← hsent, sentPacket, applyLine_extPacket _ hjflags, hslot]
        rw [hsent, hnew] at htaken
        refine ⟨hslot, ?_⟩
        rw [hsent, Function.update_self, hsame]
        exact htaken
  · refine (hrun.lanes i hi hi').kept (fun owed smem acc h => sides_data_kept ⟨flying, hok⟩ rfl
      (applyLine_other ?_).symm (fun hibusy => Function.update_of_ne (fun hsame => hij ?_) _ _) h)
      fun owed h => sides_fetch_kept hrun.instOk rfl h
    · rw [hdst, hjown]
      simpa using fun h => hij h.symm
    · exact sentPacket_inj hrcv (by omega) (by omega) (hsame.trans hsent.symm)

/-- A reply to a data request arrives. -/
theorem dataReply_running (hrcv : c.conf.dataRcv.truncate 32 = 0#32)
    (hrun : Running c imem own regs mem₀ cpus₀ mem applied cpus t)
    {before after : List Packet} {p r : Packet} (hflight : t.dmem = before ++ p :: after)
    {line : Line} (happ : applied p = some line) (hr : IsReply p r)
    (hdata : isSet r PACKET_READ = true → r.data = line) {intf : C} {ret : Stat} {reqs' : Reqs}
    (h : c.dmemIntf.simtRiscv64Receive (replyPorts intf) c.dmem r t.dataRqs cpus =
      some (ret, reqs', cpus')) :
    Running c imem own regs mem₀ cpus₀ mem (Function.update applied p none) cpus'
      { t with dataRqs := reqs', dmem := before ++ after } := by
  obtain ⟨flying, hok⟩ := hrun.dataOk
  obtain ⟨j, hjint, hbusy, hsent, hok', hfree, hself, hans, hother⟩ :=
    data_reply hrcv hok hrun.rcv hflight hr h
  have hinst : ∃ flying, InstOk c { t with dataRqs := reqs', dmem := before ++ after } flying :=
    instOk_congr (t := t) rfl rfl hrun.instOk
  refine ⟨hok', hinst, fun i hi hi' => ?_, fun i hi => ?_⟩
  · by_cases hij : i = j
    · subst hij
      obtain ⟨k, u, hseq, hinv⟩ := hrun.lanes i hi hi'
      have hans' {q : Packet} {line' : Line} {told : Bool} {smem : Word → Line} {acc : List Packet}
          (hs : (sides c own i mem applied).data (some (q, line', told)) smem acc t) :
          IsAnswer q line' (laneReply (t.dataRqs i) r) ∧
            (sides c own i mem (Function.update applied p none)).data none smem acc
              { t with dataRqs := reqs', dmem := before ++ after } := by
        obtain ⟨-, hslot, htaken⟩ := hs
        rw [← hsent, happ] at htaken
        rw [hslot] at hans
        refine ⟨⟨hans.dst, hans.mask, hans.read, hans.error, fun hread k _ => ?_⟩, hok', hfree,
          htaken.1⟩
        have hr : r.data = line := hdata (hans.read.trans hread)
        rw [← htaken.2 hread, ← hr]
        rfl
      obtain ⟨cpu, hcpu, hinv'⟩ := Cpu.receive_data
        (⟨fun _ _ => none, fun _ _ => none, fun _ _ _ => none⟩ : CpuPorts C Wires) intf hinv
        (fun smem acc hs => by rw [hs.2.1] at hbusy; cases hbusy) hans'
        fun owed hs => sides_fetch_kept (t := t) hinst rfl hs
      have hdst : (laneReply (t.dataRqs i) r).dst = (cpus i).rcv := by
        rw [hans.dst, (hok.request i hbusy).2.2.1, hrun.rcv i hi hi']
      have hsame : cpu = cpus' i := (Cpu.eq_answered (hcpu t) (.inl hdst)).trans hself.symm
      exact ⟨k, u, hseq, hsame ▸ hinv'⟩
    · rw [(hother i hij).2]
      refine (hrun.lanes i hi hi').kept (fun owed smem acc hs => sides_data_kept hok'
        (hother i hij).1 (fun _ _ => rfl)
        (fun hibusy => Function.update_of_ne (fun hsame => hij ?_) _ _)
        hs) fun owed hs => sides_fetch_kept (t := t) hinst rfl hs
      exact sentPacket_inj hrcv (by omega) (by omega) (hsame.trans hsent)
  · rw [(hother i (by omega)).2]
    exact hrun.rest i hi

/-- A reply to a fetch arrives. -/
theorem instReply_running (hrcv : c.conf.instRcv.truncate 32 = 0#32)
    (hrun : Running c imem own regs mem₀ cpus₀ mem applied cpus t)
    {before after : List Packet} {p r : Packet} (hflight : t.imem = before ++ p :: after)
    (hr : IsReply p r) (hdata : isSet r PACKET_READ = true → r.data = imem r.src) {intf : C}
    {ret : Stat} {reqs' : Reqs}
    (h : c.imemIntf.simtRiscv64Receive (replyPorts intf) c.imem r t.instRqs cpus =
      some (ret, reqs', cpus')) :
    Running c imem own regs mem₀ cpus₀ mem applied cpus'
      { t with instRqs := reqs', imem := before ++ after } := by
  obtain ⟨flying, hok⟩ := hrun.instOk
  obtain ⟨hok', hfetched⟩ := inst_reply hrcv hok hrun.rcv hflight hr h
  have hdataOk : ∃ flying, DataOk c own applied
      { t with instRqs := reqs', imem := before ++ after } flying :=
    dataOk_congr (t := t) rfl rfl hrun.dataOk
  have hdataKept (i : Nat) {owed : Option (Packet × Line × Bool)} {smem : Word → Line}
      {acc : List Packet} (hs : (sides c own i mem applied).data owed smem acc t) :
      (sides c own i mem applied).data owed smem acc
        { t with instRqs := reqs', imem := before ++ after } :=
    sides_data_kept (t := t) hdataOk rfl (fun _ _ => rfl) (fun _ => rfl) hs
  refine ⟨hdataOk, hok', fun i hi hi' => ?_, fun i hi => ?_⟩
  · cases hfetched i with
    | other hreq hlane =>
        rw [hlane]
        exact (hrun.lanes i hi hi').kept (fun _ _ _ => hdataKept i)
          fun _ => sides_fetch_kept (t := t) hok' hreq
    | lane hbusy hfree hlane hans =>
        obtain ⟨k, u, hseq, hinv⟩ := hrun.lanes i hi hi'
        have hans' {q : Packet} {told : Bool}
            (hs : (sides c own i mem applied).fetch (some (q, told)) t) :
            IsAnswer q ((lineMemories imem).imem q) (laneReply (t.instRqs i) r) ∧
              (sides c own i mem applied).fetch none
                { t with instRqs := reqs', imem := before ++ after } := by
          have hslot : (t.instRqs i).reg = ⟨q, true⟩ := hs.2
          rw [hslot] at hans
          refine ⟨⟨hans.dst, hans.mask, hans.read, hans.error, fun hread k _ => ?_⟩, hok', hfree⟩
          have hsrc : r.src = q.dst := hans.src
          have hr : r.data = imem r.src := hdata (hans.read.trans hread)
          show r.data k = imem q.dst k
          rw [hr, hsrc]
        obtain ⟨cpu, hcpu, hinv'⟩ := Cpu.receive_fetch
          (⟨fun _ _ => none, fun _ _ => none, fun _ _ _ => none⟩ : CpuPorts C Wires) intf hinv
          (fun hs => by rw [show (t.instRqs i).reg.busy = false from hs.2] at hbusy; cases hbusy)
          hans' fun owed smem acc => hdataKept i
        have hdst : (laneReply (t.instRqs i) r).dst = (cpus i).rcv + 64 := by
          rw [hans.dst, (hok.request i hbusy).2, hrun.rcv i hi hi']
        have hsame : cpu = cpus' i := (Cpu.eq_answered (hcpu t) (.inr hdst)).trans hlane.symm
        exact ⟨k, u, hseq, hsame ▸ hinv'⟩
  · cases hfetched i with
    | other hreq hlane => rw [hlane]; exact hrun.rest i hi
    | lane hbusy => exact absurd (hok.request i hbusy).1 (by omega)

omit [DecidableEq C] in
/-- Another master writes a line that no lane touches. -/
theorem otherMaster_running (hrun : Running c imem own regs mem₀ cpus₀ mem applied cpus t)
    {a : Word}
    (hown : own a = none) (line : Line) :
    Running c imem own regs mem₀ cpus₀ (Function.update mem a line) applied cpus t := by
  refine ⟨hrun.dataOk, hrun.instOk, fun i hi hi' => (hrun.lanes i hi hi').kept
    (fun _ _ _ => sides_data_kept hrun.dataOk rfl (fun b hb => ?_) fun _ => rfl)
    (fun _ => sides_fetch_kept hrun.instOk rfl), hrun.rest⟩
  have hne : b ≠ a := by
    rintro rfl
    rw [hown] at hb
    cases hb
  rw [Function.update_of_ne hne]

/-- What holds in every reachable state. -/
structure Good (c : SimtRiscv64 C) (imem : Word → Line) (own : Word → Option Nat)
    (regs : Nat → BitVec 5 → Word) (mem₀ : Word → Line) (cpus₀ : Nat → Cpu C) (s : System C) :
    Prop where
  running : s.halted = none →
    Running c imem own regs mem₀ cpus₀ s.mem s.applied s.cpus s.tables
  sees : ∀ i < c.conf.numLanes, (laneSeq c regs mem₀ i).Sees (lineMemories imem) (s.cpus i).trace

/-- A step keeps the lanes in step with their interpreters. -/
theorem step_good (hdrcv : c.conf.dataRcv.truncate 32 = 0#32)
    (hircv : c.conf.instRcv.truncate 32 = 0#32)
    (hcreate : ∀ i < c.conf.numLanes, c.createLane regs i = some (cpus₀ i))
    (hgood : Good c imem own regs mem₀ cpus₀ s) (hlive : s.halted = none)
    (h : System.Step c imem own s s') : Good c imem own regs mem₀ cpus₀ s' := by
  have hrun := hgood.running hlive
  have hall {s' : System C}
      (hrun : Running c imem own regs mem₀ cpus₀ s'.mem s'.applied s'.cpus s'.tables) :
      Good c imem own regs mem₀ cpus₀ s' := ⟨fun _ => hrun, hrun.sees hcreate⟩
  cases h with
  | clock danswer ianswer hd hi ret cpus' t' h hown =>
      obtain ⟨hok, hstop⟩ := simtRiscv64Clock_inv hd hi hdrcv hcreate hrun h hown
      by_cases hret : ret = .OK
      · exact hall (hok hret)
      · exact ⟨fun hhalt => by simp [hret] at hhalt, hstop hret⟩
  | apply p hp hnew => exact hall (apply_running hdrcv hrun hp hnew)
  | dataReply before p after hflight line happ r hr hdata intf ret reqs' cpus' h =>
      exact hall (dataReply_running hdrcv hrun hflight happ hr hdata h)
  | instReply before p after hflight r hr hdata intf ret reqs' cpus' h =>
      exact hall (instReply_running hircv hrun hflight hr hdata h)
  | otherMaster a hown line => exact hall (otherMaster_running hrun hown line)

/-- In every reachable state the lanes are in step with their interpreters. -/
theorem Reachable.good {mem₀ : Word → Line} (hdrcv : c.conf.dataRcv.truncate 32 = 0#32)
    (hircv : c.conf.instRcv.truncate 32 = 0#32)
    (hcreate : ∀ i < c.conf.numLanes, c.createLane regs i = some (cpus₀ i))
    (h : Reachable c imem own (.init cpus₀ mem₀) s) : Good c imem own regs mem₀ cpus₀ s := by
  induction h with
  | refl =>
      have hdata : ∃ flying, DataOk c own (fun _ => none) (createTables [] []) flying :=
        ⟨[], inv_init, fun j hj => (by cases hj), fun p hp => absurd rfl hp⟩
      have hinst : ∃ flying, InstOk c (createTables [] []) flying :=
        ⟨[], inv_init, fun j hj => by cases hj⟩
      have hrun : Running c imem own regs mem₀ cpus₀ mem₀ (fun _ => none) cpus₀
          (createTables [] []) := by
        refine ⟨hdata, hinst, fun i hi hi' => ⟨0, _, rfl, ?_⟩, fun _ _ => rfl⟩
        obtain ⟨pkt, hpkt, h⟩ := Option.bind_eq_some_iff.1 (hcreate i hi)
        rw [← Option.some.inj h]
        exact ⟨rfl, rfl, Timing.idle_error, .inl rfl, .idle rfl rfl ⟨hdata, rfl, fun _ _ => rfl⟩,
          .refused rfl hpkt ⟨hinst, rfl⟩⟩
      exact ⟨fun _ => hrun, hrun.sees hcreate⟩
  | tail _ hstep ih => exact step_good hdrcv hircv hcreate ih hstep.1 hstep.2

end Steps

/-! ## The result -/

/-- Each lane of a SIMT core executes what a simple core executes that starts with the registers of
the lane and runs alone on the same memories, whatever the number of lanes, the order of refusals
and answers, and the other lanes do. -/
theorem simtRiscv64_lanes_alone (hdrcv : c.conf.dataRcv.truncate 32 = 0#32)
    (hircv : c.conf.instRcv.truncate 32 = 0#32)
    (hcreate : ∀ i < c.conf.numLanes, c.createLane regs i = some (cpus₀ i)) {s : System C}
    (h : Reachable c imem own (.init cpus₀ mem₀) s) (i : Nat) (hi : i < c.conf.numLanes)
    {alone : Timing.System (Word → Line) C}
    (halone : Timing.Reachable (lineMemories imem) (.init (cpus₀ i) mem₀) alone) (k : Nat)
    {r r' : Ran} (hr : (s.cpus i).trace.reverse[k]? = some r)
    (hr' : alone.cpu.trace.reverse[k]? = some r') : r.regs = r'.regs ∧ r.pc = r'.pc := by
  have hsees := (h.good hdrcv hircv hcreate).sees i hi
  obtain ⟨n, ret, u, hseq, hrel⟩ := Timing.reachable_related (hcreate i hi) halone
  have htrace : alone.cpu.trace = u.trace := by
    obtain ⟨-, -, hinv⟩ | ⟨-, -, hstopped⟩ := hrel
    · exact hinv.trace
    · exact hstopped.trace
  have hsees' : (laneSeq c regs mem₀ i).Sees (lineMemories imem) alone.cpu.trace := by
    rw [htrace]
    exact (Seq.run_trace rfl hseq).2
  obtain rfl := hsees.unique hsees' hr hr'
  exact ⟨rfl, rfl⟩

/-- Two lanes, of components 2 and 3, between the instruction memory 0 and the data memory 1. -/
def twoLanes : SimtRiscv64 Nat where
  conf := ⟨0, 0, 0, 2⟩
  imem := 0
  dmem := 1
  lane i := i + 2
  lane_ne_imem i := by omega
  lane_ne_dmem i := by omega

/-- A program of nothing but `ld x1, 0(x2)`. -/
def loadX2 : Word → Line := fun _ i =>
  match i.val % 4 with
  | 0 => 0x83
  | 1 => 0x30
  | 2 => 0x01
  | _ => 0

/-- Lane `i` works on line `i`. -/
def ownLine (a : Word) : Option Nat := if a = 0 then some 0 else if a = 64 then some 1 else none

/-- Register `x2` of lane `i` is the address of line `i`. -/
def startRegs (i : Nat) (r : BitVec 5) : Word := if r = 2 then BitVec.ofNat 64 (64 * i) else 0

/-- Lane `i` at its start. -/
def lanesAt (i : Nat) : Cpu Nat :=
  { rcv := laneRcv i, regs := startRegs i, pc := 0
    dls := .idle
    ils := ⟨⟨laneRcv i + 64, 0, 15, 0, fun _ => 0, PACKET_READ⟩, .BLOCKED, 0, false⟩
    cls := .idle, ctrl := none, sleep := false, trace := [] }

/-- Line `a` is filled with its number. -/
def numbered (a : Word) : Line := fun _ => (a >>> 6).truncate 8

/-- The lanes of the example are created. -/
theorem lanesAt_create : ∀ i < twoLanes.conf.numLanes,
    twoLanes.createLane startRegs i = some (lanesAt i) := by
  intro i hi
  match i, hi with
  | 0, _ => rfl
  | 1, _ => rfl

/-- The two lanes have no data request, or work on their lines. -/
theorem ownLine_two {cpus : Nat → Cpu Nat}
    (h : ∀ i : Fin 2, (cpus i).dls.state = .IDLE ∨ ownLine (cpus i).dls.pkt.dst = some i.val) :
    ∀ i < twoLanes.conf.numLanes, (cpus i).dls.Asks → ownLine (cpus i).dls.pkt.dst = some i := by
  intro i hi hasks
  refine (h ⟨i, hi⟩).resolve_left fun hidle => ?_
  simp [Ldst.Asks, show (cpus i).dls.state = .IDLE from hidle] at hasks

/-- Both lanes fetch in one request, load their lines, and are answered in the other order. -/
theorem loads_reachable : ∃ s, Reachable twoLanes loadX2 ownLine (.init lanesAt numbered) s ∧
    (s.cpus 1).trace.length = 2 ∧
    (s.cpus 1).trace.head?.map (·.regs 1) = some 0x0101010101010101 := by
  have hok : ∀ p : Packet, (fun _ => Stat.OK) p = .OK ∨ (fun _ => Stat.OK) p = .EBUSY :=
    fun _ => .inl rfl
  have hbusy : ∀ p : Packet, (fun _ => Stat.EBUSY) p = .OK ∨ (fun _ => Stat.EBUSY) p = .EBUSY :=
    fun _ => .inr rfl
  refine ⟨_,
    .head ⟨rfl, .clock _ _ hok hok _ _ _ rfl (ownLine_two fun | 0 => .inl rfl | 1 => .inl rfl)⟩ <|
    .head ⟨rfl, .instReply [] _ [] rfl _ ⟨loadX2 0, rfl⟩ (fun _ => rfl) 0 _ _ _ rfl⟩ <|
    .head ⟨rfl, .clock _ _ hbusy hok _ _ _ rfl (ownLine_two fun | 0 => .inr rfl | 1 => .inr rfl)⟩ <|
    .head ⟨rfl, .clock _ _ hok hok _ _ _ rfl (ownLine_two fun | 0 => .inr rfl | 1 => .inr rfl)⟩ <|
    .head ⟨rfl, .apply _ (.tail _ (.head _)) rfl⟩ <|
    .head ⟨rfl,
      .dataReply [_] _ [] rfl (numbered 64) rfl _ ⟨numbered 64, rfl⟩ (fun _ => rfl) 0 _ _ _
      rfl⟩ <|
    .head ⟨rfl, .apply _ (.head _) rfl⟩ <|
    .head ⟨rfl, .dataReply [] _ [] rfl (numbered 0) rfl _ ⟨numbered 0, rfl⟩ (fun _ => rfl) 0 _ _ _
      rfl⟩ <|
    .head ⟨rfl, .instReply [] _ [] rfl _ ⟨loadX2 0, rfl⟩ (fun _ => rfl) 0 _ _ _ rfl⟩ <|
    .head ⟨rfl, .clock _ _ hok hok _ _ _ rfl (ownLine_two fun | 0 => .inr rfl | 1 => .inr rfl)⟩
    .refl, ?_, ?_⟩
  · rfl
  · rfl

/-- Lane 1 alone. -/
theorem alone_reachable : ∃ s, Timing.Reachable (lineMemories loadX2)
    (.init (lanesAt 1) numbered) s ∧
    s.cpu.trace.length = 2 := by
  refine ⟨_,
    .head ⟨rfl, .clock ⟨false, false, false⟩ _ _ _ rfl⟩ <|
    .head ⟨rfl, .answerFetch [] _ [] rfl 0 (answer _ _) (answer_isAnswer (.inl rfl) _)
      ⟨false, false, false⟩ _ _ _ rfl⟩ <|
    .head ⟨rfl, .clock ⟨false, false, false⟩ _ _ _ rfl⟩ <|
    .head ⟨rfl, .apply [] _ [] rfl⟩ <|
    .head ⟨rfl, .answerData [] _ _ [] rfl 0 (answer _ _) (answer_isAnswer (.inl rfl) _)
      ⟨false, false, false⟩ _ _ _ rfl⟩ <|
    .head ⟨rfl, .answerFetch [] _ [] rfl 0 (answer _ _) (answer_isAnswer (.inl rfl) _)
      ⟨false, false, false⟩ _ _ _ rfl⟩ <|
    .head ⟨rfl, .clock ⟨false, false, false⟩ _ _ _ rfl⟩ .refl, ?_⟩
  rfl

/-- `simtRiscv64_lanes_alone` for the second instruction of lane 1 in these runs. -/
theorem simtRiscv64_lanes_alone_loads : ∃ (s : System Nat) (alone : Timing.System (Word → Line) Nat)
    (r r' : Ran), (s.cpus 1).trace.reverse[1]? = some r ∧ alone.cpu.trace.reverse[1]? = some r' ∧
      r.regs = r'.regs ∧ r.pc = r'.pc := by
  obtain ⟨s, hs, hlen, -⟩ := loads_reachable
  obtain ⟨alone, halone, hlen'⟩ := alone_reachable
  have hget {l : List Ran} (h : l.length = 2) : ∃ r, l.reverse[1]? = some r :=
    ⟨_, List.getElem?_eq_getElem (by simp [h])⟩
  obtain ⟨r, hr⟩ := hget hlen
  obtain ⟨r', hr'⟩ := hget hlen'
  exact ⟨s, alone, r, r', hr, hr', simtRiscv64_lanes_alone
    (by decide) (by decide) lanesAt_create hs 1 (by decide) halone 1 hr hr'⟩

end SimtRiscv64

end Gran
