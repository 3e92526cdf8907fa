import Gran.Bfly.FatBfly
import Gran.Bus.SimpleBus
import Gran.Foundations.Refusal
import Gran.Mem.IdealAlloc
import Gran.Mesh.Node
import Gran.Noc.IdealNoc
import Gran.Simt.Cache
import Gran.Simt.SimtRiscv64
import Gran.Uart.SimpleUart

/-!
# Components

`component.h`: what all components have in common is the `receive` callback, to which `SEND`
presents a packet, and all senders keep a packet that was answered with `EBUSY` and present it
again. A refused packet should then have no effect. That is so of every component except the
interfaces of a SIMT core: these put a new request in their table before they hand it on, and leave
it there, to be sent by the clock, when the memory refuses it.
-/

namespace Gran

open Simt Refusal

/-- The components with a `receive` callback, each with what its callback reads and never writes.
The nodes of all three mesh files are of the one form `node`, and the interfaces of a SIMT core for
data and for instructions of the form `simtIntf`. -/
inductive Component : Type 1 where
  | simpleMem (C : Type)
  | simpleUart (C : Type)
  | simpleBus {E : Type} (regions : List (BusRegion E))
  | simpleRiscv64 {C W : Type} (ports : CpuPorts C W)
  | node {N D : Type} [DecidableEq N] [DecidableEq D] (m : Mesh N D)
  | idealNoc {C : Type} (n : Noc C)
  | fatBfly {C : Type} [DecidableEq C] (b : FatBfly C)
  | idealAlloc (tree : SearchTree.Store Region regionCmp)
  | simtCache {C W : Type} [DecidableEq C] (c : SimtCache C) (ports : Ports W)
  | simtIntf {C W : Type} [DecidableEq C] (c : SimtIntf C) (ports : Ports W)

namespace Component

/-- The state of a component, and of what it sends to while it receives. -/
abbrev State : Component → Type
  | simpleMem C => SimpleMem C
  | simpleUart C => SimpleUart C
  | simpleBus (E := E) _ => SimpleBus E
  | simpleRiscv64 (C := C) (W := W) _ => Cpu C × W
  | node m => MeshState m
  | idealNoc n => Noc.State n
  | fatBfly (C := C) _ => FatBfly.State C
  | idealAlloc tree => Alloc tree
  | simtCache (W := W) _ _ => SimtCache.State × W
  | simtIntf (W := W) _ _ => SimtIntf.Reqs × W

/-- What is presented to a component: a packet and its sender where the callback reads it, and the
node for a mesh. -/
abbrev Offer : Component → Type
  | simpleMem C => C × Packet
  | simpleUart C => C × Packet
  | simpleBus (E := E) _ => E × Packet
  | simpleRiscv64 (C := C) _ => C × Packet
  | node (N := N) _ => N × Comp N × Packet
  | idealNoc _ => Packet
  | fatBfly (C := C) _ => C × Packet
  | idealAlloc _ => Packet
  | simtCache (C := C) _ _ => C × Packet
  | simtIntf (C := C) _ _ => C × Packet

/-- The `receive` callback. -/
def receive : (k : Component) → k.Offer → k.State → Option (Stat × k.State)
  | simpleMem _, (sender, pkt), mem => mem.receive sender pkt
  | simpleUart _, (sender, pkt), uart => uart.receive sender pkt
  | simpleBus regions, (sender, pkt), bus => some (simpleBusReceive regions bus sender pkt)
  | simpleRiscv64 ports, (sender, pkt), (c, w) => Cpu.simpleRiscv64Receive ports sender pkt c w
  | node _, (c, sender, pkt), s => Mesh.receive s c sender pkt
  | idealNoc _, pkt, s => Noc.receive s pkt
  | fatBfly b, (sender, pkt), s => b.fatBflyReceive s sender pkt
  | idealAlloc _, pkt, a => some (Alloc.allocReceive a pkt)
  | simtCache c ports, (sender, pkt), (s, w) => c.simtCacheReceive ports sender pkt s w
  | simtIntf c ports, (sender, pkt), (reqs, w) => c.simtRiscv64Receive ports sender pkt reqs w

/-- The packet is a new request that an interface does not answer by the reply to another one: its
lane has no request in the table. -/
def Forwards {C : Type} (c : SimtIntf C) (sender : C) (pkt : Packet) (reqs : SimtIntf.Reqs) :
    Prop :=
  c.mem ≠ sender ∧ laneOf pkt.src < 2 ^ 31 ∧ laneOf pkt.src < c.numLanes ∧
    (reqs (laneOf pkt.src)).reg.busy = false ∧ c.piggybacks reqs (laneOf pkt.src) pkt = false

/-- The packet is not one that an interface hands on to a memory that is busy. -/
def SafeToRefuse : (k : Component) → k.Offer → k.State → Prop
  | simtIntf c ports, (sender, pkt), (reqs, w) =>
      Forwards c sender pkt reqs → ∀ w', c.simtRiscv64ExtSend ports pkt w ≠ some (.EBUSY, w')
  | _, _, _ => True

/-! ## What a refusal leaves behind -/

section Refusals

variable {C E W : Type}

/-- `simple_mem` changes nothing when it refuses. -/
theorem simpleMem_unmoved (x : C × Packet) (mem : SimpleMem C) :
    Unmoved (simpleMem C).receive .EBUSY x mem := by
  intro mem' h
  obtain ⟨-, -, rfl⟩ | ⟨hret, -, -⟩ := SimpleMem.receive_cases h
  · rfl
  · cases hret

/-- `simple_uart` changes nothing when it refuses. -/
theorem simpleUart_unmoved (x : C × Packet) (uart : SimpleUart C) :
    Unmoved (simpleUart C).receive .EBUSY x uart := by
  intro uart' h
  obtain ⟨-, -, rfl⟩ | ⟨hret, -, -⟩ := SimpleUart.receive_cases h
  · rfl
  · cases hret

/-- `simple_bus` changes nothing when it refuses. -/
theorem simpleBus_unmoved (regions : List (BusRegion E)) (x : E × Packet) (bus : SimpleBus E) :
    Unmoved (simpleBus regions).receive .EBUSY x bus := by
  intro bus' h
  replace h := Option.some.inj h
  unfold simpleBusReceive at h
  split at h
  case isTrue => cases h; rfl
  case isFalse => split at h <;> cases h

/-- `simple_riscv64` changes nothing when it refuses. -/
theorem simpleRiscv64_unmoved (ports : CpuPorts C W) (x : C × Packet) (s : Cpu C × W) :
    Unmoved (simpleRiscv64 ports).receive .EBUSY x s := by
  intro s' h
  simp only [receive, Cpu.simpleRiscv64Receive] at h
  split at h
  case isTrue => cases h
  split at h
  case isTrue => cases h
  split at h
  case isFalse => cases h
  obtain ⟨-, -, h⟩ := Option.bind_eq_some_iff.1 h
  split at h
  case isTrue => cases h; rfl
  obtain ⟨v, -, h⟩ := Option.bind_eq_some_iff.1 h
  split at h
  case isTrue => cases h
  obtain ⟨⟨ret, w⟩, -, h⟩ := Option.bind_eq_some_iff.1 h
  dsimp only at h
  split at h <;> cases h

/-- The nodes of a mesh change nothing when they refuse. -/
theorem node_unmoved {N D : Type} [DecidableEq N] [DecidableEq D] (m : Mesh N D)
    (x : N × Comp N × Packet) (s : MeshState m) : Unmoved (node m).receive .EBUSY x s := by
  intro s' h
  obtain ⟨⟨p, pkt⟩, -, h⟩ := Option.bind_eq_some_iff.1 h
  dsimp only at h
  unfold placeReg at h
  split at h
  case isTrue =>
    cases h
    simp [Mesh.setInp, Mesh.setNode]
  case isFalse => cases h

/-- `ideal_noc` changes nothing when it refuses. -/
theorem idealNoc_unmoved (n : Noc C) (pkt : Packet) (s : Noc.State n) :
    Unmoved (idealNoc n).receive .EBUSY pkt s := by
  intro s' h
  obtain ⟨i, -, h⟩ := Option.bind_eq_some_iff.1 h
  split at h
  case isTrue => cases h; rfl
  case isFalse => cases h

/-- `fat_bfly` changes nothing when it refuses. -/
theorem fatBfly_unmoved [DecidableEq C] (b : FatBfly C) (x : C × Packet) (s : FatBfly.State C) :
    Unmoved (fatBfly b).receive .EBUSY x s := by
  intro s' h
  obtain ⟨-, -, h⟩ := Option.bind_eq_some_iff.1 h
  obtain ⟨-, -, h⟩ := Option.bind_eq_some_iff.1 h
  obtain ⟨r, -, h⟩ := Option.bind_eq_some_iff.1 h
  split at h
  case isTrue => cases h; rfl
  case isFalse => cases h

/-- `ideal_alloc` changes nothing when it refuses. -/
theorem idealAlloc_unmoved (tree : SearchTree.Store Region regionCmp) (pkt : Packet)
    (a : Alloc tree) : Unmoved (idealAlloc tree).receive .EBUSY pkt a := by
  intro a' h
  replace h := Option.some.inj h
  unfold Alloc.allocReceive at h
  split at h
  case isTrue => cases h; rfl
  case isFalse => cases h

/-- A reply is never refused. -/
theorem simtCacheHandleResponse_ok {c : SimtCache C} {ports : Ports W} {pkt : Packet}
    {s s' : SimtCache.State} {w w' : W} {r : Stat}
    (h : c.simtCacheHandleResponse ports pkt s w = some (r, s', w')) : r = .OK := by
  have hrespond : ∀ {idx} {s : SimtCache.State},
      c.respond ports pkt idx s w = some (r, s', w') → r = .OK := by
    intro idx s h
    obtain ⟨q, -, h⟩ := Option.bind_eq_some_iff.1 h
    obtain ⟨-, -, h⟩ := Option.bind_eq_some_iff.1 h
    obtain ⟨-, -, h⟩ := Option.bind_eq_some_iff.1 h
    obtain ⟨-, -, h⟩ := Option.bind_eq_some_iff.1 h
    obtain ⟨lane, -, h⟩ := Option.bind_eq_some_iff.1 h
    obtain ⟨-, -, h⟩ := Option.bind_eq_some_iff.1 h
    obtain ⟨⟨ok, w⟩, -, h⟩ := Option.bind_eq_some_iff.1 h
    obtain ⟨_, hguard, h⟩ := Option.bind_eq_some_iff.1 h
    have hok : ok = .OK := by simpa using hguard
    cases h
    exact hok
  obtain ⟨-, -, h⟩ := Option.bind_eq_some_iff.1 h
  obtain ⟨-, -, h⟩ := Option.bind_eq_some_iff.1 h
  obtain ⟨-, -, h⟩ := Option.bind_eq_some_iff.1 h
  dsimp only at h
  split at h
  case isFalse => exact hrespond h
  case isTrue =>
    split at h
    case isFalse => exact hrespond h
    case isTrue =>
      obtain ⟨-, -, h⟩ := Option.bind_eq_some_iff.1 h
      obtain ⟨⟨s, w⟩, -, h⟩ := Option.bind_eq_some_iff.1 h
      cases h
      rfl

/-- `simt_cache` changes nothing when it refuses. -/
theorem simtCache_unmoved [DecidableEq C] (c : SimtCache C) (ports : Ports W) (x : C × Packet)
    (s : SimtCache.State × W) : Unmoved (simtCache c ports).receive .EBUSY x s := by
  intro s' h
  simp only [receive, SimtCache.simtCacheReceive] at h
  split at h
  case isTrue => cases simtCacheHandleResponse_ok h
  case isFalse =>
    obtain ⟨lane, -, h⟩ := Option.bind_eq_some_iff.1 h
    split at h
    case isTrue => cases h
    obtain ⟨q, -, h⟩ := Option.bind_eq_some_iff.1 h
    split at h
    case isTrue => cases h; rfl
    obtain ⟨-, -, h⟩ := Option.bind_eq_some_iff.1 h
    cases h

variable {c : SimtIntf C} {ports : Ports W} {sender : C} {pkt : Packet} {reqs reqs' : SimtIntf.Reqs}
  {w w' : W} {r : Stat}

/-- A reply is never refused. -/
theorem simtRiscv64HandleResponse_ok
    (h : c.simtRiscv64HandleResponse ports pkt reqs w = some (r, reqs', w')) : r = .OK := by
  obtain ⟨s, -, h⟩ := Option.bind_eq_some_iff.1 h
  obtain ⟨-, -, h⟩ := Option.bind_eq_some_iff.1 h
  obtain ⟨-, -, h⟩ := Option.bind_eq_some_iff.1 h
  obtain ⟨-, -, h⟩ := Option.bind_eq_some_iff.1 h
  obtain ⟨-, -, h⟩ := Option.bind_eq_some_iff.1 h
  obtain ⟨-, -, h⟩ := Option.bind_eq_some_iff.1 h
  obtain ⟨⟨ok, w₁⟩, -, h⟩ := Option.bind_eq_some_iff.1 h
  obtain ⟨-, -, h⟩ := Option.bind_eq_some_iff.1 h
  split at h
  case isTrue =>
    obtain ⟨⟨reqs, w₂⟩, -, h⟩ := Option.bind_eq_some_iff.1 h
    cases h
    rfl
  case isFalse =>
    cases h
    rfl

/-- The search for another read leaves out the entry of the lane. -/
theorem piggybacks_update (idx : Nat) (q : Req) :
    c.piggybacks (Function.update reqs idx q) idx pkt = c.piggybacks reqs idx pkt := by
  refine congrArg (isSet pkt PACKET_READ && ·) ?_
  refine List.any_congr rfl fun k => ?_
  by_cases hk : k = idx
  · simp [hk]
  · simp [hk]

/-- What an interface does with a new request: it goes to memory from the table. -/
theorem simtRiscv64Receive_forwards [DecidableEq C] (h : Forwards c sender pkt reqs) :
    c.simtRiscv64Receive ports sender pkt reqs w =
      (c.simtRiscv64ExtSend ports pkt w).map fun x =>
        (x.1, Function.update reqs (laneOf pkt.src) ⟨⟨pkt, true⟩, decide (x.1 = .EBUSY)⟩, x.2) := by
  obtain ⟨hmem, hidx, hlen, hfree, halone⟩ := h
  simp only [SimtIntf.simtRiscv64Receive, hmem, if_false, hidx, guard_true, SimtIntf.reqsAt, hlen,
    if_true, Option.pure_def, Option.bind_eq_bind, Option.bind_some, hfree, Bool.false_eq_true,
    piggybacks_update, halone]
  cases c.simtRiscv64ExtSend ports pkt w with
  | none => rfl
  | some x =>
      by_cases hbusy : x.1 = .EBUSY
      · simp [hbusy]
      · simp [hbusy]

/-- Any other packet leaves the state as it is when it is refused. -/
theorem simtRiscv64Receive_other [DecidableEq C] (hother : ¬ Forwards c sender pkt reqs)
    (h : c.simtRiscv64Receive ports sender pkt reqs w = some (.EBUSY, reqs', w')) :
    reqs' = reqs ∧ w' = w := by
  unfold SimtIntf.simtRiscv64Receive at h
  split at h
  case isTrue => cases simtRiscv64HandleResponse_ok h
  case isFalse hmem =>
    obtain ⟨_, hidx, h⟩ := Option.bind_eq_some_iff.1 h
    obtain ⟨req, hreq, h⟩ := Option.bind_eq_some_iff.1 h
    split at h
    case isTrue => cases h; exact ⟨rfl, rfl⟩
    case isFalse hbusy =>
      have hidx : laneOf pkt.src < 2 ^ 31 := by simpa using hidx
      obtain ⟨hlen, rfl⟩ : laneOf pkt.src < c.numLanes ∧ reqs (laneOf pkt.src) = req := by
        simpa [SimtIntf.reqsAt] using hreq
      dsimp only at h
      rw [piggybacks_update] at h
      split at h
      case isTrue => cases h
      case isFalse halone =>
        have hfree : (reqs (laneOf pkt.src)).reg.busy = false := Bool.eq_false_iff.2 hbusy
        exact absurd ⟨hmem, hidx, hlen, hfree, Bool.eq_false_iff.2 halone⟩ hother

/-- A refusal by an interface changes its table exactly if it passes the refusal of memory on. -/
theorem simtIntf_unmoved_iff [DecidableEq C] (x : C × Packet) (s : SimtIntf.Reqs × W) :
    Unmoved (simtIntf c ports).receive .EBUSY x s ↔ (simtIntf c ports).SafeToRefuse x s := by
  obtain ⟨sender, pkt⟩ := x
  obtain ⟨reqs, w⟩ := s
  constructor
  · intro hunmoved hforwards w' hsend
    have hreceive : c.simtRiscv64Receive ports sender pkt reqs w = _ :=
      simtRiscv64Receive_forwards hforwards
    rw [hsend] at hreceive
    have hsame := congrArg (fun s : SimtIntf.Reqs × W => (s.1 (laneOf pkt.src)).reg.busy)
      (hunmoved _ hreceive)
    rw [hforwards.2.2.2.1] at hsame
    simp at hsame
  · rintro hhands ⟨reqs', w'⟩ h
    by_cases hforwards : Forwards c sender pkt reqs
    · replace h : c.simtRiscv64Receive ports sender pkt reqs w = some (.EBUSY, reqs', w') := h
      rw [simtRiscv64Receive_forwards hforwards] at h
      obtain ⟨⟨ret, w₁⟩, hsend, h⟩ := Option.map_eq_some_iff.1 h
      obtain rfl : ret = .EBUSY := congrArg Prod.fst h
      exact absurd hsend (hhands hforwards w₁)
    · obtain ⟨rfl, rfl⟩ := simtRiscv64Receive_other hforwards h
      rfl

end Refusals

/-- A refusal leaves the state as it is, unless it is a refusal of memory that an interface passes
on. -/
theorem unmoved_iff (k : Component) (x : k.Offer) (s : k.State) :
    Unmoved k.receive .EBUSY x s ↔ k.SafeToRefuse x s := by
  cases k with
  | simpleMem C => exact iff_of_true (simpleMem_unmoved x s) trivial
  | simpleUart C => exact iff_of_true (simpleUart_unmoved x s) trivial
  | simpleBus regions => exact iff_of_true (simpleBus_unmoved regions x s) trivial
  | simpleRiscv64 ports => exact iff_of_true (simpleRiscv64_unmoved ports x s) trivial
  | node m => exact iff_of_true (node_unmoved m x s) trivial
  | idealNoc n => exact iff_of_true (idealNoc_unmoved n x s) trivial
  | fatBfly b => exact iff_of_true (fatBfly_unmoved b x s) trivial
  | idealAlloc tree => exact iff_of_true (idealAlloc_unmoved tree x s) trivial
  | simtCache c ports => exact iff_of_true (simtCache_unmoved c ports x s) trivial
  | simtIntf c ports => exact simtIntf_unmoved_iff x s

/-- `EBUSY` means that the packet was not accepted: a component is as before, except an interface of
a SIMT core that passes on the `EBUSY` of its memory. In a run without such packets, whatever else
happens in it, the refused packets might as well not have been presented. -/
theorem ebusy_not_accepted (k : Component) :
    (∀ x s, Unmoved k.receive .EBUSY x s ↔ k.SafeToRefuse x s) ∧
      ∀ (O : Type) (other : O → k.State → Option k.State) (s : k.State)
        (es : List (Event k.Offer O)),
        Fold.Along (step k.receive other)
          (fun s e => ∀ x, e = .present x → k.SafeToRefuse x s) es s →
        run k.receive other s (taken k.receive .EBUSY other s es) =
          run k.receive other s es := by
  refine ⟨unmoved_iff k, fun O other s es h => run_taken (h.mono ?_)⟩
  intro s e hsafe x hx
  exact (unmoved_iff k x s).2 (hsafe x hx)

/-- A memory that refuses the first packet presented to it and takes the others. It notes down what
was presented. -/
def refuseFirst : Ports (List Packet) where
  mem pkt w := some (if w = [] then .EBUSY else .OK, w ++ [pkt])
  lane _ _ _ := none

/-- A read by lane 0. -/
def laneRead : Packet := { Packet.zero with flags := PACKET_READ }

/-- Memory takes the first request here, and the interface refuses the second one of the lane. -/
theorem ebusy_not_accepted_pending :
    let c : SimtIntf Bool := ⟨false, 0, 1⟩
    let k := simtIntf c refuseFirst
    let offer : k.Offer := (true, laneRead)
    let other : Unit → k.State → Option k.State := fun _ => some
    let s : k.State := ((SimtRiscv64.createTables () ()).dataRqs, [laneRead])
    let es := [.present offer, .present offer]
    run k.receive other s (taken k.receive .EBUSY other s es) = run k.receive other s es := by
  refine (ebusy_not_accepted (simtIntf (⟨false, 0, 1⟩ : SimtIntf Bool) refuseFirst)).2 Unit
    (fun _ => some) _ _ ⟨?_, fun s₁ h₁ => ⟨?_, fun s₂ h₂ => trivial⟩⟩
  · rintro x hx - w' h
    cases hx
    cases h
  · rintro x hx ⟨-, -, -, hfree, -⟩
    cases hx
    cases h₁
    cases hfree

/-- A core of one lane makes its first request, memory refuses it, and so does the interface. The
next clock sends the packet, which was not presented again, while a clock alone sends nothing. -/
theorem ebusy_forwarded :
    let c : SimtIntf Bool := ⟨false, 0, 1⟩
    let table := (SimtRiscv64.createTables () ()).dataRqs
    let k := simtIntf c refuseFirst
    let offer : k.Offer := (true, laneRead)
    let clock : Unit → k.State → Option k.State := fun _ s =>
      (c.sendQueued refuseFirst s.1 s.2 (List.range 1)).map Prod.snd
    let es := [.present offer, .other ()]
    (¬ ∀ x s, Unmoved k.receive .EBUSY x s) ∧
      (k.receive offer (table, [])).map Prod.fst = some .EBUSY ∧
      (run k.receive clock (table, []) es).map (·.2.length) = some 2 ∧
      (run k.receive clock (table, []) (taken k.receive .EBUSY clock (table, []) es)).map
        (·.2.length) = some 0 := by
  refine ⟨fun h => ?_, rfl, rfl, rfl⟩
  have hsame := h (true, laneRead)
    ((SimtRiscv64.createTables () ()).dataRqs, []) _ rfl
  have hbusy := congrArg (fun s : SimtIntf.Reqs × List Packet => (s.1 0).reg.busy) hsame
  cases hbusy

end Component

end Gran
