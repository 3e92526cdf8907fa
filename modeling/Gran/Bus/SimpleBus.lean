import Gran.Foundations.Fold
import Gran.Mem.Layout
import Mathlib.Data.Fintype.Sum
import Mathlib.Data.Fintype.Sigma
import Mathlib.Tactic.DeriveFintype

/-!
# The simple bus

`simple_bus.c`: a bus holds one packet and the component it is for, a request for the memory whose
region its address lies in or a reply on its way back, and refuses packets until it has handed that
one over. A system is one bus with requesters and memories on it, clocked once per tick in a fixed
order.
-/

namespace Gran

/-- `struct bus_region`. -/
structure BusRegion (E : Type) where
  addr : Word
  size : Word
  component : E

/-- `struct simple_bus`, less its regions, which do not change. -/
structure SimpleBus (E : Type) where
  send : Option E
  pkt : Packet
  busy : Bool

/-- The components that are clocked. -/
inductive BusComp (E : Type) where
  | bus
  | elem (e : E)
deriving DecidableEq, Fintype

/-- The bus and what is connected to it. -/
structure BusState (E : Type) where
  bus : SimpleBus E
  elems : E → Element Unit

/-- `find_bus_region`. -/
def findBusRegion {E : Type} (regions : List (BusRegion E)) (addr : Word) : Option (BusRegion E) :=
  regions.find? fun r => decide (addr ≥ r.addr) && decide (addr < r.addr + r.size)

/-- `simple_bus_receive`. -/
def simpleBusReceive {E : Type} (regions : List (BusRegion E)) (bus : SimpleBus E) (sender : E)
    (pkt : Packet) : Stat × SimpleBus E :=
  if bus.busy then (.EBUSY, bus)
  else
    match findBusRegion regions pkt.dst with
    | none => (.OK, ⟨some sender, setFlags (response pkt) PACKET_ERROR, true⟩)
    | some region => (.OK, ⟨some region.component, pkt, true⟩)

/-- `simple_bus_clock`, with the status it returns; a `NULL` receiver fails the assertion of
`send`. -/
def simpleBusClock {E W : Type} (SEND : E → Packet → W → Option (Stat × W)) (bus : SimpleBus E)
    (w : W) : Option (Stat × SimpleBus E × W) :=
  if bus.busy then
    match bus.send with
    | none => none
    | some receiver => do
        let (r, w) ← SEND receiver bus.pkt w
        if r = .EBUSY then pure (.OK, bus, w)
        else pure (r, { bus with busy := false }, w)
  else some (.OK, bus, w)

/-- `simple_bus_add`, with the new regions. -/
def simpleBusAdd {E : Type} (regions : List (BusRegion E)) (component : E) (addr size : Word) :
    Stat × List (BusRegion E) :=
  let found := findBusRegion regions addr
  let found := if found.isNone then findBusRegion regions (addr + size) else found
  if found.isSome then (.EEXISTS, regions) else (.OK, regions ++ [⟨addr, size, component⟩])

/-- A bus, the elements created for it, where they are mapped, and the order of the clocks. -/
structure BusSystem (E : Type) where
  regions : List (BusRegion E)
  created : E → Element Unit
  order : List (BusComp E)
  fresh : ∀ e, (created e).Fresh
  nodup : order.Nodup
  complete : ∀ c, c ∈ order

namespace BusSystem

variable {E : Type} [DecidableEq E] (sys : BusSystem E)

/-- The system before the first tick. -/
def init : BusState E := ⟨⟨none, .zero, false⟩, sys.created⟩

/-- `SEND` from the bus; `NULL` fails the assertion. -/
def send (s : BusState E) (receiver : Option E) (pkt : Packet) : Option (Stat × BusState E) :=
  match receiver with
  | none => none
  | some e => do
      let (r, el) ← (s.elems e).receive () pkt
      pure (r, { s with elems := Function.update s.elems e el })

/-- `simple_bus_clock`. -/
def busClock (s : BusState E) : Option (BusState E) :=
  if s.bus.busy then do
    let (r, s) ← send s s.bus.send s.bus.pkt
    if r = .EBUSY then pure s
    else pure { s with bus := { s.bus with busy := false } }
  else some s

/-- The clock of an element, which sends to the bus; `new` is the request a free requester makes. -/
def elemClock (new : Option Packet) (e : E) (s : BusState E) : Option (BusState E) := do
  let (el, bus) ← (s.elems e).clock new ()
    (fun _ pkt bus => some (simpleBusReceive sys.regions bus e pkt)) s.bus
  pure ⟨bus, Function.update s.elems e el⟩

/-- The clock of a component, with the requests that free requesters make. -/
def clock (new : E → Option Packet) (s : BusState E) : BusComp E → Option (BusState E)
  | .bus => busClock s
  | .elem e => sys.elemClock (new e) e s

/-- One tick: every component is clocked once. -/
def tick (s : BusState E) (new : E → Option Packet) : Option (BusState E) :=
  sys.order.foldlM (sys.clock new) s

/-- The ticks of a run, each with the requests made in it. -/
def run (news : List (E → Option Packet)) : Option (BusState E) :=
  news.foldlM sys.tick sys.init

/-- The component mapped at an address. -/
def region (addr : Word) : Option E := (findBusRegion sys.regions addr).map (·.component)

/-- The elements with their regions. -/
def layout : Layout E Unit := ⟨sys.region, sys.created⟩

/-- Every request made in a tick is one its requester may make. -/
def Valid (new : E → Option Packet) : Prop := ∀ e pkt, new e = some pkt → sys.layout.IsRequest e pkt

/-- Some request is unanswered, and with no new requests a tick changes nothing. -/
def Standstill (s : BusState E) : Prop :=
  (∃ e, (s.elems e).Unanswered) ∧ sys.tick s (fun _ => none) = some s

/-- The request a component is about to present at its clock. -/
def presented (new : E → Option Packet) (s : BusState E) : BusComp E → Option Packet
  | .bus => none
  | .elem e =>
      match s.elems e with
      | .requester .idle => new e
      | .requester (.refused pkt) => some pkt
      | _ => none

/-- The clock of a component gives the bus no request for a memory whose last reply is still
there. -/
def Admitted (new : E → Option Packet) (s : BusState E) (c : BusComp E) : Prop :=
  ∀ pkt b, presented new s c = some pkt → s.bus.busy = false → sys.layout.region pkt.dst = some b →
    (s.elems b).held = none

/-- Every clock of a run is admitted. -/
def RunAdmitted (news : List (E → Option Packet)) : Prop :=
  Fold.Along sys.tick (fun s new => Fold.Along (sys.clock new) (sys.Admitted new) sys.order s)
    news sys.init

end BusSystem

end Gran
