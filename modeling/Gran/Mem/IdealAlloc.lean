import Gran.Common
import Gran.Foundations.SearchTree

/-!
# The region allocator

`if/alloc.h` and `ideal_alloc.c`: requests that add, remove and look up address regions in numbered
spaces, an input register, and an output register for a reply that the connected component refused.
The regions of a space are in a tree of `conts/sptree.h`, which is the parameter `tree`.
-/

namespace Gran

open SearchTree

/-- `struct region`. `stop` is the field `end`, which is a reserved word here. -/
structure Region where
  start : Word
  stop : Word
deriving DecidableEq

/-- `region_cmp`. -/
def regionCmp (a b : Region) : Int :=
  if a.start = b.start ∧ a.stop = b.stop then 0
  else if a.start > b.start then 1
  else if a.stop < b.stop then -1
  else 0

/-- `ALLOC_IF_NEW`. -/
def ALLOC_IF_NEW : BitVec 32 := 0x00

/-- `ALLOC_IF_RM`. -/
def ALLOC_IF_RM : BitVec 32 := 0x40

/-- `ALLOC_IF_Q`. -/
def ALLOC_IF_Q : BitVec 32 := 0x80

/-- `enum alloc_if_ret`. -/
inductive AllocIfRet where
  | OK | ERR_SPACE | ERR_RANGE
deriving DecidableEq

/-- The value of an `enum alloc_if_ret`. -/
def AllocIfRet.code : AllocIfRet → BitVec 32
  | .OK => 0
  | .ERR_SPACE => 1
  | .ERR_RANGE => 2

/-- `struct alloc_if_new`, and `struct alloc_if_rm`, which has the same fields. -/
structure AllocIfNew where
  space : Word
  start : Word
  stop : Word

/-- `struct alloc_if_q`. -/
structure AllocIfQ where
  space : Word
  addr : Word

/-- The 64-bit field at an offset into the data of a packet. -/
def Packet.field (pkt : Packet) (off : Nat) : Word := leWord (fun i => pkt.byte (off + i)) 8

/-- The data of a packet as a `struct alloc_if_new` or a `struct alloc_if_rm`. -/
def Packet.allocIfNew (pkt : Packet) : AllocIfNew := ⟨pkt.field 0, pkt.field 8, pkt.field 16⟩

/-- The data of a packet as a `struct alloc_if_q`. -/
def Packet.allocIfQ (pkt : Packet) : AllocIfQ := ⟨pkt.field 0, pkt.field 8⟩

/-- Write a `struct alloc_if_r` over the data of a packet. The four bytes between the enumeration
and the addresses are padding. -/
def writeAllocIfR (data : Line) (r : AllocIfRet) (start stop : Word) : Line := fun i =>
  if i.val < 4 then (r.code >>> (8 * i.val)).truncate 8
  else if i.val < 8 then data i
  else if i.val < 16 then (start >>> (8 * (i.val - 8))).truncate 8
  else if i.val < 24 then (stop >>> (8 * (i.val - 16))).truncate 8
  else data i

/-- `struct alloc`. -/
structure Alloc (tree : Store Region regionCmp) where
  spaces : Word → tree.T
  maxSpaces : Word
  inn : Reg
  out : Reg

/-- A reply offered to the connected component, with its answer. -/
structure Offer where
  pkt : Packet
  ret : Stat

variable {tree : Store Region regionCmp}

/-- `create_ideal_alloc`. -/
def createIdealAlloc (tree : Store Region regionCmp) (maxSpaces : Word) : Alloc tree :=
  ⟨fun _ => tree.create, maxSpaces, .free, .free⟩

namespace Alloc

/-- `alloc_receive`. -/
def allocReceive (a : Alloc tree) (pkt : Packet) : Stat × Alloc tree :=
  if a.inn.busy then (.EBUSY, a) else (.OK, { a with inn := ⟨pkt, true⟩ })

/-- `alloc_resp`, when the connected component answers `now`. -/
def allocResp (now : Stat) (a : Alloc tree) (resp : AllocIfRet) (start stop : Word) :
    Stat × Alloc tree × List Offer :=
  let a := { a with inn := { a.inn with busy := false } }
  let pkt := response a.inn.pkt
  let pkt := { pkt with data := writeAllocIfR pkt.data resp start stop }
  if now = .EBUSY then (.OK, { a with out := ⟨pkt, true⟩ }, [⟨pkt, now⟩])
  else (now, a, [⟨pkt, now⟩])

/-- Replace the tree of a space. -/
def setSpace (a : Alloc tree) (space : Word) (t : tree.T) : Alloc tree :=
  { a with spaces := Function.update a.spaces space t }

/-- `alloc_new`. -/
def allocNew (now : Stat) (a : Alloc tree) : Stat × Alloc tree × List Offer :=
  let n := a.inn.pkt.allocIfNew
  if n.space ≥ a.maxSpaces then allocResp now a .ERR_SPACE 0 0
  else
    let (inserted, t) := tree.insert (a.spaces n.space) ⟨n.start, n.stop⟩
    let a := a.setSpace n.space t
    if inserted then allocResp now a .OK n.start n.stop
    else (.EMEM, (allocResp now a .ERR_RANGE 0 0).2)

/-- `alloc_rm`. -/
def allocRm (now : Stat) (a : Alloc tree) : Stat × Alloc tree × List Offer :=
  let rm := a.inn.pkt.allocIfNew
  if rm.space ≥ a.maxSpaces then allocResp now a .ERR_SPACE 0 0
  else
    match tree.find (a.spaces rm.space) ⟨rm.start, rm.stop⟩ with
    | (none, t) => allocResp now (a.setSpace rm.space t) .ERR_RANGE 0 0
    | (some region, t) => allocResp now (a.setSpace rm.space (tree.remove t region)) .OK 0 0

/-- `alloc_q`. -/
def allocQ (now : Stat) (a : Alloc tree) : Stat × Alloc tree × List Offer :=
  let q := a.inn.pkt.allocIfQ
  if q.space ≥ a.maxSpaces then allocResp now a .ERR_SPACE 0 0
  else
    match tree.find (a.spaces q.space) ⟨q.addr, q.addr⟩ with
    | (none, t) => allocResp now (a.setSpace q.space t) .ERR_RANGE 0 0
    | (some region, t) => allocResp now (a.setSpace q.space t) .OK region.start region.stop

/-- The `switch` of `alloc_clock`. -/
def allocOp (now : Stat) (a : Alloc tree) : Stat × Alloc tree × List Offer :=
  let off : BitVec 32 := a.inn.pkt.dst.truncate 32
  if off = ALLOC_IF_NEW then allocNew now a
  else if off = ALLOC_IF_RM then allocRm now a
  else if off = ALLOC_IF_Q then allocQ now a
  else (.OK, a, [])

/-- `alloc_clock`. The connected component answers `again` to a reply it refused before, and `now`
to the reply of this clock. -/
def allocClock (again now : Stat) (a : Alloc tree) : Option (Stat × Alloc tree × List Offer) :=
  if a.inn.busy then
    if a.out.busy then
      if again = .EBUSY then some (.OK, a, [⟨a.out.pkt, again⟩])
      else do
        guard (again = .OK)
        let (ret, a', offers) := allocOp now { a with out := { a.out with busy := false } }
        pure (ret, a', ⟨a.out.pkt, again⟩ :: offers)
    else some (allocOp now a)
  else some (.OK, a, [])

/-! ## Runs -/

/-- A clock of a run. -/
structure Clocked (tree : Store Region regionCmp) where
  before : Alloc tree
  again : Stat
  now : Stat
  after : Alloc tree
  offers : List Offer

/-- An allocator with the requests it accepted and its clocks, both oldest first. -/
structure Run (tree : Store Region regionCmp) where
  state : Alloc tree
  accepted : List Packet
  clocks : List (Clocked tree)

/-- A run that has just begun. -/
def Run.init (tree : Store Region regionCmp) (maxSpaces : Word) : Run tree :=
  ⟨createIdealAlloc tree maxSpaces, [], []⟩

/-- One step of a run: a request is presented, or the allocator is clocked. -/
inductive Run.Step (r : Run tree) : Run tree → Prop where
  | receive (pkt : Packet) : Step r { r with
      state := (allocReceive r.state pkt).2
      accepted := if (allocReceive r.state pkt).1 = .OK then r.accepted ++ [pkt] else r.accepted }
  | clock (again now : Stat) (hagain : again = .OK ∨ again = .EBUSY)
      (hnow : now = .OK ∨ now = .EBUSY) (ret : Stat) (a' : Alloc tree) (offers : List Offer)
      (h : allocClock again now r.state = some (ret, a', offers)) :
      Step r { r with
        state := a'
        clocks := r.clocks ++ [⟨r.state, again, now, a', offers⟩] }

/-- The runs of an allocator with `maxSpaces` spaces. -/
abbrev Run.Reachable (maxSpaces : Word) (r : Run tree) : Prop :=
  Relation.ReflTransGen Run.Step (Run.init tree maxSpaces) r

/-- The request a clock replied to, if it did, and the reply. -/
def Clocked.answered (c : Clocked tree) : Option (Packet × Packet) :=
  if c.before.inn.busy && !c.after.inn.busy then
    c.offers.getLast?.map fun o => (c.before.inn.pkt, o.pkt)
  else none

/-- The requests a run replied to, with their replies, oldest first. -/
def Run.answered (r : Run tree) : List (Packet × Packet) := r.clocks.filterMap Clocked.answered

/-- The replies a clock handed over with `OK`. -/
def Clocked.delivered (c : Clocked tree) : List Packet :=
  (c.offers.filter fun o => o.ret = .OK).map Offer.pkt

/-- The replies a run handed over with `OK`, oldest first. -/
def Run.delivered (r : Run tree) : List Packet := r.clocks.flatMap Clocked.delivered

end Alloc

end Gran
