import Gran.Common

/-!
# The fat butterfly

`fat_bfly.c`: a binary tree of nodes over a layer of input registers. Node `j` of layer `i` has two
input banks and one output bank, whose widths grow towards layer 0, and packets travel upwards until
the output bank of layer 0 hands them to the connected components. A register is named by its bank
and its index in it, and a node's parent pointer is the pair of its layer and position.

An access outside the array that `create_fat_bfly` allocated, or beyond the part of the bank that
belongs to the node's height, aborts, as a failed `assert` does.
-/

namespace Gran

/-- `is_powerof2`, a population count of one. -/
def isPowerof2 (x : Word) : Bool := (List.range 64).countP x.getLsbD = 1

/-- `log2ull`. -/
def log2ull (x : Word) : Nat := ffsll x - 1

/-- The element of `addr_fat_bfly`. -/
def elemOf (addr : Word) : Nat := (addr >>> 32 &&& 0xffffffff).toNat

namespace FatBfly

/-- A register: an input register, or one in a bank of node `j` of layer `i`. -/
inductive Place where
  | inp (e : Nat)
  | left (i j k : Nat)
  | right (i j k : Nat)
  | out (i j k : Nat)
deriving DecidableEq

/-- A packet a component accepted from the output register of a port. -/
structure Delivery (C : Type) where
  port : Nat
  comp : C
  pkt : Packet

/-- The registers, and the packets delivered so far. -/
structure State (C : Type) where
  reg : Place → Reg
  delivered : List (Delivery C)

end FatBfly

open FatBfly

/-- The part of `struct fat_bfly` that clocks leave alone. An unconnected port is `none`. -/
structure FatBfly (C : Type) where
  elems : BitVec 32
  send : Nat → Option C
  layers : Nat

variable {C : Type}

/-- `create_fat_bfly`. The last assertion is on the number of layers. -/
def createFatBfly (elems : BitVec 32) : Option (FatBfly C) := do
  guard (isPowerof2 (elems.zeroExtend 64))
  let layers := log2ull (elems.zeroExtend 64)
  guard (layers ≠ 0)
  pure { elems, send := fun _ => none, layers }

namespace FatBfly

/-- Every register free and nothing delivered. -/
def State.init : State C := ⟨fun _ => .free, []⟩

/-- Write one register. -/
def State.set (s : State C) (p : Place) (r : Reg) : State C :=
  { s with reg := Function.update s.reg p r }

variable (b : FatBfly C)

/-- The arrays `create_fat_bfly` allocates. The size `2 * elems / count` of an output bank is a
32-bit product divided by the number of nodes in the layer. -/
def allocated : Place → Bool
  | .inp e => e < b.elems.toNat
  | .left i j k => i < b.layers && j < 2 ^ i && k < b.elems.toNat / 2 ^ i
  | .right i j k => i < b.layers && j < 2 ^ i && k < b.elems.toNat / 2 ^ i
  | .out i j k => i < b.layers && j < 2 ^ i && k < (2 * b.elems).toNat / 2 ^ i

/-- `layers - i - 1`, the height of layer `i`. -/
def height (i : Nat) : Nat := b.layers - i - 1

/-- The registers of a bank that belong to the node's height: `count` in an output bank, half as
many in an input bank. -/
def inBank : Place → Bool
  | .inp _ => true
  | .left i _ k => k < (2 <<< b.height i) / 2
  | .right i _ k => k < (2 <<< b.height i) / 2
  | .out i _ k => k < 2 <<< b.height i

/-- Read a register. -/
def read (s : State C) (p : Place) : Option Reg :=
  if b.allocated p && b.inBank p then some (s.reg p) else none

/-- An input bank of a node. -/
def bank (left : Bool) (i j k : Nat) : Place := if left then .left i j k else .right i j k

/-- `node_receive` of node `j` of layer `i`. -/
def nodeReceive (s : State C) (i j : Nat) (pkt : Packet) (idx : Nat) (left : Bool) :
    Option (Stat × State C) := do
  let rs := bank left i j idx
  let r ← b.read s rs
  if r.busy then pure (.EBUSY, s) else pure (.OK, s.set rs ⟨pkt, true⟩)

/-- The first loop of `node_clock`: an output register is handed to the parent. -/
def pushUp (height i j : Nat) (s : State C) (k : Nat) : Option (State C) := do
  let r ← b.read s (.out i j k)
  if r.busy then
    let (ret, s') ← b.nodeReceive s (i - 1) (j / 2) r.pkt k (elemOf r.pkt.dst >>> height &&& 1 = 1)
    if ret = .EBUSY then pure s' else pure (s'.set (.out i j k) { r with busy := false })
  else pure s

/-- `al` and `ar`: the input register is busy and its packet wants to go in the direction of output
`i`. -/
def accepts (count height i : Nat) (r : Reg) : Bool :=
  let w : Bool := elemOf r.pkt.dst >>> height &&& 1 = 1
  r.busy && if i < count / 2 then !w else w

/-- The second loop of `node_clock`: a free output register is filled from the two input registers
below it. -/
def populate (count height i j : Nat) (s : State C) (k : Nat) : Option (State C) := do
  let out ← b.read s (.out i j k)
  if out.busy then pure s else
    let idx := k &&& (count / 2 - 1)
    let l ← b.read s (.left i j idx)
    let r ← b.read s (.right i j idx)
    let al := accepts count height k l
    let ar := accepts count height k r
    if !al && !ar then pure s else
      let useLeft := if al && ar then decide (l.pkt.timestamp < r.pkt.timestamp) else al
      let src := if useLeft then l else r
      pure ((s.set (.out i j k) ⟨src.pkt, true⟩).set (bank useLeft i j idx)
        { src with busy := false })

/-- `node_clock` of node `j` of layer `i`. Layer 0 has no parent to push to. -/
def nodeClock (s : State C) (i j count height : Nat) : Option (State C) := do
  let s ← (if i = 0 then pure s else (List.range count).foldlM (b.pushUp height i j) s)
  (List.range count).foldlM (b.populate count height i j) s

/-- `layer_clock`. -/
def layerClock (s : State C) (i count height : Nat) : Option (State C) :=
  (List.range count).foldlM (fun s j => b.nodeClock s i j (2 <<< height) height) s

/-- The first loop of `fat_bfly_clock`: the top output bank is sent to the components, which answer
`answer`. The assertion says that a packet is only ever sent to the port of its address. -/
def sendOut (answer : Nat → Stat) (s : State C) (i : Nat) : Option (State C) := do
  let out ← b.read s (.out 0 0 i)
  if out.busy then
    guard (elemOf out.pkt.dst = i)
    let comp ← b.send i
    if answer i = .EBUSY then pure s else
      pure { s.set (.out 0 0 i) { out with busy := false } with
        delivered := ⟨i, comp, out.pkt⟩ :: s.delivered }
  else pure s

/-- The last loop of `fat_bfly_clock`: an input register is handed to its leaf node. -/
def pushIn (s : State C) (i : Nat) : Option (State C) := do
  let r ← b.read s (.inp i)
  if r.busy then
    let (ret, s') ← b.nodeReceive s (b.layers - 1) (i / 2) r.pkt 0 (i % 2 = 1)
    if ret = .EBUSY then pure s' else pure (s'.set (.inp i) { r with busy := false })
  else pure s

/-- `fat_bfly_clock`. -/
def fatBflyClock (answer : Nat → Stat) (s : State C) : Option (State C) := do
  let s ← (List.range b.elems.toNat).foldlM (b.sendOut answer) s
  let s ← (List.range b.layers).foldlM (fun s i => b.layerClock s i (1 <<< i) (b.height i)) s
  (List.range b.elems.toNat).foldlM b.pushIn s

/-- `fat_bfly_receive`. -/
def fatBflyReceive [DecidableEq C] (s : State C) (sender : C) (pkt : Packet) :
    Option (Stat × State C) := do
  let elem := elemOf pkt.src
  guard (elem < b.elems.toNat)
  guard (b.send elem = some sender)
  let r ← b.read s (.inp elem)
  if r.busy then pure (.EBUSY, s) else pure (.OK, s.set (.inp elem) ⟨pkt, true⟩)

/-- What happens to a butterfly: it is clocked while its components answer what is sent to them, or
a component presents a packet to it. -/
inductive Drive (C : Type) where
  | clock (answer : Nat → Stat)
  | receive (sender : C) (pkt : Packet)

/-! ## What a step can do -/

variable {b} {s s' : State C} {height i j k : Nat}

@[simp] theorem set_reg (p : Place) (r : Reg) :
    (s.set p r).reg = Function.update s.reg p r := rfl

@[simp] theorem set_delivered (p : Place) (r : Reg) : (s.set p r).delivered = s.delivered := rfl

theorem read_eq {p : Place} {r : Reg} (h : b.read s p = some r) : r = s.reg p := by
  unfold read at h
  split at h
  · exact (Option.some.inj h).symm
  · cases h

/-- A packet was copied to a register that was free, and its own register freed. -/
structure Moved (s s' : State C) (p q : Place) : Prop where
  busy : (s.reg p).busy = true
  free : (s.reg q).busy = false
  eq : s' = (s.set q ⟨(s.reg p).pkt, true⟩).set p { s.reg p with busy := false }

/-- The packet in register `p` was handed to register `q`: it was moved, or nothing happened, as
there is no packet or `q` is occupied. -/
inductive Pushed (s s' : State C) (p q : Place) : Prop where
  | waits (hstuck : (s.reg p).busy = true → (s.reg q).busy = true) (heq : s' = s)
  | moves (hmoved : Moved s s' p q)

/-- A node refuses a packet, or puts it into a free input register. -/
theorem nodeReceive_cases {pkt : Packet} {idx : Nat} {left : Bool} {ret : Stat}
    (h : b.nodeReceive s i j pkt idx left = some (ret, s')) :
    ret = .EBUSY ∧ (s.reg (bank left i j idx)).busy = true ∧ s' = s ∨
      ret = .OK ∧ (s.reg (bank left i j idx)).busy = false ∧
        s' = s.set (bank left i j idx) ⟨pkt, true⟩ := by
  obtain ⟨r, hr, h⟩ := Option.bind_eq_some_iff.1 h
  obtain rfl := read_eq hr
  split at h
  case isTrue hbusy =>
    cases h
    exact .inl ⟨rfl, hbusy, rfl⟩
  case isFalse hfree =>
    cases h
    exact .inr ⟨rfl, Bool.eq_false_iff.2 hfree, rfl⟩

/-- A register is freed exactly if the node that it is handed to takes the packet. -/
theorem handover_cases {p : Place} {idx : Nat} {left : Bool} (hbusy : (s.reg p).busy = true)
    (h : (do
        let (ret, t) ← b.nodeReceive s i j (s.reg p).pkt idx left
        if ret = .EBUSY then pure t else pure (t.set p { s.reg p with busy := false }) :
          Option (State C)) = some s') : Pushed s s' p (bank left i j idx) := by
  obtain ⟨⟨ret, t⟩, hrecv, h⟩ := Option.bind_eq_some_iff.1 h
  rcases nodeReceive_cases hrecv with ⟨rfl, hstuck, rfl⟩ | ⟨rfl, hfree, rfl⟩
  · cases h
    exact .waits (fun _ => hstuck) rfl
  · cases h
    exact .moves ⟨hbusy, hfree, rfl⟩

theorem pushUp_cases (h : b.pushUp height i j s k = some s') :
    Pushed s s' (.out i j k) (bank (elemOf (s.reg (.out i j k)).pkt.dst >>> height &&& 1 = 1)
      (i - 1) (j / 2) k) := by
  obtain ⟨r, hr, h⟩ := Option.bind_eq_some_iff.1 h
  obtain rfl := read_eq hr
  split at h
  case isTrue hbusy => exact handover_cases hbusy h
  case isFalse hfree =>
    cases h
    exact .waits (fun hbusy => absurd hbusy hfree) rfl

theorem pushIn_cases (h : b.pushIn s i = some s') :
    Pushed s s' (.inp i) (bank (i % 2 = 1) (b.layers - 1) (i / 2) 0) := by
  obtain ⟨r, hr, h⟩ := Option.bind_eq_some_iff.1 h
  obtain rfl := read_eq hr
  split at h
  case isTrue hbusy => exact handover_cases hbusy h
  case isFalse hfree =>
    cases h
    exact .waits (fun hbusy => absurd hbusy hfree) rfl

theorem busy_of_accepts {count : Nat} {r : Reg} (h : accepts count height i r = true) :
    r.busy = true := by
  rw [accepts, Bool.and_eq_true] at h
  exact h.1

/-- A node moves a packet into a free output that it wants to go to. If the packets in both input
registers want to, then it compares their timestamps. -/
theorem populate_cases {count : Nat} (h : b.populate count height i j s k = some s') :
    (s' = s ∧ ((s.reg (.out i j k)).busy = true ∨
        ∀ left, accepts count height k (s.reg (bank left i j (k &&& (count / 2 - 1)))) = false)) ∨
      ∃ left, Moved s s' (bank left i j (k &&& (count / 2 - 1))) (.out i j k) ∧
        accepts count height k (s.reg (bank left i j (k &&& (count / 2 - 1)))) = true ∧
        (accepts count height k (s.reg (bank (!left) i j (k &&& (count / 2 - 1)))) = true →
          left = decide ((s.reg (.left i j (k &&& (count / 2 - 1)))).pkt.timestamp <
            (s.reg (.right i j (k &&& (count / 2 - 1)))).pkt.timestamp)) := by
  obtain ⟨out, hout, h⟩ := Option.bind_eq_some_iff.1 h
  obtain rfl := read_eq hout
  split at h
  case isTrue hbusy =>
    cases h
    exact .inl ⟨rfl, .inl hbusy⟩
  case isFalse hfree =>
    dsimp only at h
    generalize k &&& (count / 2 - 1) = idx at h ⊢
    obtain ⟨l, hl, h⟩ := Option.bind_eq_some_iff.1 h
    obtain ⟨r, hr, h⟩ := Option.bind_eq_some_iff.1 h
    obtain rfl := read_eq hl
    obtain rfl := read_eq hr
    have hchosen : ∀ left : Bool,
        (if left then s.reg (.left i j idx) else s.reg (.right i j idx)) =
          s.reg (bank left i j idx) := by
      rintro (_ | _) <;> rfl
    split at h
    case isTrue hneither =>
      cases h
      rw [Bool.and_eq_true, Bool.not_eq_true', Bool.not_eq_true'] at hneither
      refine .inl ⟨rfl, .inr fun left => ?_⟩
      cases left with
      | true => exact hneither.1
      | false => exact hneither.2
    case isFalse hwill =>
      obtain ⟨left, hleft⟩ : ∃ left, left = if accepts count height k (s.reg (.left i j idx)) &&
          accepts count height k (s.reg (.right i j idx)) then
            decide ((s.reg (.left i j idx)).pkt.timestamp < (s.reg (.right i j idx)).pkt.timestamp)
          else accepts count height k (s.reg (.left i j idx)) := ⟨_, rfl⟩
      rw [← hleft, hchosen] at h
      rw [Bool.and_eq_true, Bool.not_eq_true', Bool.not_eq_true', not_and_or,
        Bool.not_eq_false, Bool.not_eq_false] at hwill
      have hacc : accepts count height k (s.reg (bank left i j idx)) = true := by
        split_ifs at hleft with hboth
        · rw [Bool.and_eq_true] at hboth
          cases left with
          | true => exact hboth.1
          | false => exact hboth.2
        · cases left with
          | true => exact hleft.symm
          | false => exact hwill.resolve_left (by rw [← hleft]; decide)
      refine .inr ⟨left, ⟨busy_of_accepts hacc, Bool.eq_false_iff.2 hfree,
        (Option.some.inj h).symm⟩, hacc, fun hother => ?_⟩
      have hboth : accepts count height k (s.reg (.left i j idx)) = true ∧
          accepts count height k (s.reg (.right i j idx)) = true := by
        cases left with
        | true => exact ⟨hacc, hother⟩
        | false => exact ⟨hother, hacc⟩
      rwa [if_pos (Bool.and_eq_true_iff.2 hboth)] at hleft

/-- A component takes the packet in its output register or answers `EBUSY`. -/
theorem sendOut_cases {answer : Nat → Stat} (h : b.sendOut answer s i = some s') :
    s' = s ∧ ((s.reg (.out 0 0 i)).busy = true → answer i = .EBUSY) ∨
      (s.reg (.out 0 0 i)).busy = true ∧ answer i ≠ .EBUSY ∧ ∃ comp, b.send i = some comp ∧
        s' = { s.set (.out 0 0 i) { s.reg (.out 0 0 i) with busy := false } with
          delivered := ⟨i, comp, (s.reg (.out 0 0 i)).pkt⟩ :: s.delivered } := by
  obtain ⟨out, hout, h⟩ := Option.bind_eq_some_iff.1 h
  obtain rfl := read_eq hout
  split at h
  case isFalse hfree =>
    cases h
    exact .inl ⟨rfl, fun hbusy => absurd hbusy hfree⟩
  case isTrue hbusy =>
    obtain ⟨-, -, h⟩ := Option.bind_eq_some_iff.1 h
    obtain ⟨comp, hcomp, h⟩ := Option.bind_eq_some_iff.1 h
    split at h
    case isTrue hrefused =>
      cases h
      exact .inl ⟨rfl, fun _ => hrefused⟩
    case isFalse htaken =>
      cases h
      exact .inr ⟨hbusy, htaken, comp, hcomp, rfl⟩

/-- The assertions of `fat_bfly_receive` hold, and it refuses the packet or puts it into a free
input register. -/
theorem fatBflyReceive_cases [DecidableEq C] {sender : C} {pkt : Packet} {ret : Stat}
    (h : b.fatBflyReceive s sender pkt = some (ret, s')) :
    elemOf pkt.src < b.elems.toNat ∧ b.send (elemOf pkt.src) = some sender ∧
      (ret = .EBUSY ∧ s' = s ∨ ret = .OK ∧ (s.reg (.inp (elemOf pkt.src))).busy = false ∧
        s' = s.set (.inp (elemOf pkt.src)) ⟨pkt, true⟩) := by
  obtain ⟨_, helem, h⟩ := Option.bind_eq_some_iff.1 h
  obtain ⟨_, hport, h⟩ := Option.bind_eq_some_iff.1 h
  obtain ⟨r, hr, h⟩ := Option.bind_eq_some_iff.1 h
  obtain rfl := read_eq hr
  refine ⟨by simpa using helem, by simpa using hport, ?_⟩
  split at h
  case isTrue =>
    cases h
    exact .inl ⟨rfl, rfl⟩
  case isFalse hfree =>
    cases h
    exact .inr ⟨rfl, Bool.eq_false_iff.2 hfree, rfl⟩

end FatBfly

end Gran
