import Gran.Bfly.FatBfly
import Gran.Foundations.PacketNet

/-!
# Delivery in the fat butterfly

A fat butterfly over `2 ^ L` elements as a packet network. A packet in a bank of layer `i` sits at
an index that is its destination modulo a power of two, one bit longer in the output bank than in
the input banks (`Placed`), so at layer 0 the index is the destination. Clocks only move packets
along `next` (`fatBflyClock_advances`), as long as the output banks were allocated in full, which
the 32-bit product in `create_fat_bfly` grants up to `L = 30`. `fatBfly_exactly_once` is the result.
-/

namespace Gran.FatBfly

open PacketNet Relation

variable {C : Type}

/-- The destination element of a packet. -/
def dest (x : Packet) : Nat := elemOf x.dst

/-- Where a packet in a butterfly over `2 ^ L` elements goes next. -/
def next (L : Nat) : Place → Packet → Option Place
  | .inp e, _ => some (bank (e % 2 = 1) (L - 1) (e / 2) 0)
  | .left i j _, x => some (.out i j (dest x % 2 ^ (L - i)))
  | .right i j _, x => some (.out i j (dest x % 2 ^ (L - i)))
  | .out 0 _ _, _ => none
  | .out (i + 1) j k, x => some (bank (dest x >>> (L - (i + 1) - 1) &&& 1 = 1) i (j / 2) k)

/-- A packet in a register of layer `i` is at the index its destination has modulo the width of the
bank. -/
def Placed (L : Nat) (p : Place) (x : Packet) : Prop :=
  dest x < 2 ^ L ∧
    match p with
    | .inp e => e < 2 ^ L
    | .left i j k => i < L ∧ j < 2 ^ i ∧ k = dest x % 2 ^ (L - i - 1)
    | .right i j k => i < L ∧ j < 2 ^ i ∧ k = dest x % 2 ^ (L - i - 1)
    | .out i j k => i < L ∧ j < 2 ^ i ∧ k = dest x % 2 ^ (L - i)

/-- The packets held, entered and delivered. -/
def network (s : State C) (accepted : Multiset Packet) : Net Place Packet where
  held p := (s.reg p).held
  injected := accepted
  delivered := (s.delivered : Multiset (Delivery C)).map fun d => (.out 0 0 d.port, d.pkt)

variable {L : Nat}

/-- Which packets an output bank may hold. -/
theorem placed_bank {left : Bool} {i j k : Nat} {x : Packet} :
    Placed L (bank left i j k) x ↔
      dest x < 2 ^ L ∧ i < L ∧ j < 2 ^ i ∧ k = dest x % 2 ^ (L - i - 1) := by
  cases left <;> rfl

/-- Packets go from an output bank to the output register of its destination. -/
theorem next_bank (left : Bool) (i j k : Nat) (x : Packet) :
    next L (bank left i j k) x = some (.out i j (dest x % 2 ^ (L - i))) := by
  cases left <;> rfl

/-- The index of a packet follows it along `next`. -/
theorem placed_next (hL : 1 ≤ L) (p q : Place) (x : Packet) (h : Placed L p x)
    (hnext : next L p x = some q) : Placed L q x := by
  obtain ⟨hd, h⟩ := h
  match p with
  | .inp e =>
      obtain rfl := Option.some.inj hnext
      have hpow : 2 ^ L = 2 * 2 ^ (L - 1) := by rw [← pow_succ']; congr 1; omega
      refine placed_bank.2 ⟨hd, by omega, ?_, ?_⟩
      · have : e < 2 ^ L := h
        omega
      · rw [show L - (L - 1) - 1 = 0 by omega]
        simp [Nat.mod_one]
  | .left i j k =>
      obtain rfl := Option.some.inj hnext
      exact ⟨hd, h.1, h.2.1, rfl⟩
  | .right i j k =>
      obtain rfl := Option.some.inj hnext
      exact ⟨hd, h.1, h.2.1, rfl⟩
  | .out (i + 1) j k =>
      obtain rfl := Option.some.inj hnext
      obtain ⟨hi, hj, hk⟩ := h
      refine placed_bank.2 ⟨hd, by omega, ?_, ?_⟩
      · rw [pow_succ] at hj
        omega
      · rwa [show L - i - 1 = L - (i + 1) by omega]

/-- The hops from a register to the top output bank. -/
def hops (L : Nat) : Place → Nat
  | .inp _ => 2 * L
  | .left i _ _ => 2 * i + 1
  | .right i _ _ => 2 * i + 1
  | .out i _ _ => 2 * i

/-- The hops that are left from an output bank. -/
theorem hops_bank (left : Bool) (i j c : Nat) : hops L (bank left i j c) = 2 * i + 1 := by
  cases left <;> rfl

/-- Each hop brings a packet one register closer to the top. -/
theorem hops_next (hL : 1 ≤ L) {p q : Place} {x : Packet} (hnext : next L p x = some q) :
    hops L q + 1 = hops L p := by
  match p with
  | .inp e =>
      obtain rfl := Option.some.inj hnext
      rw [hops_bank]
      simp only [hops]
      omega
  | .left i j c | .right i j c =>
      obtain rfl := Option.some.inj hnext
      rfl
  | .out (i + 1) j c =>
      obtain rfl := Option.some.inj hnext
      rw [hops_bank]
      simp only [hops]
      omega

/-- No register is further from the top than the input registers. -/
theorem Placed.hops_le {p : Place} {x : Packet} (h : Placed L p x) : hops L p ≤ 2 * L := by
  obtain ⟨-, h⟩ := h
  match p with
  | .inp e => exact le_rfl
  | .left i j k | .right i j k | .out i j k =>
      have := h.1
      simp only [hops]
      omega

/-- A packet that has nowhere to go is in the top output bank, at its destination. -/
theorem placed_top {p : Place} {x : Packet} (h : Placed L p x) (hnext : next L p x = none) :
    p = .out 0 0 (dest x) := by
  obtain ⟨hd, h⟩ := h
  match p with
  | .out 0 j k =>
      obtain ⟨-, hj, hk⟩ := h
      have hj0 : j = 0 := by simpa using hj
      rw [hj0, hk, Nat.sub_zero, Nat.mod_eq_of_lt hd]

/-- The bit of a destination that a node looks at extends the index in its input banks to the index
in its output bank. -/
theorem mod_two_pow_of_bit {d h k : Nat} (hk : k < 2 ^ (h + 1)) (hmod : k % 2 ^ h = d % 2 ^ h)
    (hbit : (if k < 2 ^ h then !decide (d >>> h &&& 1 = 1) else decide (d >>> h &&& 1 = 1)) =
      true) :
    k = d % 2 ^ (h + 1) := by
  rw [Nat.shiftRight_eq_div_pow, Nat.and_one_is_mod] at hbit
  rw [Nat.pow_succ, Nat.mod_mul, ← hmod]
  rw [pow_succ] at hk
  by_cases hlow : k < 2 ^ h
  · have h0 : d / 2 ^ h % 2 = 0 := by
      have : ¬ d / 2 ^ h % 2 = 1 := by simpa [hlow] using hbit
      omega
    rw [h0, Nat.mod_eq_of_lt hlow, Nat.mul_zero, Nat.add_zero]
  · have h1 : d / 2 ^ h % 2 = 1 := by simpa [hlow] using hbit
    rw [h1, Nat.mod_eq_sub_mod (by omega), Nat.mod_eq_of_lt (by omega)]
    omega

/-- The index in the output bank has the bit that the node looks at. -/
theorem bit_of_mod_two_pow (d h : Nat) :
    (if d % 2 ^ (h + 1) < 2 ^ h then !decide (d >>> h &&& 1 = 1) else decide (d >>> h &&& 1 = 1)) =
      true := by
  rw [Nat.shiftRight_eq_div_pow, Nat.and_one_is_mod, Nat.pow_succ, Nat.mod_mul]
  have hlow := Nat.mod_lt d (Nat.two_pow_pos h)
  rcases Nat.mod_two_eq_zero_or_one (d / 2 ^ h) with h0 | h1
  · simp [h0, hlow]
  · simp [h1]

/-! ## The butterfly over `2 ^ L` elements -/

/-- The butterfly that `create_fat_bfly` builds for `2 ^ L` elements, once its ports are
connected. -/
structure OfSize (L : Nat) (b : FatBfly C) : Prop where
  pos : 1 ≤ L
  le : L ≤ 30
  elems : b.elems.toNat = 2 ^ L
  layers : b.layers = L
  connected : ∀ e < 2 ^ L, (b.send e).isSome = true

variable {b : FatBfly C}

/-- The height of a node in terms of its layer. -/
theorem OfSize.height (hb : OfSize L b) (i : Nat) : b.height i = L - i - 1 := by
  simp [FatBfly.height, hb.layers]

/-- The output banks are allocated twice as wide as they need to be. -/
theorem OfSize.out_len (hb : OfSize L b) : (2 * b.elems).toNat = 2 ^ (L + 1) := by
  have hlt : 2 ^ (L + 1) < 2 ^ 32 := Nat.pow_lt_pow_right (by decide) (by have := hb.le; omega)
  calc (2 * b.elems).toNat = 2 * 2 ^ L % 2 ^ 32 := by rw [BitVec.toNat_mul, hb.elems]; rfl
    _ = 2 ^ (L + 1) % 2 ^ 32 := by rw [← pow_succ']
    _ = 2 ^ (L + 1) := Nat.mod_eq_of_lt hlt

/-- The number of registers of an output bank. -/
theorem count_eq (h : Nat) : 2 <<< h = 2 ^ (h + 1) := by
  rw [Nat.shiftLeft_eq, pow_succ']

/-- The number of registers of an input bank. -/
theorem half_count (h : Nat) : 2 <<< h / 2 = 2 ^ h := by
  rw [count_eq, pow_succ]
  exact Nat.mul_div_cancel _ (by decide)

/-- The registers in an output bank of layer `i`. -/
theorem OfSize.count (hb : OfSize L b) {i : Nat} (hi : i < L) : 2 <<< b.height i = 2 ^ (L - i) := by
  rw [hb.height, count_eq]
  congr 1
  omega

/-- Output registers of existing nodes are inside of their vectors. -/
theorem OfSize.read_out (hb : OfSize L b) (s : State C) {i j k : Nat} (hi : i < L) (hj : j < 2 ^ i)
    (hk : k < 2 ^ (L - i)) : b.read s (.out i j k) = some (s.reg (.out i j k)) := by
  have hlen : 2 ^ (L - i) ≤ 2 ^ (L + 1) / 2 ^ i := by
    rw [Nat.pow_div (by omega) (by decide)]
    exact Nat.pow_le_pow_right (by decide) (by omega)
  have hcount : L - i - 1 + 1 = L - i := by omega
  simp only [read, allocated, inBank, hb.layers, hb.out_len, hb.height, count_eq, hcount]
  simp [hi, hj, hk, lt_of_lt_of_le hk hlen]

/-- Bank registers of existing nodes are inside of their vectors. -/
theorem OfSize.read_bank (hb : OfSize L b) (s : State C) (left : Bool) {i j k : Nat} (hi : i < L)
    (hj : j < 2 ^ i) (hk : k < 2 ^ (L - i - 1)) :
    b.read s (bank left i j k) = some (s.reg (bank left i j k)) := by
  have hlen : 2 ^ (L - i - 1) ≤ 2 ^ L / 2 ^ i := by
    rw [Nat.pow_div (by omega) (by decide)]
    exact Nat.pow_le_pow_right (by decide) (by omega)
  cases left <;>
    simp [read, allocated, inBank, bank, hb.layers, hb.elems, hb.height, half_count, hi, hj, hk,
      lt_of_lt_of_le hk hlen]

/-- Registers of existing elements are inside of their vector. -/
theorem OfSize.read_inp (hb : OfSize L b) (s : State C) {e : Nat} (he : e < 2 ^ L) :
    b.read s (.inp e) = some (s.reg (.inp e)) := by
  simp [read, allocated, inBank, hb.elems, he]

/-! ## Each step moves packets along the network -/

variable {s : State C} {accepted : Multiset Packet}

/-- Writing a register changes one place of the network. -/
theorem network_set (p : Place) (r : Reg) : network (s.set p r) accepted =
    { network s accepted with held := Function.update (network s accepted).held p r.held } := by
  simp only [network, set_reg, set_delivered, Net.mk.injEq, and_true]
  funext q
  by_cases h : q = p
  · subst h; simp
  · simp [h]

/-- A busy register holds its packet. -/
theorem held_of_busy {p : Place} (h : (s.reg p).busy = true) :
    (network s accepted).held p = some (s.reg p).pkt := Reg.held_eq_some.2 ⟨h, rfl⟩

/-- A packet copied from one register to the next, with the first register freed, hops. -/
theorem set_set_hop {p q : Place} (hbusy : (s.reg p).busy = true)
    (hnext : next L p (s.reg p).pkt = some q) (hfree : (s.reg q).busy = false) :
    Move (next L) (network s accepted)
      (network ((s.set q ⟨(s.reg p).pkt, true⟩).set p { s.reg p with busy := false })
        accepted) := by
  have hpq : p ≠ q := by rintro rfl; simp [hbusy] at hfree
  have hmove : Move (next L) (network s accepted) _ :=
    .hop p q _ (held_of_busy hbusy) hnext (Reg.held_eq_none.2 hfree)
  convert hmove using 1
  rw [network_set, network_set]
  simp only [Net.hop, Reg.held_mk_true, Reg.held_mk_false]
  rw [Function.update_comm hpq.symm]

/-- A packet was copied to the register it goes to, which was free, and its own register freed. -/
def Hopped (L : Nat) (s s' : State C) : Prop :=
  ∃ p q, (s.reg p).busy = true ∧ next L p (s.reg p).pkt = some q ∧ (s.reg q).busy = false ∧
    s' = (s.set q ⟨(s.reg p).pkt, true⟩).set p { s.reg p with busy := false }

/-- A hop is one move of the network. -/
theorem Hopped.move {s' : State C} (h : Hopped L s s') :
    Move (next L) (network s accepted) (network s' accepted) := by
  obtain ⟨p, q, hbusy, hnext, hfree, rfl⟩ := h
  exact set_set_hop hbusy hnext hfree

/-- A packet that goes from register `p` to register `q` finds that one occupied. -/
def Stuck (L : Nat) (s : State C) (p q : Place) : Prop :=
  (s.reg p).busy = true → next L p (s.reg p).pkt = some q → (s.reg q).busy = true

/-- The step between two states did nothing, as it found certain packets stuck, or was a hop. -/
def StuckOrHopped (L : Nat) (stuck : Place → Place → Prop) (s s' : State C) : Prop :=
  (s' = s ∧ ∀ p q, stuck p q → Stuck L s p q) ∨ Hopped L s s'

/-- Staying or hopping is at most one move of the network. -/
theorem StuckOrHopped.moves {stuck : Place → Place → Prop} {s' : State C}
    (h : StuckOrHopped L stuck s s') :
    Moves (next L) (network s accepted) (network s' accepted) := by
  rcases h with ⟨rfl, -⟩ | h
  · exact .refl
  · exact .single h.move

/-- A packet that is handed to the register it goes to hops, unless that one is occupied. -/
theorem Pushed.spec {s' : State C} {p q : Place} (h : Pushed s s' p q)
    (hnext : next L p (s.reg p).pkt = some q) : StuckOrHopped L (fun p' _ => p' = p) s s' := by
  cases h with
  | waits hstuck heq =>
      refine Or.inl ⟨heq, ?_⟩
      rintro p' q' rfl hbusy hq'
      obtain rfl := Option.some.inj (hnext.symm.trans hq')
      exact hstuck hbusy
  | moves hmoved => exact Or.inr ⟨p, q, hmoved.busy, hnext, hmoved.free, hmoved.eq⟩

/-- Handing a packet to a node succeeds. -/
theorem OfSize.handover_isSome (hb : OfSize L b) (p : Place) {i j idx : Nat} (left : Bool)
    (hi : i < L) (hj : j < 2 ^ i) (hidx : idx < 2 ^ (L - i - 1)) :
    ∃ s', (do
        let (ret, t) ← b.nodeReceive s i j (s.reg p).pkt idx left
        if ret = .EBUSY then pure t else pure (t.set p { s.reg p with busy := false }) :
          Option (State C)) = some s' := by
  simp only [nodeReceive, hb.read_bank s left hi hj hidx, Option.bind_eq_bind, Option.bind_some]
  split
  · exact ⟨_, rfl⟩
  · exact ⟨_, rfl⟩

/-- One iteration of the loop that pushes outputs to the next layer. -/
theorem OfSize.pushUp_spec (hb : OfSize L b) {i j k : Nat} (hi : i + 1 < L)
    (hj : j < 2 ^ (i + 1)) (hk : k < 2 ^ (L - (i + 1))) (s : State C) :
    ∃ s', b.pushUp (b.height (i + 1)) (i + 1) j s k = some s' ∧
      StuckOrHopped L (fun p _ => p = .out (i + 1) j k) s s' := by
  rw [hb.height]
  have hj' : j / 2 < 2 ^ i := by
    rw [pow_succ] at hj
    omega
  have hk' : k < 2 ^ (L - i - 1) := by rwa [show L - i - 1 = L - (i + 1) by omega]
  obtain ⟨s', hs'⟩ : ∃ s', b.pushUp (L - (i + 1) - 1) (i + 1) j s k = some s' := by
    simp only [pushUp, hb.read_out s hi hj hk, Option.bind_eq_bind, Option.bind_some]
    split
    · exact hb.handover_isSome _ _ (by omega) hj' hk'
    · exact ⟨s, rfl⟩
  exact ⟨s', hs', (pushUp_cases hs').spec rfl⟩

/-- One iteration of the loop that pushes packets of elements into the first layer. -/
theorem OfSize.pushIn_spec (hb : OfSize L b) {e : Nat} (he : e < 2 ^ L) (s : State C) :
    ∃ s', b.pushIn s e = some s' ∧ StuckOrHopped L (fun p _ => p = .inp e) s s' := by
  have hL := hb.pos
  have he' : e / 2 < 2 ^ (L - 1) := by
    have hpow : 2 ^ L = 2 * 2 ^ (L - 1) := by rw [← pow_succ']; congr 1; omega
    omega
  obtain ⟨s', hs'⟩ : ∃ s', b.pushIn s e = some s' := by
    simp only [pushIn, hb.read_inp s he, Option.bind_eq_bind, Option.bind_some, hb.layers]
    split
    · exact hb.handover_isSome _ _ (by omega) he' (Nat.two_pow_pos _)
    · exact ⟨s, rfl⟩
  have hpushed := pushIn_cases hs'
  rw [hb.layers] at hpushed
  exact ⟨s', hs', hpushed.spec rfl⟩

/-- A node accepts a packet for an output register exactly if it goes there. -/
theorem accepts_iff_next {left : Bool} {i j k : Nat} (hi : i < L) (hk : k < 2 ^ (L - i)) {r : Reg}
    (hbusy : r.busy = true) (hplaced : Placed L (bank left i j (k % 2 ^ (L - i - 1))) r.pkt) :
    accepts (2 <<< (L - i - 1)) (L - i - 1) k r = true ↔
      next L (bank left i j (k % 2 ^ (L - i - 1))) r.pkt = some (.out i j k) := by
  have hcount : L - i = L - i - 1 + 1 := by omega
  have hmod := (placed_bank.1 hplaced).2.2.2
  simp only [accepts, half_count, hbusy, Bool.true_and]
  rw [next_bank]
  constructor
  · intro hwill
    rw [hcount, ← mod_two_pow_of_bit (hcount ▸ hk) hmod hwill]
  · intro hnext
    simp only [Option.some.injEq, Place.out.injEq, true_and] at hnext
    rw [← hnext, hcount]
    exact bit_of_mod_two_pow (dest r.pkt) (L - i - 1)

/-- One iteration of the loop that fills the outputs of a node. -/
theorem OfSize.populate_spec (hb : OfSize L b) {i j k : Nat} (hi : i < L) (hj : j < 2 ^ i)
    (hk : k < 2 ^ (L - i)) {s : State C} (hs : Routed (next L) (Placed L) (network s accepted)) :
    ∃ s', b.populate (2 <<< b.height i) (b.height i) i j s k = some s' ∧
      StuckOrHopped L (fun p q => q = .out i j k ∧
        ∃ left, p = bank left i j (k % 2 ^ (L - i - 1))) s s' := by
  have hidx : k &&& (2 ^ (L - i - 1) - 1) = k % 2 ^ (L - i - 1) :=
    Nat.and_two_pow_sub_one_eq_mod k _
  have hlt : k % 2 ^ (L - i - 1) < 2 ^ (L - i - 1) := Nat.mod_lt _ (Nat.two_pow_pos _)
  have hleft := hb.read_bank s true hi hj hlt
  have hright := hb.read_bank s false hi hj hlt
  have hout := hb.read_out s hi hj hk
  simp only [bank, if_true, Bool.false_eq_true, if_false] at hleft hright
  rw [hb.height]
  obtain ⟨s', hs'⟩ : ∃ s', b.populate (2 <<< (L - i - 1)) (L - i - 1) i j s k = some s' := by
    simp only [populate, half_count, hidx, hleft, hright, hout, Option.bind_eq_bind,
      Option.bind_some]
    split
    · exact ⟨s, rfl⟩
    · split
      · exact ⟨s, rfl⟩
      · exact ⟨_, rfl⟩
  have hcases := populate_cases hs'
  rw [half_count, hidx] at hcases
  have hwill : ∀ left, (s.reg (bank left i j (k % 2 ^ (L - i - 1)))).busy = true →
      (accepts (2 <<< (L - i - 1)) (L - i - 1) k
          (s.reg (bank left i j (k % 2 ^ (L - i - 1)))) = true ↔
        next L (bank left i j (k % 2 ^ (L - i - 1)))
          (s.reg (bank left i j (k % 2 ^ (L - i - 1)))).pkt = some (.out i j k)) :=
    fun left hfull => accepts_iff_next hi hk hfull (hs.held _ _ (held_of_busy hfull))
  refine ⟨s', hs', ?_⟩
  rcases hcases with ⟨rfl, hstuck⟩ | ⟨left, hmoved, hacc, -⟩
  · refine Or.inl ⟨rfl, ?_⟩
    rintro p q ⟨rfl, left, rfl⟩ hfull hnext
    rcases hstuck with hbusy | hnone
    · exact hbusy
    · have hacc := (hwill left hfull).2 hnext
      cases (hnone left).symm.trans hacc
  · exact Or.inr ⟨_, _, hmoved.busy, (hwill left hmoved.busy).1 hacc, hmoved.free, hmoved.eq⟩

/-- The packet in an output register of layer 0 was handed to a component. -/
def Departed (s s' : State C) (i : Nat) : Prop :=
  (s.reg (.out 0 0 i)).busy = true ∧ ∃ comp, s' =
    { s.set (.out 0 0 i) { s.reg (.out 0 0 i) with busy := false } with
      delivered := ⟨i, comp, (s.reg (.out 0 0 i)).pkt⟩ :: s.delivered }

/-- Handing a packet to its element is one move of the network. -/
theorem Departed.move {s' : State C} {i : Nat} (h : Departed s s' i) :
    Move (next L) (network s accepted) (network s' accepted) := by
  obtain ⟨hbusy, comp, rfl⟩ := h
  have hmove : Move (next L) (network s accepted) _ :=
    .leave (.out 0 0 i) _ (held_of_busy hbusy) rfl
  convert hmove using 1
  simp only [Net.leave, network, Net.mk.injEq, true_and]
  exact ⟨congrArg Net.held (@network_set _ s accepted _ _), rfl⟩

/-- A packet in the top output bank is sent to the component of its address: the assertion holds,
and the packet leaves unless the component refuses it. -/
theorem OfSize.sendOut_spec (hb : OfSize L b) (answer : Nat → Stat) {i : Nat} (hi : i < 2 ^ L)
    {s : State C} (hs : Routed (next L) (Placed L) (network s accepted)) :
    ∃ s', b.sendOut answer s i = some s' ∧
      (s' = s ∧ ((s.reg (.out 0 0 i)).busy = true → answer i = .EBUSY) ∨ Departed s s' i) := by
  have hout := hb.read_out s (i := 0) (j := 0) hb.pos (by decide) (by simpa using hi)
  cases hbusy : (s.reg (.out 0 0 i)).busy with
  | false => exact ⟨s, by simp [sendOut, hout, hbusy], Or.inl ⟨rfl, fun h => nomatch h⟩⟩
  | true =>
      have htop := placed_top (hs.held _ _ (held_of_busy hbusy)) rfl
      have hdest : elemOf (s.reg (.out 0 0 i)).pkt.dst = i := by
        simp only [Place.out.injEq, true_and] at htop
        exact htop.symm
      obtain ⟨comp, hcomp⟩ := Option.isSome_iff_exists.1 (hb.connected i hi)
      by_cases hans : answer i = .EBUSY
      · exact ⟨s, by simp [sendOut, hout, hbusy, hdest, hcomp, hans], Or.inl ⟨rfl, fun _ => hans⟩⟩
      · exact ⟨_, by simp [sendOut, hout, hbusy, hdest, hcomp, hans], Or.inr ⟨hbusy, comp, rfl⟩⟩

/-- Handing over the packet of an output only moves packets. -/
theorem OfSize.sendOut_advances (hb : OfSize L b) (answer : Nat → Stat) {i : Nat} (hi : i < 2 ^ L) :
    Advances (next L) (Placed L) (fun s => network s accepted) (fun s => b.sendOut answer s i) := by
  intro s hs
  obtain ⟨s', hs', hspec⟩ := hb.sendOut_spec answer hi hs
  rcases hspec with ⟨rfl, -⟩ | h
  · exact ⟨s', hs', .refl⟩
  · exact ⟨s', hs', .single h.move⟩

section Clock

variable (hb : OfSize L b)
include hb

/-- The routing function keeps packets well placed. -/
theorem OfSize.next_ok (p q : Place) (x : Packet) (h : Placed L p x) (hnext : next L p x = some q) :
    Placed L q x := placed_next hb.pos p q x h hnext

omit hb in
/-- A step that is a hop or nothing advances. -/
theorem advances_of_spec {f : State C → Option (State C)} {stuck : Place → Place → Prop}
    (hf : ∀ s, Routed (next L) (Placed L) (network s accepted) →
      ∃ s', f s = some s' ∧ StuckOrHopped L stuck s s') :
    Advances (next L) (Placed L) (fun s => network s accepted) f := by
  intro s hs
  obtain ⟨s', hs', hspec⟩ := hf s hs
  exact ⟨s', hs', hspec.moves⟩

/-- Pushing the outputs of a node up only moves packets. -/
theorem OfSize.pushLoop_advances {i j : Nat} (hi : i < L) (hj : j < 2 ^ i) :
    Advances (next L) (Placed L) (fun s => network s accepted) (fun s => if i = 0 then pure s else
      (List.range (2 <<< b.height i)).foldlM (b.pushUp (b.height i) i j) s) := by
  match i with
  | 0 => exact advances_some
  | i + 1 =>
      refine Advances.foldlM hb.next_ok fun k hk => ?_
      rw [hb.count hi, List.mem_range] at hk
      exact advances_of_spec fun s _ => hb.pushUp_spec hi hj hk s

/-- Filling the outputs of a node only moves packets. -/
theorem OfSize.populateLoop_advances {i j : Nat} (hi : i < L) (hj : j < 2 ^ i) :
    Advances (next L) (Placed L) (fun s => network s accepted) (fun s =>
      (List.range (2 <<< b.height i)).foldlM
        (b.populate (2 <<< b.height i) (b.height i) i j) s) := by
  refine Advances.foldlM hb.next_ok fun k hk => ?_
  rw [hb.count hi, List.mem_range] at hk
  exact advances_of_spec fun s hs => hb.populate_spec hi hj hk hs

/-- The clock of a node only moves packets. -/
theorem OfSize.nodeClock_advances {i j : Nat} (hi : i < L) (hj : j < 2 ^ i) :
    Advances (next L) (Placed L) (fun s => network s accepted)
      (fun s => b.nodeClock s i j (2 <<< b.height i) (b.height i)) :=
  Advances.bind hb.next_ok (hb.pushLoop_advances hi hj) (hb.populateLoop_advances hi hj)

/-- Handing packets to the elements only moves packets. -/
theorem OfSize.sendLoop_advances (answer : Nat → Stat) :
    Advances (next L) (Placed L) (fun s => network s accepted)
      (fun s => (List.range b.elems.toNat).foldlM (b.sendOut answer) s) := by
  refine Advances.foldlM hb.next_ok fun i hi => ?_
  rw [hb.elems, List.mem_range] at hi
  exact hb.sendOut_advances answer hi

/-- The clocks of a layer only move packets. -/
theorem OfSize.layerClock_advances {i : Nat} (hi : i < L) :
    Advances (next L) (Placed L) (fun s => network s accepted)
      (fun s => b.layerClock s i (1 <<< i) (b.height i)) := by
  refine Advances.foldlM hb.next_ok fun j hj => ?_
  rw [Nat.shiftLeft_eq, Nat.one_mul, List.mem_range] at hj
  exact hb.nodeClock_advances hi hj

/-- The clocks of all layers only move packets. -/
theorem OfSize.layerLoop_advances :
    Advances (next L) (Placed L) (fun s => network s accepted) (fun s =>
      (List.range b.layers).foldlM (fun s i => b.layerClock s i (1 <<< i) (b.height i)) s) := by
  refine Advances.foldlM hb.next_ok fun i hi => ?_
  rw [hb.layers, List.mem_range] at hi
  exact hb.layerClock_advances hi

/-- Pushing the packets of the elements in only moves packets. -/
theorem OfSize.pushInLoop_advances :
    Advances (next L) (Placed L) (fun s => network s accepted)
      (fun s => (List.range b.elems.toNat).foldlM b.pushIn s) := by
  refine Advances.foldlM hb.next_ok fun e he => ?_
  rw [hb.elems, List.mem_range] at he
  exact advances_of_spec fun s _ => hb.pushIn_spec he s

/-- A clock fails no assertion, leaves no array, and moves packets along the network. -/
theorem OfSize.fatBflyClock_advances (answer : Nat → Stat) :
    Advances (next L) (Placed L) (fun s => network s accepted) (b.fatBflyClock answer) :=
  Advances.bind hb.next_ok (hb.sendLoop_advances answer)
    (Advances.bind hb.next_ok hb.layerLoop_advances hb.pushInLoop_advances)

end Clock

/-! ## Runs -/

/-- A state with the packets accepted so far. -/
structure Run (C : Type) where
  state : State C
  accepted : List Packet

variable [DecidableEq C]

/-- One step of a run: a clock, in which each component answers what it is sent, or a component
presents a packet for an element of the butterfly. -/
inductive Run.Step (b : FatBfly C) (r : Run C) : Run C → Prop where
  | clock (answer : Nat → Stat) (hanswer : ∀ e, answer e = .OK ∨ answer e = .EBUSY) (s' : State C)
      (h : b.fatBflyClock answer r.state = some s') : Step b r { r with state := s' }
  | receive (sender : C) (pkt : Packet) (haddr : dest pkt < b.elems.toNat) (ret : Stat)
      (s' : State C) (h : b.fatBflyReceive r.state sender pkt = some (ret, s')) :
      Step b r ⟨s', if ret = .OK then pkt :: r.accepted else r.accepted⟩

/-- The runs that start from an empty butterfly. -/
abbrev Run.Reachable (b : FatBfly C) (r : Run C) : Prop :=
  ReflTransGen (Run.Step b) ⟨.init, []⟩ r

/-- Packets enter at input registers. -/
def entry (L : Nat) (p : Place) (x : Packet) : Prop := ∃ e, p = .inp e ∧ e < 2 ^ L ∧ dest x < 2 ^ L

/-- Packets enter at places where they may be. -/
theorem entry_placed (p : Place) (x : Packet) (h : entry L p x) : Placed L p x := by
  obtain ⟨e, rfl, he, hx⟩ := h
  exact ⟨hx, he⟩

/-- A packet presented at a connected port is accepted or refused, and enters the network in the
first case. -/
theorem OfSize.fatBflyReceive_spec (hb : OfSize L b) {sender : C} {pkt : Packet}
    (helem : elemOf pkt.src < 2 ^ L) (hport : b.send (elemOf pkt.src) = some sender) :
    b.fatBflyReceive s sender pkt = some (if (s.reg (.inp (elemOf pkt.src))).busy then (.EBUSY, s)
      else (.OK, s.set (.inp (elemOf pkt.src)) ⟨pkt, true⟩)) := by
  simp only [fatBflyReceive, hb.elems, helem, guard_true, Option.bind_eq_bind, hport,
    hb.read_inp s helem, Option.pure_def, Option.bind_some]
  split <;> rfl

/-- A step of a run is a run of the network. -/
theorem Run.Step.steps (hb : OfSize L b) {r r' : Run C} (hstep : Run.Step b r r')
    (hn : Routed (next L) (Placed L) (network r.state r.accepted)) :
    Steps (next L) (entry L) (network r.state r.accepted) (network r'.state r'.accepted) := by
  cases hstep with
  | clock answer hanswer s' h =>
      obtain ⟨t, ht, hmoves⟩ := hb.fatBflyClock_advances answer r.state hn
      obtain rfl : t = s' := Option.some.inj (ht.symm.trans h)
      exact hmoves.steps
  | receive sender pkt haddr ret s' h =>
      obtain ⟨helem, -, ⟨rfl, rfl⟩ | ⟨rfl, hfree, rfl⟩⟩ := fatBflyReceive_cases h
      · exact .refl
      · have hinj : PacketNet.Step (next L) (entry L) (network r.state r.accepted) _ :=
          .inject (.inp (elemOf pkt.src)) pkt (Reg.held_eq_none.2 hfree)
            ⟨_, rfl, hb.elems ▸ helem, hb.elems ▸ haddr⟩
        refine .single ?_
        convert hinj using 1
        rw [network_set]
        rfl

/-- Every reachable run is a run of the network, and keeps its packets well placed. -/
theorem OfSize.reachable_steps (hb : OfSize L b) {r : Run C} (h : r.Reachable b) :
    Steps (next L) (entry L) Net.empty (network r.state r.accepted) ∧
      Routed (next L) (Placed L) (network r.state r.accepted) := by
  induction h with
  | refl => exact ⟨.refl, routed_empty _⟩
  | tail _ hstep ih =>
      have hsteps := hstep.steps hb ih.2
      exact ⟨ih.1.trans hsteps, Steps.routed hb.next_ok entry_placed hsteps ih.2⟩

/-! ## Exactly-once delivery -/

/-- The registers of a butterfly, all that `create_fat_bfly` allocates. -/
def places (b : FatBfly C) : Finset Place :=
  let box :=
    Finset.range b.layers ×ˢ Finset.range (2 ^ b.layers) ×ˢ Finset.range (2 * b.elems.toNat)
  ((Finset.range b.elems.toNat).image Place.inp ∪ box.image (fun x => .left x.1 x.2.1 x.2.2) ∪
    box.image (fun x => .right x.1 x.2.1 x.2.2) ∪
    box.image (fun x => .out x.1 x.2.1 x.2.2)).filter (fun p => b.allocated p)

omit [DecidableEq C] in
/-- The places are those of the registers that were allocated. -/
theorem mem_places {p : Place} : p ∈ b.places ↔ b.allocated p = true := by
  refine ⟨fun h => (Finset.mem_filter.1 h).2, fun h => Finset.mem_filter.2 ⟨?_, h⟩⟩
  have hle : (2 * b.elems).toNat ≤ 2 * b.elems.toNat := by
    rw [BitVec.toNat_mul]
    exact Nat.mod_le _ _
  have hdiv := fun n i => Nat.div_le_self n (2 ^ i)
  cases p with
  | inp e => simpa [allocated] using h
  | left i j k =>
      simp only [allocated, Bool.and_eq_true, decide_eq_true_eq] at h
      have hpow := Nat.pow_le_pow_right (n := 2) (by decide) h.1.1.le
      have := hdiv b.elems.toNat i
      simp
      omega
  | right i j k =>
      simp only [allocated, Bool.and_eq_true, decide_eq_true_eq] at h
      have hpow := Nat.pow_le_pow_right (n := 2) (by decide) h.1.1.le
      have := hdiv b.elems.toNat i
      simp
      omega
  | out i j k =>
      simp only [allocated, Bool.and_eq_true, decide_eq_true_eq] at h
      have hpow := Nat.pow_le_pow_right (n := 2) (by decide) h.1.1.le
      have := hdiv (2 * b.elems).toNat i
      simp
      omega

/-- The packets in the registers of a butterfly. -/
def registers (b : FatBfly C) (s : State C) : Multiset Packet :=
  ∑ p ∈ b.places, held1 (s.reg p).held

/-- Exactly-once addressed delivery. In every reachable state the packets accepted are the packets
in the registers and the packets delivered, each packet delivered went to the component at its
destination, and neither a clock nor a packet presented at its port fails an assertion or reaches
outside a bank. -/
structure ExactlyOnce (b : FatBfly C) : Prop where
  conserved : ∀ r : Run C, r.Reachable b → (r.accepted : Multiset Packet) =
    b.registers r.state + ((r.state.delivered.map Delivery.pkt : List Packet) : Multiset Packet)
  addressed : ∀ r : Run C, r.Reachable b →
    ∀ d ∈ r.state.delivered, b.send (dest d.pkt) = some d.comp
  clock : ∀ r : Run C, r.Reachable b → ∀ answer : Nat → Stat,
    (∀ e, answer e = .OK ∨ answer e = .EBUSY) → ∃ s', b.fatBflyClock answer r.state = some s'
  receive : ∀ r : Run C, r.Reachable b → ∀ (sender : C) (pkt : Packet),
    elemOf pkt.src < b.elems.toNat → b.send (elemOf pkt.src) = some sender →
    ∃ ret s', b.fatBflyReceive r.state sender pkt = some (ret, s') ∧ (ret = .OK ∨ ret = .EBUSY)

omit [DecidableEq C] in
/-- Packets may only be in registers that were allocated. -/
theorem OfSize.placed_mem (hb : OfSize L b) (p : Place) (x : Packet) (h : Placed L p x) :
    p ∈ b.places := by
  have hread : ∀ s : State C, (b.read s p).isSome = true → b.allocated p = true := by
    intro s hs
    simp only [read, Option.isSome_ite, Bool.and_eq_true] at hs
    exact hs.1
  refine mem_places.2 (hread .init ?_)
  obtain ⟨-, h⟩ := h
  match p with
  | .inp e => simp [hb.read_inp _ h]
  | .left i j k =>
      have := hb.read_bank .init true h.1 h.2.1 (h.2.2 ▸ Nat.mod_lt _ (Nat.two_pow_pos _))
      simp only [bank, if_true] at this
      simp [this]
  | .right i j k =>
      have := hb.read_bank .init false h.1 h.2.1 (h.2.2 ▸ Nat.mod_lt _ (Nat.two_pow_pos _))
      simp only [bank, Bool.false_eq_true, if_false] at this
      simp [this]
  | .out i j k =>
      simp [hb.read_out .init h.1 h.2.1 (h.2.2 ▸ Nat.mod_lt _ (Nat.two_pow_pos _))]

/-! ### Who receives -/

/-- Every packet delivered went to the component connected to its port. -/
def Handed (b : FatBfly C) (s : State C) : Prop := ∀ d ∈ s.delivered, b.send d.port = some d.comp

section Handed

omit [DecidableEq C]

/-- A move hands nothing over. -/
theorem Handed.moved {s s' : State C} {p q : Place} (hs : Handed b s) (h : Moved s s' p q) :
    Handed b s' := by
  rw [h.eq]
  exact hs

/-- A push hands nothing over. -/
theorem Handed.pushed {s s' : State C} {p q : Place} (hs : Handed b s) (h : Pushed s s' p q) :
    Handed b s' := by
  cases h with
  | waits _ heq => rwa [heq]
  | moves hmoved => exact hs.moved hmoved

/-- Filling an output hands nothing over. -/
theorem populate_handed {count height i j k : Nat} {s' : State C}
    (h : b.populate count height i j s k = some s') (hs : Handed b s) : Handed b s' := by
  rcases populate_cases h with ⟨rfl, -⟩ | ⟨left, hmoved, -⟩
  · exact hs
  · exact hs.moved hmoved

/-- A packet that leaves an output register is handed to the element of that output. -/
theorem sendOut_handed {answer : Nat → Stat} {i : Nat} {s' : State C}
    (h : b.sendOut answer s i = some s') (hs : Handed b s) : Handed b s' := by
  rcases sendOut_cases h with ⟨rfl, -⟩ | ⟨-, -, comp, hcomp, rfl⟩
  · exact hs
  · intro d hd
    rcases List.mem_cons.1 hd with rfl | hd
    · exact hcomp
    · exact hs d hd

/-- The loops of a clock hand packets to their components. -/
theorem fatBflyClock_handed {answer : Nat → Stat} {s' : State C}
    (h : b.fatBflyClock answer s = some s') (hs : Handed b s) : Handed b s' := by
  have hloop : ∀ {A : Type} {f : State C → A → Option (State C)} {l : List A} {t t' : State C},
      (∀ t a t', f t a = some t' → Handed b t → Handed b t') → l.foldlM f t = some t' →
      Handed b t → Handed b t' := fun hf =>
    Fold.foldlM_rel (fun t t' => Handed b t → Handed b t') (fun _ h => h)
      (fun _ _ _ h1 h2 h => h2 (h1 h)) (fun t a t' _ => hf t a t')
  simp only [fatBflyClock, Option.bind_eq_bind, Option.bind_eq_some_iff] at h
  obtain ⟨t, hsend, u, hlayers, hin⟩ := h
  refine hloop (fun _ _ _ h hs => hs.pushed (pushIn_cases h)) hin
    (hloop (fun v i v' h => ?_) hlayers (hloop (fun _ _ _ => sendOut_handed) hsend hs))
  refine hloop (fun x j x' h => ?_) h
  simp only [nodeClock, Option.bind_eq_bind, Option.bind_eq_some_iff] at h
  obtain ⟨y, hpush, hpop⟩ := h
  intro hx
  refine hloop (fun _ _ _ => populate_handed) hpop ?_
  split at hpush
  · cases hpush; exact hx
  · exact hloop (fun _ _ _ h hs => hs.pushed (pushUp_cases h)) hpush hx

end Handed

/-- In every reachable run each packet was handed to the element it left for. -/
theorem reachable_handed {r : Run C} (h : r.Reachable b) : Handed b r.state := by
  induction h with
  | refl => intro d hd; cases hd
  | tail _ hstep ih =>
      cases hstep with
      | clock answer hanswer s' h => exact fatBflyClock_handed h ih
      | receive sender pkt haddr ret s' h =>
          obtain ⟨-, -, ⟨-, rfl⟩ | ⟨-, -, rfl⟩⟩ := fatBflyReceive_cases h
          · exact ih
          · exact ih

/-- In every reachable run the packets accepted are those in the registers and those delivered. -/
theorem OfSize.reachable_conserved (hb : OfSize L b) {r : Run C} (h : r.Reachable b) :
    Conserved b.places (network r.state r.accepted) := by
  have hempty : Conserved b.places (Net.empty : Net Place Packet) := by
    unfold Conserved
    rw [content_empty]
    rfl
  exact Steps.conserved hb.next_ok entry_placed hb.placed_mem (hb.reachable_steps h).1
    (routed_empty _) hempty

/-- A butterfly of the right size delivers every packet once. -/
theorem OfSize.exactlyOnce (hb : OfSize L b) : ExactlyOnce b where
  conserved r h := by
    have hc := hb.reachable_conserved h
    unfold Conserved at hc
    simp only [network, Multiset.map_map] at hc
    exact hc
  addressed r h d hd := by
    have hrouted := (hb.reachable_steps h).2.delivered (.out 0 0 d.port, d.pkt)
      (Multiset.mem_map_of_mem _ (Multiset.mem_coe.2 hd))
    have htop := placed_top hrouted.1 hrouted.2
    simp only [Place.out.injEq, true_and] at htop
    rw [← htop]
    exact reachable_handed h d hd
  clock r h answer _ := by
    obtain ⟨s', hs', -⟩ := hb.fatBflyClock_advances answer r.state (hb.reachable_steps h).2
    exact ⟨s', hs'⟩
  receive r h sender pkt helem hport := by
    rw [hb.fatBflyReceive_spec (hb.elems ▸ helem) hport]
    split
    · exact ⟨_, _, rfl, Or.inr rfl⟩
    · exact ⟨_, _, rfl, Or.inl rfl⟩

/-! ## The sizes that can be built -/

/-- `log2ull` undoes powers of two that fit into 32 bits. -/
theorem log2ull_two_pow : ∀ L < 32, isPowerof2 ((BitVec.ofNat 32 (2 ^ L)).zeroExtend 64) = true ∧
    log2ull ((BitVec.ofNat 32 (2 ^ L)).zeroExtend 64) = L := by
  decide +kernel

omit [DecidableEq C] in
/-- The butterfly that is created for a power of two. -/
theorem createFatBfly_two_pow (hL : 1 ≤ L) (hL' : L < 32) :
    createFatBfly (BitVec.ofNat 32 (2 ^ L)) =
      some (⟨BitVec.ofNat 32 (2 ^ L), fun _ => none, L⟩ : FatBfly C) := by
  obtain ⟨hpow, hlog⟩ := log2ull_two_pow L hL'
  have hne : L ≠ 0 := by omega
  simp only [createFatBfly, hpow, hlog]
  simp [hne]

omit [DecidableEq C] in
/-- When the size of every output bank wraps to 0, the first clock reads outside of the top one. -/
theorem fatBflyClock_wrapped (hpos : 0 < b.elems.toNat) (hwrap : 2 * b.elems = 0)
    (answer : Nat → Stat) : b.fatBflyClock answer s = none := by
  obtain ⟨n, hn⟩ := Nat.exists_eq_add_of_lt hpos
  have hlen : (2 * b.elems).toNat = 0 := by rw [hwrap]; rfl
  have hread : b.read s (.out 0 0 0) = none := by
    simp only [read, allocated, hlen]
    simp
  rw [fatBflyClock, hn, Nat.zero_add, List.range_succ_eq_map, List.foldlM_cons, sendOut, hread]
  rfl

/-- A fat butterfly over `2 ^ L` elements delivers exactly once if and only if `L` is at most 30,
whatever components are connected to its ports. -/
theorem fatBfly_exactly_once (L : Nat) (hL : 1 ≤ L) (hL' : L < 32) (b : FatBfly C)
    (hcreate : createFatBfly (BitVec.ofNat 32 (2 ^ L)) = some b) (send : Nat → Option C)
    (hsend : ∀ e < b.elems.toNat, (send e).isSome = true) :
    ExactlyOnce { b with send } ↔ L ≤ 30 := by
  obtain rfl := Option.some.inj (hcreate.symm.trans (createFatBfly_two_pow hL hL'))
  have hpow : (BitVec.ofNat 32 (2 ^ L)).toNat = 2 ^ L :=
    Nat.mod_eq_of_lt (Nat.pow_lt_pow_right (by decide) hL')
  refine ⟨fun h => ?_, fun hle => ?_⟩
  · by_contra hlt
    obtain rfl : L = 31 := by omega
    obtain ⟨s', hs'⟩ := h.clock ⟨.init, []⟩ .refl (fun _ => .OK) (fun _ => Or.inl rfl)
    have hwrap : (2 : BitVec 32) * BitVec.ofNat 32 (2 ^ 31) = 0 := by decide
    rw [fatBflyClock_wrapped (hpow ▸ Nat.two_pow_pos 31) hwrap] at hs'
    cases hs'
  · have hb : OfSize L ({ elems := BitVec.ofNat 32 (2 ^ L), send, layers := L } : FatBfly C) :=
      ⟨hL, hle, hpow, rfl, fun e he => hsend e (lt_of_lt_of_eq he hpow.symm)⟩
    exact hb.exactlyOnce

/-- The butterfly over two elements, both connected to one component. -/
theorem fatBfly_exactly_once_two : ExactlyOnce
    ({ elems := BitVec.ofNat 32 (2 ^ 1), send := fun _ => some (), layers := 1 } : FatBfly Unit) :=
  (fatBfly_exactly_once 1 (by decide) (by decide) _ (createFatBfly_two_pow (by decide) (by decide))
    (fun _ => some ()) (fun _ _ => rfl)).2 (by decide)

/-- `create_fat_bfly` accepts `2 ^ 31` elements, and the butterfly it builds aborts. -/
theorem fatBfly_wraps : ∃ b : FatBfly Unit, createFatBfly (BitVec.ofNat 32 (2 ^ 31)) = some b ∧
    ¬ ExactlyOnce { b with send := fun _ => some () } := by
  refine ⟨_, createFatBfly_two_pow (by decide) (by decide), fun h => ?_⟩
  obtain ⟨s', hs'⟩ := h.clock ⟨.init, []⟩ .refl (fun _ => .OK) (fun _ => Or.inl rfl)
  rw [fatBflyClock_wrapped (by decide) (by decide)] at hs'
  cases hs'

end Gran.FatBfly
