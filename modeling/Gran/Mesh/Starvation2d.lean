import Gran.Mesh.Mesh2d
import Gran.Mesh.Zones

/-!
# Freedom from starvation in a two-dimensional mesh

`mesh2d_starvation_free` says of grids of `node2d` nodes what `Gran.Mesh.Starvation3d` says of grids
of `node3d` nodes: as long as no clock count wraps, every packet accepted is delivered by a deadline
that depends on the size of the grid only. The grid of `tests/simple_mesh2d/sim.c` meets it before a
clock count wraps.
-/

namespace Gran.Mesh2d

open Mesh PacketNet

variable {g : Mesh2d}

/-- The dimensions that come after the one of a direction. -/
def dim : Dir2 → Nat
  | .north | .south => 1
  | .east | .west => 0

/-- The number of nodes along a dimension. -/
def size (X Y : Nat) : Nat → Nat
  | 0 => X
  | _ => Y

/-- The number of nodes ahead in a direction. -/
def ahead (c : g.Node) : Dir2 → Nat
  | .north => g.Y - 1 - c.y
  | .south => c.y
  | .east => g.X - 1 - c.x
  | .west => c.x

/-- The nodes that differ from one in the dimensions from `j` on only. -/
def agree (j : Nat) (c : g.Node) : Finset g.Node :=
  Finset.univ.filter fun c' => (0 < j → c'.x = c.x) ∧ (1 < j → c'.y = c.y)

/-- The registers of the directions from a dimension on at these nodes, and their element inputs. -/
def rivals (X Y E : Nat) : Nat → Nat
  | 0 => X * Y * (E + 8)
  | 1 => Y * (E + 4)
  | _ => E

theorem card_agree (j : Nat) (c : g.Node) : (agree j c).card ≤ match j with
    | 0 => g.X * g.Y
    | 1 => g.Y
    | _ => 1 := by
  have hext : ∀ a b : g.Node, a.x = b.x → a.y = b.y → a = b := by
    rintro ⟨x, y⟩ ⟨x', y'⟩ rfl rfl
    rfl
  have hmem : ∀ {j a}, a ∈ agree j c → (0 < j → a.x = c.x) ∧ (1 < j → a.y = c.y) :=
    fun h => (Finset.mem_filter.1 h).2
  rcases j with - | - | j
  · refine (Finset.card_le_card_of_injOn (t := Finset.univ)
      (fun a : g.Node => (a.x, a.y)) (fun _ _ => Finset.mem_coe.2 (Finset.mem_univ _))
      (fun a _ b _ h => ?_)).trans_eq ?_
    · simp only [Prod.mk.injEq] at h
      exact hext a b h.1 h.2
    · simp
  · refine (Finset.card_le_card_of_injOn (t := Finset.univ)
      (fun a : g.Node => a.y) (fun _ _ => Finset.mem_coe.2 (Finset.mem_univ _))
      (fun a ha b hb h => ?_)).trans_eq ?_
    · exact hext a b (((hmem ha).1 (by decide)).trans ((hmem hb).1 (by decide)).symm) h
    · simp
  · refine Finset.card_le_one.2 fun a ha b hb => ?_
    have ha := hmem (Finset.mem_coe.1 ha)
    have hb := hmem (Finset.mem_coe.1 hb)
    exact hext a b ((ha.1 (by omega)).trans (hb.1 (by omega)).symm)
      ((ha.2 (by omega)).trans (hb.2 (by omega)).symm)

theorem card_zone {E : Nat} (hE : ∀ c, (g.elems c).toNat ≤ E) (j : Nat) (c : g.Node) :
    (zone g.mesh (agree j c) (Finset.univ.filter fun d => j ≤ dim d)).card ≤
      rivals g.X g.Y E j := by
  have hzone := card_zone_le (m := g.mesh) (K := agree j c)
    (S := Finset.univ.filter fun d => j ≤ dim d) hE
  have hagree := card_agree j c
  rcases j with - | - | j
  · have hdirs : (Finset.univ.filter fun d => 0 ≤ dim d).card = 4 := by decide
    rw [hdirs] at hzone
    exact hzone.trans (Nat.mul_le_mul_right _ hagree)
  · have hdirs : (Finset.univ.filter fun d => 1 ≤ dim d).card = 2 := by decide
    rw [hdirs] at hzone
    exact hzone.trans (Nat.mul_le_mul_right _ hagree)
  · have hdirs : (Finset.univ.filter fun d => j + 2 ≤ dim d) = ∅ := by
      refine Finset.filter_eq_empty_iff.2 fun d _ => ?_
      cases d <;> simp [dim]
    rw [hdirs] at hzone
    exact hzone.trans ((Nat.mul_le_mul_right _ hagree).trans_eq (by simp [rivals]))

/-- The dimensions of a grid whose nodes have a number of elements at most. -/
def dimensions {E : Nat} (hE : ∀ c, (g.elems c).toNat ≤ E) :
    Dimensions g.wiring (Placed (g := g)) where
  count := 2
  dim := dim
  size := size g.X g.Y
  ahead := ahead
  agree := agree
  rivals := rivals g.X g.Y E
  dim_lt d := by cases d <;> decide
  dim_opp d := by cases d <;> rfl
  opp_opp d := by cases d <;> rfl
  ahead_lt c d := by
    have := c.x.isLt
    have := c.y.isLt
    cases d <;> simp only [ahead, size, dim] <;> omega
  ahead_link {c d c'} hlink := by
    have hc := g.link_coords hlink
    have := c'.x.isLt
    have := c'.y.isLt
    cases d <;> simp only at hc <;> simp only [ahead] <;> omega
  turns {c d d' x} hok hwants := by
    have hp := hok.2
    have hq := wants_iff.1 hwants
    cases d <;> cases d' <;> simp only [inpPlaced, outPlaced] at hp hq <;>
      first
        | exact .inl rfl
        | exact .inr (by decide)
        | omega
  mem_agree j c := Finset.mem_filter.2 ⟨Finset.mem_univ c, fun _ => rfl, fun _ => rfl⟩
  agree_link {j c c₁ d c₂} hj hlink hc₂ := by
    have hc := g.link_coords hlink
    obtain ⟨-, hx, hy⟩ := Finset.mem_filter.1 hc₂
    refine Finset.mem_filter.2 ⟨Finset.mem_univ c₁, fun h => ?_, fun h => ?_⟩
    · rw [← hx h]
      cases d <;> simp only [dim] at hc hj <;> exact Fin.ext (by omega)
    · rw [← hy h]
      cases d <;> simp only [dim] at hc hj <;> exact Fin.ext (by omega)
  card_zone := card_zone hE

/-- How many cycles it takes at most until a packet accepted has been delivered. -/
def deadline (X Y E : Nat) : Nat :=
  1 + ∑ h ∈ Finset.range (2 * X + 2 * Y + 2),
    Dimensions.patience (size X Y) (rivals X Y E) 2 E h

/-- Freedom from starvation on a grid of `node2d` nodes whose nodes have at most `E` elements. In
every cycle each node is clocked once, in any order, with any injections in between. Whatever the
elements answer in the first cycles, a packet accepted in them has been delivered by the deadline,
whatever is injected until then, when the elements accept and no clock count wraps. -/
theorem mesh2d_starvation_free {E : Nat} (hE : ∀ c, (g.elems c).toNat ≤ E)
    {before after : List (Drive g.Node)} {n k : Nat}
    (hbefore : Cycles (Proper g.mesh g.Addressed) n before)
    (hafter : Cycles (Accepting g.mesh g.Addressed) k after)
    (hk : deadline g.X g.Y E ≤ k) (hword : n + k < 2 ^ 64) {r : Run g.mesh}
    (hr : Run.ofDrives g.mesh before = some r) :
    ∃ r', after.foldlM Run.drive r = some r' ∧ r.stamped ≤
      ((r'.state.delivered.map Delivery.pkt : List Packet) : Multiset Packet) := by
  have hdirs : g.mesh.dirs.Nodup := by
    show [Dir2.north, .east, .south, .west].Nodup
    decide
  refine Lively.starvation_free (l := (dimensions hE).lively admits
    (fun _ _ h => g.mem_inputs h) hdirs hE) hbefore hafter ?_ hword hr
  have htop : Dimensions.offset (size g.X g.Y) 2 + 1 + 1 = 2 * g.X + 2 * g.Y + 2 := by
    simp only [Dimensions.offset, size]
    omega
  refine Eq.trans_le ?_ hk
  rw [deadline, ← htop]
  rfl

theorem eight_le_side : 8 ≤ 256 := by
  decide

/-- The grid of `tests/simple_mesh2d/sim.c`. -/
def square : Mesh2d where
  X := 8
  Y := 8
  hX := eight_le_side
  hY := eight_le_side
  elems _ := 1
  connected _ _ := true

def squareNode (x y : Fin 8) : square.Node := ⟨x, y⟩

/-- A clock of every node, in the order in which they were added to the clock domain. -/
def squareClocks : List (Drive square.Node) :=
  (List.finRange 8).flatMap fun x => (List.finRange 8).map fun y =>
    .clock (squareNode x y) fun _ => .OK

theorem squareClocks_cycle : Cycle (Accepting square.mesh square.Addressed) squareClocks where
  all d hd := by
    obtain ⟨x, -, hd⟩ := List.mem_flatMap.1 hd
    obtain ⟨y, -, rfl⟩ := List.mem_map.1 hd
    exact fun _ => rfl
  once := by decide +kernel

/-- A packet for the element in the last corner. -/
def farLetter : Packet := { Packet.zero with dst := mesh2dAddr 7 7 0 0 }

/-- The first element sends the packet, and every node is clocked. -/
def farDrives : List (Drive square.Node) := .inject (squareNode 0 0) 0 farLetter :: squareClocks

theorem farDrives_cycle : Cycle (Accepting square.mesh square.Addressed) farDrives where
  all := List.forall_mem_cons.2
    ⟨⟨⟨by decide, rfl⟩, squareNode 7 7, ⟨0, by decide⟩, rfl, rfl⟩, squareClocks_cycle.all⟩
  once c := (List.countP_cons_of_neg Bool.false_ne_true).trans (squareClocks_cycle.once c)

theorem deadline_square : deadline 8 8 1 = 4772426220854972073 := by
  decide +kernel

/-- `mesh2d_starvation_free` on the grid of the test: a packet that the first element sends in the
first cycle is delivered by the deadline, before a clock count wraps. -/
theorem mesh2d_starvation_free_square : 1 + deadline 8 8 1 < 2 ^ 64 ∧
    ∃ (before after : List (Drive square.Node)) (r r' : Run square.mesh),
      Cycles (Accepting square.mesh square.Addressed) (deadline 8 8 1) after ∧
        Run.ofDrives square.mesh before = some r ∧ after.foldlM Run.drive r = some r' ∧
        farLetter ∈ r.stamped ∧ farLetter ∈ r'.state.delivered.map Delivery.pkt := by
  have hword : 1 + deadline 8 8 1 < 2 ^ 64 := by
    rw [deadline_square]
    decide
  refine ⟨hword, ?_⟩
  have hafter := squareClocks_cycle.replicate (deadline 8 8 1)
  obtain ⟨r, hr, -⟩ : ∃ r, Run.ofDrives square.mesh farDrives = some r ∧
      r.Reachable square.Addressed := window_some admits .refl farDrives_cycle.all
  have hstamped : farLetter ∈ r.stamped := by
    rw [Run.ofDrives, farDrives, List.foldlM_cons] at hr
    obtain ⟨r₁, hfirst, hrest⟩ := Option.bind_eq_some_iff.1 hr
    have hinjected : ((Run.init square.mesh).drive (.inject (squareNode 0 0) 0 farLetter)).map
        (fun r => r.injected.map Injection.stamped) = some [farLetter] := rfl
    rw [hfirst, Option.map_some, Option.some.injEq] at hinjected
    refine Multiset.mem_of_le (stamped_le hrest) ?_
    rw [Run.stamped, Multiset.map_coe, hinjected]
    exact Multiset.mem_singleton_self farLetter
  have hbefore : Cycles (Proper square.mesh square.Addressed) 1 _ :=
    .succ ⟨fun d hd => (farDrives_cycle.all d hd).proper, farDrives_cycle.once⟩ .zero
  rw [List.append_nil] at hbefore
  obtain ⟨r', hrun, hdelivered⟩ := mesh2d_starvation_free (fun _ => Nat.le_refl 1) hbefore hafter
    (Nat.le_refl _) hword hr
  exact ⟨_, _, r, r', hafter, hr, hrun, hstamped, Multiset.mem_of_le hdelivered hstamped⟩

end Gran.Mesh2d
