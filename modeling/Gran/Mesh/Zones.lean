import Gran.Mesh.Starvation

/-!
# Rivals in a zone

Where packets are routed one dimension after the other, the packets that may pass one that goes
straight on come from a zone: the element inputs of some nodes, and the inputs and outputs there of
the dimensions before. `closed_zone` says when packets come into a zone from outside of the mesh
only, and `card_zone_le` how many packets it holds. `straight` is how long a packet that goes
straight on waits at most.
-/

namespace Gran.Mesh

open PacketNet

variable {N D : Type} [DecidableEq N] [DecidableEq D] {m : Mesh N D} {w : Wiring m}
  {ok : Place m → Packet → Prop} {addressed : Packet → Prop} {K : Finset N} {S : Finset D} {c : N}

/-- The element inputs of some nodes, and their inputs and outputs of some directions. -/
def InZone (K : Finset N) (S : Finset D) : Place m → Prop
  | .inl ⟨c, .elem _⟩ => c ∈ K
  | .inl ⟨c, .dir d⟩ => c ∈ K ∧ d ∈ S
  | .inr ⟨c, .dir d⟩ => c ∈ K ∧ d ∈ S
  | .inr ⟨_, .elem _⟩ => False

instance (K : Finset N) (S : Finset D) (p : Place m) : Decidable (InZone K S p) := by
  rcases p with ⟨c, i | d⟩ | ⟨c, i | d⟩ <;> unfold InZone <;> infer_instance

variable [Fintype N] [Fintype D]

/-- The registers of a zone. -/
def zone (m : Mesh N D) (K : Finset N) (S : Finset D) : Finset (Place m) :=
  Finset.univ.filter (InZone K S)

/-- The places of a zone. -/
theorem mem_zone {p : Place m} : p ∈ zone m K S ↔ InZone K S p := by
  simp [zone]

/-- A zone is closed if no packet turns from another dimension into those of the zone, and their
links do not lead in from outside. -/
theorem closed_zone (hspec : RoutingSpec w ok) (hopp : ∀ {d}, w.opp d ∈ S → d ∈ S)
    (hturn : ∀ {c d d' x}, d ∈ S → ok (inpAt c (.dir d')) x → m.wants c (.dir d) x = true → d' ∈ S)
    (hlink : ∀ {c d c'}, d ∈ S → w.link c d = some c' → c' ∈ K → c ∈ K) :
    Closed w ok (zone m K S) := by
  intro p q x hok hnext hq
  rw [mem_zone] at hq ⊢
  rcases p with ⟨c, p⟩ | ⟨c, i | d⟩
  · obtain ⟨e, hwants, -⟩ := hspec.route hok
    rw [next_inp hspec hwants] at hnext
    cases hnext
    cases e with
    | elem j => exact hq.elim
    | dir d =>
        obtain ⟨hc, hd⟩ := hq
        cases p with
        | elem i => exact hc
        | dir d' => exact ⟨hc, hturn hd hok hwants⟩
  · cases hnext
  · obtain ⟨c', hlink', -⟩ := hspec.depart hok
    simp only [next, hlink', Option.map_some, Option.some.injEq] at hnext
    subst hnext
    obtain ⟨hc, hd⟩ := hq
    exact ⟨hlink (hopp hd) hlink' hc, hopp hd⟩

/-- A zone has the element ports of its nodes and two registers for each direction. -/
theorem card_zone_le {E : Nat} (hE : ∀ c, m.elems c ≤ E) :
    (zone m K S).card ≤ K.card * (E + 2 * S.card) := by
  let slot : Place m → N × (Nat ⊕ (D ⊕ D)) := fun p => match p with
    | .inl ⟨c, .elem i⟩ => (c, .inl i)
    | .inl ⟨c, .dir d⟩ => (c, .inr (.inl d))
    | .inr ⟨c, .dir d⟩ => (c, .inr (.inr d))
    | .inr ⟨c, .elem i⟩ => (c, .inl i)
  have hcard : (K ×ˢ (Finset.range E).disjSum (S.disjSum S)).card = K.card * (E + 2 * S.card) := by
    rw [Finset.card_product, Finset.card_disjSum, Finset.card_disjSum, Finset.card_range, two_mul]
  rw [← hcard]
  refine Finset.card_le_card_of_injOn slot (fun p hp => ?_) (fun p hp q hq heq => ?_)
  · have hp := mem_zone.1 (Finset.mem_coe.1 hp)
    rcases p with ⟨c, i | d⟩ | ⟨c, i | d⟩
    · exact Finset.mem_coe.2 (Finset.mem_product.2
        ⟨hp, Finset.inl_mem_disjSum.2 (Finset.mem_range.2 (i.isLt.trans_le (hE c)))⟩)
    · exact Finset.mem_coe.2 (Finset.mem_product.2
        ⟨hp.1, Finset.inr_mem_disjSum.2 (Finset.inl_mem_disjSum.2 hp.2)⟩)
    · exact hp.elim
    · exact Finset.mem_coe.2 (Finset.mem_product.2
        ⟨hp.1, Finset.inr_mem_disjSum.2 (Finset.inr_mem_disjSum.2 hp.2)⟩)
  · have hp := mem_zone.1 (Finset.mem_coe.1 hp)
    have hq := mem_zone.1 (Finset.mem_coe.1 hq)
    rcases p with ⟨c, i | d⟩ | ⟨c, i | d⟩ <;> rcases q with ⟨c', j | d'⟩ | ⟨c', j | d'⟩
    all_goals first | exact hp.elim | exact hq.elim | skip
    all_goals simp only [slot, Prod.mk.injEq, Sum.inl.injEq, Sum.inr.injEq, reduceCtorEq, and_false]
      at heq
    all_goals obtain ⟨rfl, h⟩ := heq
    · rw [Fin.ext h]
    · rw [h]
    · rw [h]

/-! ## Going straight on -/

/-- The cycles that a packet waits at most in an input from which it may go straight on so many more
times, when there are `b` rivals at each input and `w` cycles suffice where it turns. -/
def straight (b w : Nat) : Nat → Nat
  | 0 => w
  | k + 1 => (b + 1) * (straight b w k + 1) + 1

/-- The wait is long enough for every rival to pass first. -/
theorem straight_lt (b w k : Nat) : (b + 1) * (straight b w k + 1) < straight b w (k + 1) :=
  Nat.lt_succ_self _

/-- The wait grows with the way that goes straight on. -/
theorem straight_mono {b w k k' : Nat} (h : k ≤ k') : straight b w k ≤ straight b w k' := by
  induction h with
  | refl => exact Nat.le_refl _
  | @step j _ ih =>
      have hle : straight b w j + 1 ≤ (b + 1) * (straight b w j + 1) :=
        Nat.le_mul_of_pos_left _ (Nat.succ_pos b)
      rw [straight]
      omega

/-- The wait is at least that of the turn. -/
theorem le_straight (b w k : Nat) : w ≤ straight b w k := straight_mono (Nat.zero_le k)

/-! ## Dimensions -/

/-- How packets are routed one dimension after the other. A dimension is numbered by those that come
after it. There are `rivals j` registers at most for the directions of the dimensions from `j` on at
the nodes which agree with one in the others, and the element inputs of these nodes. -/
structure Dimensions (w : Wiring m) (ok : Place m → Packet → Prop) where
  count : Nat
  dim : D → Nat
  size : Nat → Nat
  ahead : N → D → Nat
  agree : Nat → N → Finset N
  rivals : Nat → Nat
  dim_lt : ∀ d, dim d < count
  dim_opp : ∀ d, dim (w.opp d) = dim d
  opp_opp : ∀ d, w.opp (w.opp d) = d
  ahead_lt : ∀ c d, ahead c d < size (dim d)
  ahead_link : ∀ {c d c'}, w.link c d = some c' → ahead c d = ahead c' d + 1
  turns : ∀ {c d d' x}, ok (inpAt c (.dir d)) x → m.wants c (.dir d') x = true →
    d' = w.opp d ∨ dim d' < dim d
  mem_agree : ∀ j c, c ∈ agree j c
  agree_link : ∀ {j c c₁ d c₂}, j ≤ dim d → w.link c₁ d = some c₂ → c₂ ∈ agree j c → c₁ ∈ agree j c
  card_zone : ∀ j c, (zone m (agree j c) (Finset.univ.filter fun d => j ≤ dim d)).card ≤ rivals j

namespace Dimensions

variable (dims : Dimensions w ok)

/-- The registers before the ones of a dimension, seen from the end. -/
def offset (size : Nat → Nat) : Nat → Nat
  | 0 => 0
  | k + 1 => offset size k + 2 * size k

/-- Later dimensions start later. -/
theorem offset_mono {size : Nat → Nat} {j k : Nat} (h : j ≤ k) : offset size j ≤ offset size k := by
  induction h with
  | refl => exact Nat.le_refl _
  | step _ ih => exact ih.trans (Nat.le_add_right _ _)

/-- How far a register is from the end at most. -/
def height : Place m → Nat
  | .inl ⟨_, .elem _⟩ => offset dims.size dims.count + 1
  | .inl ⟨c, .dir d⟩ => offset dims.size (dims.dim d) + 2 * dims.ahead c (w.opp d) + 2
  | .inr ⟨c, .dir d⟩ => offset dims.size (dims.dim d) + 2 * dims.ahead c d + 1
  | .inr ⟨_, .elem _⟩ => 0

/-- The two places of a link are numbered inside of their dimension. -/
theorem height_dir_le {k a : Nat} (ha : a < dims.size k) (hk : k < dims.count) :
    offset dims.size k + 2 * a + 2 ≤ offset dims.size dims.count := by
  have hmono : offset dims.size _ ≤ _ := offset_mono (Nat.succ_le_of_lt hk)
  simp only [offset] at hmono
  omega

/-- No input from a neighbour is higher than the dimensions are. -/
theorem height_inp_le (c : N) (d : D) :
    dims.height (inpAt c (.dir d)) ≤ offset dims.size dims.count := by
  have hlt := dims.ahead_lt c (w.opp d)
  rw [dims.dim_opp] at hlt
  exact dims.height_dir_le hlt (dims.dim_lt d)

/-- No output is higher than the dimensions are. -/
theorem height_out_le (c : N) (e : Port D (m.elems c)) :
    dims.height (outAt c e) ≤ offset dims.size dims.count := by
  cases e with
  | elem i => exact Nat.zero_le _
  | dir d =>
      have hle := dims.height_dir_le (dims.ahead_lt c d) (dims.dim_lt d)
      simp only [height]
      omega

/-- No register is more than one higher than the dimensions are. -/
theorem height_le (p : Place m) : dims.height p ≤ offset dims.size dims.count + 1 := by
  rcases p with ⟨c, i | d⟩ | ⟨c, e⟩
  · exact Nat.le_refl _
  · exact (dims.height_inp_le c d).trans (Nat.le_succ _)
  · exact (dims.height_out_le c e).trans (Nat.le_succ _)

/-- Every move comes nearer to the end. -/
theorem height_lt (hspec : RoutingSpec w ok) {p q : Place m} {x : Packet} (hok : ok p x)
    (hnext : next w p x = some q) : dims.height q < dims.height p := by
  rcases p with ⟨c, p⟩ | ⟨c, i | d⟩
  · obtain ⟨e, hwants, -⟩ := hspec.route hok
    rw [next_inp hspec hwants] at hnext
    cases hnext
    rcases p with i | d
    · exact Nat.lt_succ_of_le (dims.height_out_le c e)
    · rcases e with j | d'
      · exact Nat.succ_pos _
      · rcases dims.turns hok hwants with rfl | hdim
        · simp only [height, dims.dim_opp]
          omega
        · have hmono : offset dims.size _ ≤ _ := offset_mono (Nat.succ_le_of_lt hdim)
          have hlt := dims.ahead_lt c d'
          simp only [offset] at hmono
          simp only [height]
          omega
  · cases hnext
  · obtain ⟨c', hlink, -⟩ := hspec.depart hok
    simp only [next, hlink, Option.map_some, Option.some.injEq] at hnext
    subst hnext
    have hahead := dims.ahead_link hlink
    simp only [height, dims.dim_opp, dims.opp_opp]
    omega

/-- Registers are ranked by how far they are from the end. -/
def ranking (hspec : RoutingSpec w ok) : Ranking w ok where
  rank p := offset dims.size dims.count + 1 - dims.height p
  lt p q x hok hnext := by
    have hlt := dims.height_lt hspec hok hnext
    have hle := dims.height_le p
    omega
  elem c i := Nat.sub_self _
  dir c d := Nat.sub_pos_of_lt (Nat.lt_succ_of_le (dims.height_inp_le c d))
  out c e := Nat.sub_pos_of_lt (Nat.lt_succ_of_le (dims.height_out_le c e))

/-! ## Patience -/

section Patience

variable (size rivals : Nat → Nat)

/-- The cycles that suffice at an input from which a packet turns into a later dimension or has
arrived. -/
def turn : Nat → Nat
  | 0 => rivals 0 + 2
  | k + 1 => (rivals k + 1) * (straight (rivals (k + 1)) (turn k) (size k - 2) + 1) + 1

/-- The cycles that a packet waits at most in an input of a dimension, by the nodes ahead. -/
def wait (k a : Nat) : Nat := straight (rivals (k + 1)) (turn size rivals k) a

/-- The cycles that a packet waits at most, by the height of its register. -/
def along : Nat → Nat → Nat
  | 0, _ => 1
  | k + 1, h =>
      if h ≤ offset size k then along k h
      else if (h - offset size k) % 2 = 1 then wait size rivals k ((h - offset size k) / 2 - 1) + 1
      else wait size rivals k ((h - offset size k) / 2 - 1)

/-- One cycle suffices when no dimension is left. -/
theorem along_zero (k : Nat) : along size rivals k 0 = 1 := by
  induction k with
  | zero => rfl
  | succ k ih => rw [along, if_pos (Nat.zero_le _), ih]

/-- The wait at a height does not depend on the dimensions above it. -/
theorem along_eq {k n h : Nat} (hk : k < n) (hle : h ≤ offset size (k + 1)) :
    along size rivals n h = along size rivals (k + 1) h := by
  induction n with
  | zero => cases hk
  | succ n ih =>
      rcases Nat.lt_succ_iff_lt_or_eq.1 hk with hkn | rfl
      · rw [← ih hkn, along, if_pos (hle.trans (offset_mono hkn))]
      · rfl

/-- The wait at an input from a neighbour. -/
theorem along_inp {k n a : Nat} (hk : k < n) (ha : a < size k) :
    along size rivals n (offset size k + 2 * a + 2) = wait size rivals k a := by
  rw [along_eq size rivals hk (by simp only [offset]; omega), along, if_neg (by omega),
    if_neg (by omega)]
  congr 1
  omega

/-- The wait at an output to a neighbour. -/
theorem along_out {k n a : Nat} (hk : k < n) (ha : a < size k) :
    along size rivals n (offset size k + 2 * a + 1) = wait size rivals k (a - 1) + 1 := by
  rw [along_eq size rivals hk (by simp only [offset]; omega), along, if_neg (by omega),
    if_pos (by omega)]
  congr 2
  omega

/-- A packet that goes straight on may wait as long as one that turns. -/
theorem turn_le_wait (k a : Nat) : turn size rivals k ≤ wait size rivals k a := le_straight _ _ _

/-- Turns wait longer the more dimensions follow. -/
theorem turn_mono {j k : Nat} (h : j ≤ k) : turn size rivals j ≤ turn size rivals k := by
  induction h with
  | refl => exact Nat.le_refl _
  | @step k _ ih =>
      have hwait := turn_le_wait size rivals k (size k - 2)
      have hle : wait size rivals k (size k - 2) + 1 ≤
          (rivals k + 1) * (wait size rivals k (size k - 2) + 1) :=
        Nat.le_mul_of_pos_left _ (Nat.succ_pos _)
      rw [turn]
      simp only [wait] at hle hwait
      omega

/-- A turn waits for all rivals at an element output. -/
theorem rivals_lt_turn (k : Nat) : rivals 0 + 1 < turn size rivals k :=
  (Nat.lt_succ_self _).trans_le (turn_mono size rivals (Nat.zero_le k))

/-- A packet that turns waits for all the packets that may pass it. -/
theorem turn_lt {j k a : Nat} (h : j < k) (ha : a < size j) :
    (rivals j + 1) * (wait size rivals j (a - 1) + 1) < turn size rivals k := by
  have hmono : wait size rivals j (a - 1) ≤ wait size rivals j (size j - 2) :=
    straight_mono (by omega)
  calc (rivals j + 1) * (wait size rivals j (a - 1) + 1)
      ≤ (rivals j + 1) * (wait size rivals j (size j - 2) + 1) :=
        Nat.mul_le_mul_left _ (Nat.succ_le_succ hmono)
    _ < turn size rivals (j + 1) := Nat.lt_succ_self _
    _ ≤ turn size rivals k := turn_mono size rivals h

/-- The cycles that a packet waits at most, by the rank of its register. -/
def patience (count E h : Nat) : Nat :=
  if h = 0 then E * turn size rivals count + 1
  else along size rivals count (offset size count + 1 - h)

/-- Every place has some patience. -/
theorem patience_pos (count E h : Nat) : 0 < patience size rivals count E h := by
  have halong : ∀ k h, 0 < along size rivals k h := by
    intro k
    induction k with
    | zero => exact fun _ => Nat.one_pos
    | succ k ih =>
        intro h
        have hwait : ∀ a, 0 < wait size rivals k a := fun a =>
          (Nat.succ_pos _).trans ((rivals_lt_turn size rivals k).trans_le
            (turn_le_wait size rivals k a))
        rw [along]
        split
        · exact ih h
        · split
          · exact Nat.succ_pos _
          · exact hwait _
  rw [patience]
  split
  · exact Nat.succ_pos _
  · exact halong _ _

end Patience

/-! ## The rivals of a packet -/

/-- From which dimension on the directions of the packets are that may pass one at an input for an
output. -/
def zoneFor (c : N) : Port D (m.elems c) → Port D (m.elems c) → Nat
  | _, .elem _ => 0
  | .elem _, .dir d => dims.dim d
  | .dir d, .dir d' => if d' = w.opp d then dims.dim d + 1 else dims.dim d'

/-- The registers of the packets that may pass one at an input for an output. -/
def rivalsAt (c : N) (q e : Port D (m.elems c)) : Finset (Place m) :=
  (zone m (dims.agree (dims.zoneFor c q e) c)
    (Finset.univ.filter fun d => dims.zoneFor c q e ≤ dims.dim d)).filter
      fun p => dims.height (outAt c e) < dims.height p

/-- No packet comes to the rivals of an input from elsewhere. -/
theorem rivalsAt_closed (hspec : RoutingSpec w ok) (c : N) (q e : Port D (m.elems c)) :
    Closed w ok (dims.rivalsAt c q e) := by
  intro p p' x hok hnext hp'
  obtain ⟨hzone, hheight⟩ := Finset.mem_filter.1 hp'
  refine Finset.mem_filter.2 ⟨?_, hheight.trans (dims.height_lt hspec hok hnext)⟩
  refine closed_zone hspec (fun {d} hd => ?_) (fun {c d d' x} hd hok hwants => ?_)
    (fun {c₁ d c₂} hd hlink hc₂ => ?_) p p' x hok hnext hzone
  · rw [Finset.mem_filter, dims.dim_opp] at hd
    exact Finset.mem_filter.2 ⟨Finset.mem_univ d, hd.2⟩
  · refine Finset.mem_filter.2 ⟨Finset.mem_univ d', (Finset.mem_filter.1 hd).2.trans ?_⟩
    rcases dims.turns hok hwants with rfl | hlt
    · exact (dims.dim_opp d').le
    · exact hlt.le
  · exact dims.agree_link (Finset.mem_filter.1 hd).2 hlink hc₂

/-- An input that wants the same output is a rival. -/
theorem rivalsAt_inp (hspec : RoutingSpec w ok) {c : N} {q q' e : Port D (m.elems c)} {y : Packet}
    (hq : q' ≠ q) (hok : ok (inpAt c q') y) (hwants : m.wants c e y = true) :
    inpAt c q' ∈ dims.rivalsAt c q e := by
  refine Finset.mem_filter.2 ⟨mem_zone.2 ?_, dims.height_lt hspec hok (next_inp hspec hwants)⟩
  cases q' with
  | elem i => exact dims.mem_agree _ c
  | dir d₁ =>
      refine ⟨dims.mem_agree _ c, Finset.mem_filter.2 ⟨Finset.mem_univ d₁, ?_⟩⟩
      cases e with
      | elem i => exact Nat.zero_le _
      | dir d' =>
          have hle : dims.dim d' ≤ dims.dim d₁ := by
            rcases dims.turns hok hwants with rfl | hlt
            · exact (dims.dim_opp d₁).le
            · exact hlt.le
          cases q with
          | elem i => exact hle
          | dir d =>
              simp only [zoneFor]
              split
              case isTrue hopp =>
                rcases dims.turns hok hwants with hopp' | hlt
                · -- the packet came in at the same input
                  have hsame : d₁ = d := by
                    rw [← dims.opp_opp d₁, ← hopp', hopp, dims.opp_opp]
                  exact absurd (hsame ▸ rfl) hq
                · rw [hopp, dims.dim_opp] at hlt
                  exact hlt
              case isFalse => exact hle

/-- An input has no more rivals than its zone allows. -/
theorem rivalsAt_card (c : N) (q e : Port D (m.elems c)) :
    (dims.rivalsAt c q e).card ≤ dims.rivals (dims.zoneFor c q e) :=
  (Finset.card_filter_le _ _).trans (dims.card_zone _ c)

/-- The patience at an input from a neighbour. -/
theorem patience_inp (hspec : RoutingSpec w ok) (E : Nat) (c : N) (d : D) :
    patience dims.size dims.rivals dims.count E ((dims.ranking hspec).rank (inpAt c (.dir d))) =
      wait dims.size dims.rivals (dims.dim d) (dims.ahead c (w.opp d)) := by
  have hpos := (dims.ranking hspec).dir c d
  have hlt := dims.ahead_lt c (w.opp d)
  rw [dims.dim_opp] at hlt
  have hle := dims.height_inp_le c d
  rw [patience, if_neg hpos.ne', ← along_inp dims.size dims.rivals (dims.dim_lt d) hlt]
  congr 1
  simp only [ranking, height] at hle ⊢
  omega

/-- The patience at an output to a neighbour. -/
theorem patience_out (hspec : RoutingSpec w ok) (E : Nat) (c : N) (d : D) :
    patience dims.size dims.rivals dims.count E ((dims.ranking hspec).rank (outAt c (.dir d))) =
      wait dims.size dims.rivals (dims.dim d) (dims.ahead c d - 1) + 1 := by
  have hpos := (dims.ranking hspec).out c (.dir d)
  have hle := dims.height_out_le c (.dir d)
  rw [patience, if_neg hpos.ne', ← along_out dims.size dims.rivals (dims.dim_lt d)
    (dims.ahead_lt c d)]
  congr 1
  simp only [ranking, height] at hle ⊢
  omega

/-- The patience at an element output. -/
theorem patience_elem (hspec : RoutingSpec w ok) (E : Nat) (c : N) (i : Fin (m.elems c)) :
    patience dims.size dims.rivals dims.count E ((dims.ranking hspec).rank (outAt c (.elem i))) =
      1 := by
  have hpos := (dims.ranking hspec).out c (.elem i)
  have hsub : offset dims.size dims.count + 1 -
      (dims.ranking hspec).rank (outAt c (.elem i)) = 0 := by
    simp [ranking, height]
  rw [patience, if_neg hpos.ne', hsub, along_zero]

/-- A packet that turns or has arrived waits long enough for those that may pass it. -/
theorem turn_enough (hspec : RoutingSpec w ok) (E : Nat) {k : Nat} {c : N}
    {q e : Port D (m.elems c)} (hk : ∀ d, e = .dir d → dims.zoneFor c q e = dims.dim d ∧
      dims.dim d < k) (hzero : ∀ i, e = .elem i → dims.zoneFor c q e = 0) :
    ((dims.rivalsAt c q e).card + 1) *
      patience dims.size dims.rivals dims.count E ((dims.ranking hspec).rank (outAt c e)) <
        turn dims.size dims.rivals k := by
  have hcard := dims.rivalsAt_card c q e
  cases e with
  | elem i =>
      rw [hzero i rfl] at hcard
      rw [patience_elem, Nat.mul_one]
      exact (Nat.succ_le_succ hcard).trans_lt (rivals_lt_turn dims.size dims.rivals k)
  | dir d =>
      obtain ⟨hzone, hlt⟩ := hk d rfl
      rw [hzone] at hcard
      rw [patience_out]
      exact (Nat.mul_le_mul_right _ (Nat.succ_le_succ hcard)).trans_lt
        (turn_lt dims.size dims.rivals hlt (dims.ahead_lt c d))

/-- A packet that goes straight on waits long enough for those that may pass it. -/
theorem straight_enough (hspec : RoutingSpec w ok) (E : Nat) {c : N} {d : D} {x : Packet}
    (hok : ok (inpAt c (.dir d)) x) (hwants : m.wants c (.dir (w.opp d)) x = true) :
    ((dims.rivalsAt c (.dir d) (.dir (w.opp d))).card + 1) * patience dims.size dims.rivals
      dims.count E ((dims.ranking hspec).rank (outAt c (.dir (w.opp d)))) <
        wait dims.size dims.rivals (dims.dim d) (dims.ahead c (w.opp d)) := by
  have hcard := dims.rivalsAt_card c (.dir d) (.dir (w.opp d))
  obtain ⟨e, hwants', hok', -⟩ := hspec.route hok
  obtain rfl := hspec.unique hwants hwants'
  obtain ⟨c', hlink, -⟩ := hspec.depart hok'
  rw [zoneFor, if_pos rfl] at hcard
  rw [patience_out, dims.dim_opp, dims.ahead_link hlink, Nat.add_sub_cancel]
  exact (Nat.mul_le_mul_right _ (Nat.succ_le_succ hcard)).trans_lt (straight_lt _ _ _)

/-- What keeps packets moving that are routed one dimension after the other. -/
def lively (ha : Admits w ok addressed) (hinputs : ∀ d d', d' ≠ d → d' ∈ m.inputs d)
    (hdirs : m.dirs.Nodup) {E : Nat} (hE : ∀ c, m.elems c ≤ E) : Lively w ok addressed where
  admits := ha
  inputs := hinputs
  dirs := hdirs
  ranking := dims.ranking ha.spec
  top := offset dims.size dims.count + 1
  rank_le p := Nat.sub_le _ _
  rivals := dims.rivalsAt
  closed := dims.rivalsAt_closed ha.spec
  rivals_out c q e h := lt_irrefl _ (Finset.mem_filter.1 h).2
  rivals_inp hq _ _ hok hwants := dims.rivalsAt_inp ha.spec hq hok hwants
  patience := patience dims.size dims.rivals dims.count E
  step := turn dims.size dims.rivals dims.count
  patience_pos := patience_pos dims.size dims.rivals dims.count E
  patience_out {c d c' x} hok hlink := by
    have hahead := dims.ahead_link hlink
    rw [patience_inp, patience_out, dims.dim_opp, dims.opp_opp, hahead, Nat.add_sub_cancel]
    exact Nat.lt_succ_self _
  patience_inp {c d e x} hok hwants := by
    rw [patience_inp]
    have hturn := turn_le_wait dims.size dims.rivals (dims.dim d) (dims.ahead c (w.opp d))
    by_cases hstraight : e = .dir (w.opp d)
    · subst hstraight
      exact dims.straight_enough ha.spec E hok hwants
    · refine (dims.turn_enough ha.spec E (fun d' hd' => ?_) fun i hi => ?_).trans_le hturn
      · subst hd'
        have hne : d' ≠ w.opp d := fun h => hstraight (h ▸ rfl)
        exact ⟨if_neg hne, (dims.turns hok hwants).resolve_left hne⟩
      · subst hi
        rfl
  step_le {c i e x} hok hwants := by
    refine (dims.turn_enough ha.spec E (fun d hd => ?_) fun j hj => ?_).le
    · subst hd
      exact ⟨rfl, dims.dim_lt d⟩
    · subst hj
      rfl
  patience_elem c := by
    rw [patience, if_pos rfl]
    exact Nat.lt_succ_of_le (Nat.mul_le_mul_right _ (hE c))

end Dimensions

end Gran.Mesh
