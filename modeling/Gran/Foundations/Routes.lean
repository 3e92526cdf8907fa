import Gran.Foundations.Flow

/-!
# Ways given by a routing function

The packets of a flow enter at one place and go on from each place to the one that a routing
function names, and leave where it names none. The places that a flow passes are numbered by the
hops that are left (`Routes.ways`), so what holds of flows with fixed ways holds of flows that are
routed: a packet that enters, goes on or leaves as the routing function says keeps the order of the
flows.
-/

namespace Flow

variable {P X K : Type*}

/-- The places that a flow passes. -/
inductive Trail (entry : K → P) (next : K → P → Option P) (k : K) : Nat → P → Prop where
  | entry : Trail entry next k 0 (entry k)
  | next {n : Nat} {p q : P} (h : Trail entry next k n p) (hnext : next k p = some q) :
      Trail entry next k (n + 1) q

/-- When nothing is on the way, all packets that entered have left. -/
theorem InOrder.eq_of_empty [DecidableEq K] {w : Ways P K} {flow : X → K} {held : P → Option X}
    {entered left : List X} (h : InOrder w flow held entered left) (hempty : ∀ p, held p = none)
    (k : K) : ofFlow flow k entered = ofFlow flow k left := by
  obtain ⟨inside, hinside, heq⟩ := h.order k
  have hnil : inside = [] := List.eq_nil_iff_forall_not_mem.2 fun a ha => by
    obtain ⟨hheld, -⟩ := (hinside.mem a.1 a.2).1 ha
    rw [hempty] at hheld
    cases hheld
  rw [heq, hnil, List.map_nil, List.append_nil]

/-- Where the packets of each flow enter and where they go from each place, with the hops that are
left. What is asked of the hops is only asked of the flows that are in use. -/
structure Routes (P K : Type*) where
  entry : K → P
  next : K → P → Option P
  used : K → Prop
  hops : K → P → Nat
  hops_next : ∀ {k n p q}, used k → Trail entry next k n p → next k p = some q →
    hops k p = hops k q + 1

variable {entry : K → P} {next : K → P → Option P}

/-- A trail is at one place after each number of hops. -/
theorem Trail.unique {k : K} {n : Nat} {p q : P} (hp : Trail entry next k n p)
    (hq : Trail entry next k n q) : p = q := by
  induction hp generalizing q with
  | entry =>
      cases hq
      rfl
  | next _ hnext ih =>
      cases hq with
      | next hq hnext' =>
          obtain rfl := ih hq
          exact Option.some.inj (hnext.symm.trans hnext')

/-- A trail does not go on from where the packets leave. -/
theorem Trail.le_of_none {k : K} {m n : Nat} {p q : P} (hp : Trail entry next k n p)
    (hnone : next k p = none) (hq : Trail entry next k m q) : m ≤ n := by
  induction hq with
  | entry => exact Nat.zero_le n
  | @next m q r hq hnext ih =>
      refine Nat.lt_of_le_of_ne ih fun heq => ?_
      subst heq
      rw [hp.unique hq, hnext] at hnone
      cases hnone

namespace Routes

variable (routes : Routes P K)

/-- Each hop is one of those left at the entry. -/
theorem hops_trail {k : K} (hk : routes.used k) {n : Nat} {p : P}
    (hp : Trail routes.entry routes.next k n p) :
    routes.hops k (routes.entry k) = routes.hops k p + n := by
  induction hp with
  | entry => rfl
  | next hp hnext ih =>
      rw [ih, routes.hops_next hk hp hnext]
      omega

/-- The ways of the flows that are in use. -/
def ways : Ways P K where
  on k p := routes.used k ∧ ∃ n, Trail routes.entry routes.next k n p
  dist := routes.hops
  inj {k p q} := by
    rintro ⟨hk, n, hp⟩ ⟨-, n', hq⟩ hdist
    have hn := routes.hops_trail hk hp
    have hn' := routes.hops_trail hk hq
    obtain rfl : n = n' := by omega
    exact hp.unique hq

variable {routes} [DecidableEq P] [DecidableEq K] {flow : X → K} {held : P → Option X}
  {entered left : List X} {p q : P} {x : X}

/-- A packet enters where its flow does. -/
theorem enter (h : InOrder routes.ways flow held entered left) (hused : routes.used (flow x))
    (hp : p = routes.entry (flow x)) (hfree : held p = none) :
    InOrder routes.ways flow (Function.update held p (some x)) (entered ++ [x]) left := by
  subst hp
  refine h.enter hfree ⟨hused, 0, .entry⟩ fun q hq => ?_
  obtain ⟨-, n, hq⟩ := hq
  have hhops := routes.hops_trail hused hq
  show routes.hops (flow x) q ≤ routes.hops (flow x) (routes.entry (flow x))
  omega

/-- A packet goes on. -/
theorem goOn (h : InOrder routes.ways flow held entered left) (hp : held p = some x)
    (hnext : routes.next (flow x) p = some q) (hfree : held q = none) :
    InOrder routes.ways flow (Function.update (Function.update held p none) q (some x)) entered
      left := by
  obtain ⟨hused, n, htrail⟩ := h.on p x hp
  exact h.hop hp hfree ⟨hused, n + 1, htrail.next hnext⟩
    (routes.hops_next hused htrail hnext).symm

/-- A packet leaves. -/
theorem leave (h : InOrder routes.ways flow held entered left) (hp : held p = some x)
    (hnone : routes.next (flow x) p = none) :
    InOrder routes.ways flow (Function.update held p none) entered (left ++ [x]) := by
  obtain ⟨hused, n, htrail⟩ := h.on p x hp
  refine h.leave hp fun q hq => ?_
  obtain ⟨-, n', htrail'⟩ := hq
  have hle := htrail.le_of_none hnone htrail'
  have hhops := routes.hops_trail hused htrail
  have hhops' := routes.hops_trail hused htrail'
  show routes.hops (flow x) p ≤ routes.hops (flow x) q
  omega

end Routes

end Flow
