import Gran.Clock.ClockDomain
import Gran.Foundations.Earliest
import Mathlib.Algebra.Order.Floor.Div
import Mathlib.Algebra.Order.Ring.Nat

/-!
# The loop that ticks the clock domains

`root.c`: `root_run` ticks a clock domain that shows the least time until a component of it returns
something else than `OK`. `rootRun_in_time_order` says that, as long as no seconds counter wraps,
this is exact global time, by a simulation in `Earliest.Run`.
-/

namespace Gran

variable {C W : Type} {n : Nat}

/-- `most_delayed_domain`, the index of the domain it returns. -/
def mostDelayedDomain (domains : Fin (n + 1) → ClockDomain C) : Fin (n + 1) :=
  (List.finRange n).foldl
    (fun min i => if ltTime (domains i.succ).time (domains min).time then i.succ else min) 0

/-- The variables of the loop in `root_run`. -/
structure RootLoop (n : Nat) (C W : Type) where
  domains : Fin (n + 1) → ClockDomain C
  world : W
  ret : Stat

/-- The body of the loop in `root_run`. -/
def RootLoop.tick (clock : C → W → Stat × W) (l : RootLoop n C W) : RootLoop n C W :=
  let min := mostDelayedDomain l.domains
  let (ret, clk, w) := clockDomainTick clock (l.domains min) l.world
  ⟨Function.update l.domains min clk, w, ret⟩

/-- One tick of a run: the domain, and the time it showed before and after. -/
structure TickRecord (n : Nat) where
  domain : Fin (n + 1)
  before : ClockTime
  after : ClockTime

/-- What the next tick will record. -/
def RootLoop.record (clock : C → W → Stat × W) (l : RootLoop n C W) : TickRecord n :=
  let min := mostDelayedDomain l.domains
  ⟨min, (l.domains min).time, ((l.tick clock).domains min).time⟩

/-- `root_run` up to the end of some iteration of its loop, with what it ticked, oldest first. -/
inductive RootRun (clock : C → W → Stat × W) (domains : Fin (n + 1) → ClockDomain C) (w : W) :
    List (TickRecord n) → RootLoop n C W → Prop where
  | start : RootRun clock domains w [] ⟨domains, w, .OK⟩
  | tick {log : List (TickRecord n)} {l : RootLoop n C W} (h : RootRun clock domains w log l)
      (hret : l.ret = .OK) : RootRun clock domains w (log ++ [l.record clock]) (l.tick clock)

/-- Domains of the given periods with the given components, as the configuration creates them. -/
def createdDomains (period : Fin (n + 1) → Word) (components : Fin (n + 1) → List C) :
    Fin (n + 1) → ClockDomain C :=
  fun i => (components i).foldl clockDomainAdd (createClockDomain (period i))

/-- How often a run ticked a domain. -/
def domainTicks (log : List (TickRecord n)) (i : Fin (n + 1)) : Nat :=
  (log.map TickRecord.domain).count i

/-! ## The least time -/

/-- Among domains with proper times the loop finds one whose time is the least. -/
theorem mostDelayedDomain_le {domains : Fin (n + 1) → ClockDomain C}
    (hproper : ∀ i, (domains i).time.Proper) (j : Fin (n + 1)) :
    (domains (mostDelayedDomain domains)).time.femtoseconds ≤ (domains j).time.femtoseconds := by
  -- the choice is no later than the one the scan began with and every domain it saw
  have hscan : ∀ (l : List (Fin n)) (min : Fin (n + 1)),
      let found := l.foldl
        (fun min i => if ltTime (domains i.succ).time (domains min).time then i.succ else min) min
      (domains found).time.femtoseconds ≤ (domains min).time.femtoseconds ∧
        ∀ i ∈ l, (domains found).time.femtoseconds ≤ (domains i.succ).time.femtoseconds := by
    intro l
    induction l with
    | nil => exact fun min => ⟨Nat.le_refl _, by simp⟩
    | cons i l ih =>
        intro min
        have hlt := ltTime_iff (hproper i.succ) (hproper min)
        rw [List.foldl_cons]
        split
        case isTrue hless =>
            obtain ⟨hmin, hrest⟩ := ih i.succ
            exact ⟨hmin.trans (hlt.1 hless).le, List.forall_mem_cons.2 ⟨hmin, hrest⟩⟩
        case isFalse hless =>
            obtain ⟨hmin, hrest⟩ := ih min
            have hle := Nat.le_of_not_lt fun h => hless (hlt.2 h)
            exact ⟨hmin, List.forall_mem_cons.2 ⟨hmin.trans hle, hrest⟩⟩
  obtain ⟨hzero, hrest⟩ := hscan (List.finRange n) 0
  cases j using Fin.cases with
  | zero => exact hzero
  | succ i => exact hrest i (List.mem_finRange i)

/-! ## The loop in exact time -/

/-- What the simulation keeps of the loop. -/
structure RootLoop.Exact (period : Fin (n + 1) → Word) (l : RootLoop n C W) : Prop where
  proper : ∀ i, (l.domains i).time.Proper
  periods : ∀ i, (l.domains i).period = period i

/-- The exact times that the domains show. -/
def RootLoop.shown (l : RootLoop n C W) : Fin (n + 1) → Nat :=
  fun i => (l.domains i).time.femtoseconds

/-- Adding components changes neither the time nor the period of a domain. -/
theorem foldl_clockDomainAdd (l : List C) (clk : ClockDomain C) :
    (l.foldl clockDomainAdd clk).time = clk.time ∧
      (l.foldl clockDomainAdd clk).period = clk.period := by
  induction l generalizing clk with
  | nil => exact ⟨rfl, rfl⟩
  | cons c l ih => exact ih (clockDomainAdd clk c)

/-- A tick whose seconds do not wrap advances the domain it ticks by exactly its period, and no
other one. -/
theorem RootLoop.Exact.tick {clock : C → W → Stat × W} {period : Fin (n + 1) → Word}
    (hperiod : ∀ i, Represented (period i)) {l : RootLoop n C W} (hl : l.Exact period)
    (hwrap : (l.record clock).before.s ≤ (l.record clock).after.s) :
    (l.tick clock).Exact period ∧
      (l.tick clock).shown = Function.update l.shown (mostDelayedDomain l.domains)
        (l.shown (mostDelayedDomain l.domains) +
          (period (mostDelayedDomain l.domains)).toNat) := by
  generalize hmin : mostDelayedDomain l.domains = min
  obtain ⟨htime, hkept⟩ := clockDomainTick_time clock (l.domains min) l.world
  have hticked : (l.tick clock).domains =
      Function.update l.domains min (clockDomainTick clock (l.domains min) l.world).2.1 := by
    simp only [RootLoop.tick, hmin]
  have hself : ((l.tick clock).domains min).time = (advanceClock (l.domains min)).time := by
    rw [hticked, Function.update_self, htime]
  have hwrap' : (l.domains min).time.s ≤ (advanceClock (l.domains min)).time.s := by
    simpa only [RootLoop.record, hmin, hself] using hwrap
  obtain ⟨hproper, hexact⟩ := advanceClock_exact (hl.proper min)
    (by rw [hl.periods min]; exact hperiod min) hwrap'
  refine ⟨⟨?_, ?_⟩, ?_⟩
  · intro i
    by_cases hi : i = min
    · rw [hi, hself]
      exact hproper
    · rw [hticked, Function.update_of_ne hi]
      exact hl.proper i
  · intro i
    by_cases hi : i = min
    · rw [hi, hticked, Function.update_self, hkept]
      exact hl.periods min
    · rw [hticked, Function.update_of_ne hi]
      exact hl.periods i
  · funext i
    by_cases hi : i = min
    · rw [hi, Function.update_self]
      show ((l.tick clock).domains min).time.femtoseconds = _
      rw [hself, hexact, hl.periods min]
      rfl
    · rw [Function.update_of_ne hi]
      show ((l.tick clock).domains i).time.femtoseconds = _
      rw [hticked, Function.update_of_ne hi]
      rfl

/-- The tick of a record in exact time. -/
def TickRecord.exact (t : TickRecord n) : Fin (n + 1) × Nat := (t.domain, t.before.femtoseconds)

/-- The loop simulates clocks in exact time that are ticked earliest first. -/
theorem RootRun.earliest {clock : C → W → Stat × W} {period : Fin (n + 1) → Word}
    {components : Fin (n + 1) → List C} {w : W} (hperiod : ∀ i, Represented (period i))
    {log : List (TickRecord n)} {l : RootLoop n C W}
    (h : RootRun clock (createdDomains period components) w log l)
    (hwrap : ∀ t ∈ log, t.before.s ≤ t.after.s) :
    l.Exact period ∧
      Earliest.Run (fun i => (period i).toNat) (log.map TickRecord.exact) l.shown := by
  induction h with
  | start =>
      have hcreated : ∀ i, (createdDomains period components i).time = ⟨0, 0⟩ ∧
          (createdDomains period components i).period = period i :=
        fun i => foldl_clockDomainAdd (components i) (createClockDomain (period i))
      have hshown : (RootLoop.mk (createdDomains period components) w .OK).shown = fun _ => 0 := by
        funext i
        show (createdDomains period components i).time.femtoseconds = 0
        rw [(hcreated i).1]
        rfl
      refine ⟨⟨fun i => ?_, fun i => (hcreated i).2⟩, ?_⟩
      · rw [(hcreated i).1]
        show (0 : Nat) < 10 ^ 15
        decide
      · rw [hshown]
        exact .start
  | @tick log l h hret ih =>
      obtain ⟨hexact, hrun⟩ := ih fun t ht => hwrap t (List.mem_append_left _ ht)
      obtain ⟨hexact', hshown⟩ := hexact.tick hperiod
        (hwrap _ (List.mem_append_right _ (List.mem_singleton.2 rfl)))
      refine ⟨hexact', ?_⟩
      rw [hshown, List.map_append]
      exact hrun.tick _ fun j => mostDelayedDomain_le hexact.proper j

/-- The loop of `root_run` ticks its domains in the order of exact time. While no seconds counter
wraps, every domain shows its period as many times as it was ticked, with less than a second of
femtoseconds, the ticks are taken at times that do not decrease, no domain is ahead of another one
by more than its own period, and when all domains have reached a time that every tick was taken
before, each was ticked as often as its period fits into that time, rounded up. -/
theorem rootRun_in_time_order (clock : C → W → Stat × W) (period : Fin (n + 1) → Word)
    (components : Fin (n + 1) → List C) (w : W) (hperiod : ∀ i, Represented (period i))
    {log : List (TickRecord n)} {l : RootLoop n C W}
    (hrun : RootRun clock (createdDomains period components) w log l)
    (hwrap : ∀ t ∈ log, t.before.s ≤ t.after.s) :
    (∀ i, (l.domains i).time.femtoseconds = domainTicks log i * (period i).toNat ∧
      (l.domains i).time.fs.toNat < 10 ^ 15) ∧
    (log.map fun t => t.before.femtoseconds).Pairwise (· ≤ ·) ∧
    (∀ i j, (l.domains i).time.femtoseconds ≤
      (l.domains j).time.femtoseconds + (period i).toNat) ∧
    ∀ T, (∀ i, T ≤ (l.domains i).time.femtoseconds) →
      (∀ t ∈ log, t.before.femtoseconds < T) → ∀ i, domainTicks log i = T ⌈/⌉ (period i).toNat := by
  obtain ⟨hexact, hearliest⟩ := hrun.earliest hperiod hwrap
  have hticks : ∀ i, Earliest.ticks (log.map TickRecord.exact) i = domainTicks log i := by
    intro i
    simp only [Earliest.ticks, domainTicks, List.map_map]
    rfl
  refine ⟨fun i => ⟨?_, hexact.proper i⟩, ?_, hearliest.skew, ?_⟩
  · have hshown := hearliest.shown_eq i
    rw [hticks, smul_eq_mul] at hshown
    exact hshown
  · have hsorted := hearliest.sorted
    rw [List.map_map] at hsorted
    exact hsorted
  · intro T hreached hbefore i
    have hleast := hearliest.isLeast_ticks (hreached i) (fun t ht => by
      obtain ⟨r, hr, rfl⟩ := List.mem_map.1 ht
      exact hbefore r hr)
    rw [hticks] at hleast
    -- the quotient rounded up is the least number of periods that reaches the time
    have hceil : IsLeast {k : Nat | T ≤ k • (period i).toNat} (T ⌈/⌉ (period i).toNat) := by
      have hpos : 0 < (period i).toNat := (hperiod i).1
      constructor
      · show T ≤ _ • _
        rw [smul_eq_mul, Nat.mul_comm]
        exact le_smul_ceilDiv hpos
      · intro k hk
        rw [ceilDiv_le_iff_le_mul hpos, Nat.mul_comm]
        exact hk
    exact hleast.unique hceil

/-- Two domains with periods of two and three femtoseconds, after one tick of each. -/
theorem rootRun_in_time_order_two :
    let clock : Unit → Unit → Stat × Unit := fun _ w => (.OK, w)
    let period : Fin 2 → Word := fun i => BitVec.ofNat 64 (i.val + 2)
    let start : RootLoop 1 Unit Unit := ⟨createdDomains period fun _ => [()], (), .OK⟩
    let log := [start.record clock, (start.tick clock).record clock]
    ∀ i, domainTicks log i = 2 ⌈/⌉ (period i).toNat := by
  intro clock period start log
  have hrun : RootRun clock start.domains () log ((start.tick clock).tick clock) :=
    (RootRun.start.tick rfl).tick rfl
  obtain ⟨-, -, -, hceil⟩ := rootRun_in_time_order clock period (fun _ => [()]) ()
    (by decide +kernel) hrun (by decide +kernel)
  exact hceil 2 (by decide +kernel) (by decide +kernel)

end Gran
