import Gran.Common

/-!
# Clock domains

`clock_domain.h` and `clock_domain.c`: a time is a 64-bit count of seconds with a 64-bit count of
femtoseconds, `clock_domain_tick` calls the clock of every component of a domain and advances its
time by the period. What the components do is the parameter `clock`, on a state `W` that all of them
share.
-/

namespace Gran

variable {C W : Type}

/-- `struct clock_time`. -/
structure ClockTime where
  s : Word
  fs : Word
deriving DecidableEq

/-- `SEC(1)`, in femtoseconds. -/
def SEC : Word := 1000 * 1000 * 1000 * 1000 * 1000

/-- `struct clock_domain`. -/
structure ClockDomain (C : Type) where
  components : List C
  time : ClockTime
  period : Word
  ret : Stat

/-- The loop of `advance_clock`. -/
def carry (s fs : Word) : ClockTime :=
  if SEC ≤ fs then carry (s + 1) (fs - SEC) else ⟨s, fs⟩
termination_by fs.toNat
decreasing_by simp only [SEC] at *; bv_omega

/-- `advance_clock`. -/
def advanceClock (clk : ClockDomain C) : ClockDomain C :=
  { clk with time := carry clk.time.s (clk.time.fs + clk.period) }

/-- `create_clock_domain`. -/
def createClockDomain (period : Word) : ClockDomain C := ⟨[], ⟨0, 0⟩, period, .OK⟩

/-- `clock_domain_add`. -/
def clockDomainAdd (clk : ClockDomain C) (component : C) : ClockDomain C :=
  { clk with components := clk.components ++ [component] }

/-- `clocked_component_tick`. -/
def clockedComponentTick (clock : C → W → Stat × W) (s : ClockDomain C × W) (component : C) :
    ClockDomain C × W :=
  let (r, w) := clock component s.2
  (if r ≠ .OK then { s.1 with ret := r } else s.1, w)

/-- `clock_domain_tick`. -/
def clockDomainTick (clock : C → W → Stat × W) (clk : ClockDomain C) (w : W) :
    Stat × ClockDomain C × W :=
  let (clk, w) := clk.components.foldl (clockedComponentTick clock) (clk, w)
  (clk.ret, advanceClock clk, w)

/-- `lt_time`. -/
def ltTime (a b : ClockTime) : Bool := if a.s = b.s then a.fs < b.fs else a.s < b.s

/-! ## Exact time -/

/-- The time in femtoseconds. -/
def ClockTime.femtoseconds (t : ClockTime) : Nat := t.s.toNat * 10 ^ 15 + t.fs.toNat

/-- The femtoseconds of a time are less than a second. -/
def ClockTime.Proper (t : ClockTime) : Prop := t.fs.toNat < 10 ^ 15

@[simp] theorem toNat_SEC : SEC.toNat = 10 ^ 15 := rfl

/-- Proper times are ordered as what they stand for. -/
theorem ltTime_iff {a b : ClockTime} (ha : a.Proper) (hb : b.Proper) :
    ltTime a b = true ↔ a.femtoseconds < b.femtoseconds := by
  unfold ClockTime.Proper at ha hb
  unfold ltTime ClockTime.femtoseconds
  split
  case isTrue heq =>
      rw [heq, decide_eq_true_iff, BitVec.lt_def]
      exact Nat.add_lt_add_iff_left.symm
  case isFalse hne =>
      -- the seconds decide, because what is left is less than one
      rw [decide_eq_true_iff, BitVec.lt_def]
      have hne' : a.s.toNat ≠ b.s.toNat := fun h => hne (BitVec.eq_of_toNat_eq h)
      omega

/-- The loop carries every whole second, modulo the width of the counter. -/
theorem carry_spec (s fs : Word) :
    (carry s fs).Proper ∧ (carry s fs).s.toNat = (s.toNat + fs.toNat / 10 ^ 15) % 2 ^ 64 ∧
      (carry s fs).fs.toNat = fs.toNat % 10 ^ 15 := by
  fun_induction carry s fs with
  | case1 s fs hle ih =>
      obtain ⟨hproper, hs, hfs⟩ := ih
      rw [BitVec.le_def, toNat_SEC] at hle
      have hsub : (fs - SEC).toNat = fs.toNat - 10 ^ 15 :=
        BitVec.toNat_sub_of_le (BitVec.le_def.2 (by simpa using hle))
      have hone : (s + 1).toNat = (s.toNat + 1) % 2 ^ 64 := by simp
      refine ⟨hproper, ?_, ?_⟩
      · rw [hs, hone, hsub]
        omega
      · rw [hfs, hsub]
        omega
  | case2 s fs hlt =>
      rw [BitVec.le_def, toNat_SEC, Nat.not_le] at hlt
      refine ⟨hlt, ?_, ?_⟩
      · show s.toNat = _
        have := s.isLt
        omega
      · show fs.toNat = _
        omega

/-- The periods whose addition to a proper count of femtoseconds stays within the word. -/
def Represented (period : Word) : Prop := 1 ≤ period.toNat ∧ period.toNat ≤ 2 ^ 64 - 10 ^ 15

/-- `Represented` is decidable by two comparisons. -/
instance (period : Word) : Decidable (Represented period) := inferInstanceAs (Decidable (_ ∧ _))

/-- Advancing a clock whose seconds do not wrap adds exactly its period. -/
theorem advanceClock_exact {clk : ClockDomain C} (hproper : clk.time.Proper)
    (hperiod : Represented clk.period) (hwrap : clk.time.s ≤ (advanceClock clk).time.s) :
    (advanceClock clk).time.Proper ∧
      (advanceClock clk).time.femtoseconds = clk.time.femtoseconds + clk.period.toNat := by
  obtain ⟨hproper', hs, hfs⟩ := carry_spec clk.time.s (clk.time.fs + clk.period)
  refine ⟨hproper', ?_⟩
  unfold ClockTime.Proper at hproper
  -- neither the sum nor the seconds leave the word
  have hsum : (clk.time.fs + clk.period).toNat = clk.time.fs.toNat + clk.period.toNat := by
    rw [BitVec.toNat_add]
    have := hperiod.2
    omega
  have hle : clk.time.s.toNat ≤ (advanceClock clk).time.s.toNat := BitVec.le_def.1 hwrap
  have hstay : (advanceClock clk).time.s.toNat =
      clk.time.s.toNat + (clk.time.fs + clk.period).toNat / 10 ^ 15 := by
    have hs' : (advanceClock clk).time.s.toNat =
        (clk.time.s.toNat + (clk.time.fs + clk.period).toNat / 10 ^ 15) % 2 ^ 64 := hs
    have hsmall := (clk.time.fs + clk.period).isLt
    have := clk.time.s.isLt
    omega
  have hfs' : (advanceClock clk).time.fs.toNat = (clk.time.fs + clk.period).toNat % 10 ^ 15 := hfs
  unfold ClockTime.femtoseconds
  rw [hstay, hfs', hsum]
  omega

/-! ## What a tick leaves alone -/

/-- The clocks of the components of a domain change neither its time nor its period. -/
theorem foldl_clockedComponentTick (clock : C → W → Stat × W) (l : List C) (s : ClockDomain C × W) :
    (l.foldl (clockedComponentTick clock) s).1.time = s.1.time ∧
      (l.foldl (clockedComponentTick clock) s).1.period = s.1.period := by
  induction l generalizing s with
  | nil => exact ⟨rfl, rfl⟩
  | cons c l ih =>
      obtain ⟨htime, hperiod⟩ := ih (clockedComponentTick clock s c)
      have hbody : (clockedComponentTick clock s c).1.time = s.1.time ∧
          (clockedComponentTick clock s c).1.period = s.1.period := by
        unfold clockedComponentTick
        dsimp only
        split <;> exact ⟨rfl, rfl⟩
      rw [List.foldl_cons]
      exact ⟨htime.trans hbody.1, hperiod.trans hbody.2⟩

/-- A tick advances the clock of its domain. -/
theorem clockDomainTick_time (clock : C → W → Stat × W) (clk : ClockDomain C) (w : W) :
    (clockDomainTick clock clk w).2.1.time = (advanceClock clk).time ∧
      (clockDomainTick clock clk w).2.1.period = clk.period := by
  obtain ⟨htime, hperiod⟩ := foldl_clockedComponentTick clock clk.components (clk, w)
  unfold clockDomainTick advanceClock
  dsimp only
  rw [htime, hperiod]
  exact ⟨rfl, rfl⟩

end Gran
