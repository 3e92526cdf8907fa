import Gran.Clock.Status

/-!
# Simulations with one clock domain

A simulation whose components are all in one clock domain, where a clock may fail an assertion.
`ticks` clocks every component in order, again and again, until one returns something else than
`OK`; `rootRun_ticks` says that this is what `root_run` does.
-/

namespace Gran

variable {C W : Type} (clock : C → W → Option (Stat × W))

/-- Components that are clocked in order, with the statuses they return. -/
def clockAll : List C → W → Option (List Stat × W)
  | [], w => some ([], w)
  | c :: cs, w => do
      let (r, w) ← clock c w
      let (rs, w) ← clockAll cs w
      pure (r :: rs, w)

/-- Components that are clocked one after the other, until one stops the run. -/
def clockUntil : List C → W → Option (Stat × W)
  | [], w => some (.OK, w)
  | c :: cs, w => do
      let (r, w) ← clock c w
      if r = .OK then clockUntil cs w else pure (r, w)

/-- The state after `k` ticks, of which only the last may have stopped the simulation. -/
def ticks (cs : List C) (w : W) : Nat → Option (Stat × W)
  | 0 => some (.OK, w)
  | k + 1 => do
      let (ret, w) ← ticks cs w k
      guard (ret = .OK)
      let (rs, w) ← clockAll clock cs w
      pure (sticky .OK rs, w)

/-- The clock of a simulation that a failed assertion ends: after it there is no state. -/
def clockOrAbort (c : C) (w : Option W) : Stat × Option W :=
  match w.bind (clock c) with
  | some (r, w) => (r, some w)
  | none => (.OK, none)

variable {clock} {cs cs' : List C} {w w' w'' : W} {rs rs' : List Stat}

theorem clockAll_cons {c : C} {r : Stat} (h : clock c w = some (r, w'))
    (h' : clockAll clock cs w' = some (rs, w'')) :
    clockAll clock (c :: cs) w = some (r :: rs, w'') := by
  simp [clockAll, h, h']

theorem clockAll_append (h : clockAll clock cs w = some (rs, w'))
    (h' : clockAll clock cs' w' = some (rs', w'')) :
    clockAll clock (cs ++ cs') w = some (rs ++ rs', w'') := by
  induction cs generalizing w rs with
  | nil =>
      cases h
      exact h'
  | cons c cs ih =>
      obtain ⟨⟨r, w₁⟩, hc, h⟩ := Option.bind_eq_some_iff.1 h
      obtain ⟨⟨rs₁, w₂⟩, hcs, h⟩ := Option.bind_eq_some_iff.1 h
      cases h
      exact clockAll_cons hc (ih hcs)

/-- The status of a tick in which only one component may return something else than `OK`. -/
theorem sticky_one (i j : Nat) (r : Stat) :
    sticky .OK (List.replicate i .OK ++ r :: List.replicate j .OK) = r := by
  have hok (n : Nat) (ret : Stat) : sticky ret (List.replicate n .OK) = ret := by
    induction n with
    | zero => rfl
    | succ n ih => exact ih
  rw [sticky_append, hok]
  show sticky (if r ≠ .OK then r else .OK) (List.replicate j .OK) = r
  rw [hok]
  split
  case isTrue => rfl
  case isFalse h => exact (not_not.1 h).symm

/-- The first tick of a run, and the ones after it. -/
theorem ticks_succ (hall : clockAll clock cs w = some (rs, w')) (hok : sticky .OK rs = .OK)
    {n : Nat} {ret : Stat} (h : ticks clock cs w' n = some (ret, w'')) :
    ticks clock cs w (n + 1) = some (ret, w'') := by
  induction n generalizing ret w'' with
  | zero =>
      cases h
      simp [ticks, hall, hok]
  | succ n ih =>
      obtain ⟨⟨r, v⟩, hn, h⟩ := Option.bind_eq_some_iff.1 h
      rw [ticks, ih hn]
      exact h

/-- The components around one that is clocked once. -/
theorem split_of_count [DecidableEq C] {c : C} (h : cs.count c = 1) :
    ∃ before after, cs = before ++ c :: after ∧ c ∉ before ∧ c ∉ after := by
  have hin : c ∈ cs := List.count_pos_iff.1 (by omega)
  obtain ⟨before, after, rfl⟩ := List.append_of_mem hin
  rw [List.count_append, List.count_cons_self] at h
  exact ⟨before, after, rfl, List.count_eq_zero.1 (by omega), List.count_eq_zero.1 (by omega)⟩

theorem clockStats_clockAll (h : clockAll clock cs w = some (rs, w')) :
    clockStats (clockOrAbort clock) cs (some w) = (rs, some w') := by
  induction cs generalizing w rs with
  | nil =>
      cases h
      rfl
  | cons c cs ih =>
      obtain ⟨⟨r, w₁⟩, hc, h⟩ := Option.bind_eq_some_iff.1 h
      obtain ⟨⟨rs₁, w₂⟩, hcs, h⟩ := Option.bind_eq_some_iff.1 h
      cases h
      simp [clockStats, clockOrAbort, hc, ih hcs]

/-- The only domain of a loop has the given components, and the status that the loop has. -/
structure RootLoop.Only (cs : List C) (l : RootLoop 0 C (Option W)) : Prop where
  components : (l.domains 0).components = cs
  ret : (l.domains 0).ret = l.ret

theorem mostDelayedDomain_only (domains : Fin 1 → ClockDomain C) :
    mostDelayedDomain domains = 0 := Fin.fin_one_eq_zero _

/-- A tick of the loop clocks every component. -/
theorem RootLoop.Only.tick {l : RootLoop 0 C (Option W)} (h : l.Only cs) (hret : l.ret = .OK)
    (hw : l.world = some w) (hall : clockAll clock cs w = some (rs, w')) :
    (l.tick (clockOrAbort clock)).Only cs ∧
      (l.tick (clockOrAbort clock)).ret = sticky .OK rs ∧
      (l.tick (clockOrAbort clock)).world = some w' := by
  have hstats := clockStats_clockAll hall
  have hret' : (l.domains 0).ret = .OK := h.ret.trans hret
  refine ⟨⟨?_, ?_⟩, ?_, ?_⟩ <;>
    simp only [RootLoop.tick, mostDelayedDomain_only, clockDomainTick, foldl_tick_eq, h.components,
      hw, hstats, hret', Function.update_self, advanceClock]

/-- Adding components one by one. -/
theorem foldl_clockDomainAdd_components (cs : List C) (clk : ClockDomain C) :
    (cs.foldl clockDomainAdd clk).components = clk.components ++ cs ∧
      (cs.foldl clockDomainAdd clk).ret = clk.ret := by
  induction cs generalizing clk with
  | nil => simp
  | cons c cs ih =>
      obtain ⟨hcomponents, hret⟩ := ih (clockDomainAdd clk c)
      refine ⟨?_, hret⟩
      rw [List.foldl_cons, hcomponents, clockDomainAdd, List.append_assoc, List.singleton_append]

/-- The loop of `root_run` over one domain ticks its components. -/
theorem rootRun_ticks (period : Word) {k : Nat} {ret : Stat}
    (h : ticks clock cs w k = some (ret, w')) :
    ∃ (log : List (TickRecord 0)) (l : RootLoop 0 C (Option W)),
      RootRun (clockOrAbort clock) (createdDomains (fun _ => period) fun _ => cs) (some w) log l ∧
      log.length = k ∧ l.ret = ret ∧ l.world = some w' ∧ l.Only cs := by
  induction k generalizing ret w' with
  | zero =>
      cases h
      obtain ⟨hcomponents, hret⟩ := foldl_clockDomainAdd_components cs (createClockDomain period)
      exact ⟨[], _, .start, rfl, rfl, rfl, ⟨hcomponents, hret⟩⟩
  | succ k ih =>
      obtain ⟨⟨r, w₁⟩, hk, h⟩ := Option.bind_eq_some_iff.1 h
      simp only [Option.bind_eq_bind, Option.bind_eq_some_iff, Option.guard_eq_some',
        Option.pure_def] at h
      obtain ⟨-, hr, ⟨rs, w₂⟩, hall, h⟩ := h
      cases h
      obtain ⟨log, l, hrun, hlen, hret, hworld, honly⟩ := ih hk
      have hok : l.ret = .OK := hret.trans hr
      obtain ⟨honly', hret', hworld'⟩ := honly.tick hok hworld hall
      exact ⟨_, _, hrun.tick hok, by simp [hlen], hret', hworld', honly'⟩

end Gran
