import Gran.Clock.Root

/-!
# The status that ends a run

`clocked_component_tick` keeps the last status of a tick that is not `OK`, and `root_run` turns
`DONE` into `OK`. `rootRun_reports_errors` says when a run reports the errors of its last tick: when
no component finishes after the last one that fails.
-/

namespace Gran

variable {C W : Type} {n : Nat}

/-- A status that is an error. -/
def Stat.IsError (r : Stat) : Prop := r ≠ .OK ∧ r ≠ .DONE

instance (r : Stat) : Decidable r.IsError := inferInstanceAs (Decidable (_ ∧ _))

/-- The statuses that components return when they are clocked in order, and the state they leave. -/
def clockStats (clock : C → W → Stat × W) : List C → W → List Stat × W
  | [], w => ([], w)
  | c :: cs, w =>
      let (r, w) := clock c w
      let (rs, w) := clockStats clock cs w
      (r :: rs, w)

/-- What the components clocked in the next tick return. -/
def RootLoop.stats (clock : C → W → Stat × W) (l : RootLoop n C W) : List Stat :=
  (clockStats clock (l.domains (mostDelayedDomain l.domains)).components l.world).1

/-- The value that `root_run` returns when its loop ends. -/
def RootLoop.returned (l : RootLoop n C W) : Stat := if l.ret = .DONE then .OK else l.ret

/-- `root_run` up to the end of some iteration of its loop, with every status that a component
returned, oldest first. -/
inductive RootStats (clock : C → W → Stat × W) (domains : Fin (n + 1) → ClockDomain C) (w : W) :
    List Stat → RootLoop n C W → Prop where
  | start : RootStats clock domains w [] ⟨domains, w, .OK⟩
  | tick {stats : List Stat} {l : RootLoop n C W} (h : RootStats clock domains w stats l)
      (hret : l.ret = .OK) : RootStats clock domains w (stats ++ l.stats clock) (l.tick clock)

/-- A run that returned a value reports errors: an error in its last tick is not reported as
success, and success means that a component finished and none failed. -/
structure ReportsErrors (earlier last : List Stat) (returned : Stat) : Prop where
  error : (∃ r ∈ last, r.IsError) → returned ≠ .OK
  success : returned = .OK → .DONE ∈ earlier ++ last ∧ ∀ r ∈ earlier ++ last, ¬ r.IsError

/-- No `DONE` comes after the last error. -/
def DoneBeforeErrors (stats : List Stat) : Prop :=
  ∀ before after, stats = before ++ .DONE :: after → (∃ r ∈ before, r.IsError) →
    ∃ r ∈ after, r.IsError

/-! ## The sticky status -/

/-- The status of a domain after its components returned `stats`. -/
def sticky (ret : Stat) (stats : List Stat) : Stat :=
  stats.foldl (fun ret r => if r ≠ .OK then r else ret) ret

theorem sticky_append (ret : Stat) (rs rs' : List Stat) :
    sticky ret (rs ++ rs') = sticky (sticky ret rs) rs' := List.foldl_append

/-- Without an error `DONE` is kept. -/
theorem sticky_done {rs : List Stat} (h : ∀ r ∈ rs, ¬ r.IsError) : sticky .DONE rs = .DONE := by
  induction rs with
  | nil => rfl
  | cons r rs ih =>
      have hrest := ih fun x hx => h x (by simp [hx])
      by_cases hok : r = .OK
      · rw [hok]
        exact hrest
      · have hdone : r = .DONE := by
          by_contra hne
          exact h r (by simp) ⟨hok, hne⟩
        rw [hdone]
        exact hrest

/-- The status is `OK` if all were, and otherwise the last one that was not. -/
theorem sticky_cases (rs : List Stat) :
    (sticky .OK rs = .OK ∧ ∀ r ∈ rs, r = .OK) ∨
      ∃ before r after, rs = before ++ r :: after ∧ r ≠ .OK ∧ (∀ x ∈ after, x = .OK) ∧
        sticky .OK rs = r := by
  induction rs using List.reverseRecOn with
  | nil => exact Or.inl ⟨rfl, by simp⟩
  | append_singleton rs r ih =>
      rw [sticky_append]
      by_cases hok : r = .OK
      · subst hok
        rcases ih with ⟨hret, hall⟩ | ⟨before, r, after, rfl, hne, hall, hret⟩
        · refine Or.inl ⟨hret, fun x hx => ?_⟩
          rcases List.mem_append.1 hx with hx | hx
          · exact hall x hx
          · exact List.mem_singleton.1 hx
        · refine Or.inr ⟨before, r, after ++ [.OK], by simp, hne, fun x hx => ?_, hret⟩
          rcases List.mem_append.1 hx with hx | hx
          · exact hall x hx
          · exact List.mem_singleton.1 hx
      · exact Or.inr ⟨rs, r, [], rfl, hok, by simp, if_pos hok⟩

/-- A tick leaves the sticky status of what its components return. -/
theorem foldl_tick_eq (clock : C → W → Stat × W) (cs : List C) (clk : ClockDomain C) (w : W) :
    cs.foldl (clockedComponentTick clock) (clk, w) =
      ({ clk with ret := sticky clk.ret (clockStats clock cs w).1 },
        (clockStats clock cs w).2) := by
  induction cs generalizing clk w with
  | nil => rfl
  | cons c cs ih =>
      rw [List.foldl_cons, clockedComponentTick]
      by_cases hok : (clock c w).1 = .OK
      · simp only [hok, ne_eq, not_true, if_false]
        rw [ih]
        simp [clockStats, sticky, hok]
      · simp only [ne_eq, hok, not_false_iff, if_true]
        rw [ih]
        simp [clockStats, sticky, hok]

/-! ## Runs -/

variable {clock : C → W → Stat × W} {period : Fin (n + 1) → Word}
  {components : Fin (n + 1) → List C} {w : W} {l : RootLoop n C W} {earlier : List Stat}

theorem tick_ret (clock : C → W → Stat × W) (l : RootLoop n C W) :
    (l.tick clock).ret = sticky (l.domains (mostDelayedDomain l.domains)).ret (l.stats clock) ∧
      ((l.tick clock).domains (mostDelayedDomain l.domains)).ret = (l.tick clock).ret ∧
      ∀ i, i ≠ mostDelayedDomain l.domains → (l.tick clock).domains i = l.domains i := by
  refine ⟨?_, ?_, fun i hi => ?_⟩
  · simp only [RootLoop.tick, RootLoop.stats, clockDomainTick, foldl_tick_eq]
  · simp only [RootLoop.tick, clockDomainTick, Function.update_self]
    rfl
  · simp only [RootLoop.tick]
    exact Function.update_of_ne hi _ _

/-- As long as the loop runs, every component returned `OK` and every domain says so. -/
theorem RootStats.all_ok
    (h : RootStats clock (createdDomains period components) w earlier l) (hret : l.ret = .OK) :
    (∀ r ∈ earlier, r = .OK) ∧ ∀ i, (l.domains i).ret = .OK := by
  induction h with
  | start =>
      refine ⟨by simp, fun i => ?_⟩
      show ((components i).foldl clockDomainAdd (createClockDomain (period i))).ret = .OK
      generalize hclk : createClockDomain (period i) = clk
      have hok : clk.ret = .OK := by rw [← hclk]; rfl
      clear hclk
      induction components i generalizing clk with
      | nil => exact hok
      | cons c cs ih => exact ih (clockDomainAdd clk c) hok
  | @tick stats l h hbefore ih =>
      obtain ⟨hstats, hdomains⟩ := ih hbefore
      obtain ⟨hsticky, hself, hother⟩ := tick_ret clock l
      rw [hdomains] at hsticky
      rcases sticky_cases (l.stats clock) with ⟨-, hall⟩ | ⟨before, r, after, -, hne, -, hr⟩
      · refine ⟨fun r hr => ?_, fun i => ?_⟩
        · rcases List.mem_append.1 hr with hr | hr
          · exact hstats r hr
          · exact hall r hr
        · by_cases hi : i = mostDelayedDomain l.domains
          · rw [hi, hself, hret]
          · rw [hother i hi, hdomains i]
      · exact absurd (hr.symm.trans (hsticky.symm.trans hret)) hne

/-- The last tick reports its errors exactly if none of its components finishes after the last
error. -/
theorem reportsErrors_iff {last : List Stat} {ret : Stat} (hearlier : ∀ r ∈ earlier, r = .OK)
    (hret : sticky .OK last = ret) (hend : ret ≠ .OK) :
    ReportsErrors earlier last (if ret = .DONE then .OK else ret) ↔ DoneBeforeErrors last := by
  have hok : (if ret = .DONE then Stat.OK else ret) = .OK ↔ ret = .DONE := by
    split
    case isTrue h => simp [h]
    case isFalse h => simp [h, hend]
  constructor
  · intro h before after hlast hbefore
    by_contra hnone
    push Not at hnone
    -- without an error behind it, the `DONE` is what the domain keeps
    have hdone : ret = .DONE := by
      rw [← hret, hlast, sticky_append]
      exact sticky_done hnone
    obtain ⟨r, hr, herr⟩ := hbefore
    exact h.error ⟨r, by rw [hlast]; simp [hr], herr⟩ (hok.2 hdone)
  · intro h
    have hsuccess : ret = .DONE → .DONE ∈ last ∧ ∀ r ∈ last, ¬ r.IsError := by
      intro hdone
      rcases sticky_cases last with ⟨hall, -⟩ | ⟨before, r, after, hlast, -, hafter, hr⟩
      · exact absurd (hret.symm.trans hall) hend
      obtain rfl : r = .DONE := hr.symm.trans (hret.trans hdone)
      have hclean : ¬ ∃ x ∈ after, x.IsError := by
        rintro ⟨x, hx, herr⟩
        exact herr.1 (hafter x hx)
      refine ⟨by rw [hlast]; simp, fun x hx herr => ?_⟩
      rw [hlast] at hx
      rcases List.mem_append.1 hx with hx | hx
      · exact hclean (h before after hlast ⟨x, hx, herr⟩)
      · rcases List.mem_cons.1 hx with rfl | hx
        · exact herr.2 rfl
        · exact hclean ⟨x, hx, herr⟩
    refine ⟨?_, fun hreturned => ?_⟩
    · rintro ⟨r, hr, herr⟩ hreturned
      exact (hsuccess (hok.1 hreturned)).2 r hr herr
    · obtain ⟨hdone, hclean⟩ := hsuccess (hok.1 hreturned)
      refine ⟨List.mem_append_right _ hdone, fun r hr => ?_⟩
      rcases List.mem_append.1 hr with hr | hr
      · rw [hearlier r hr]
        exact fun herr => herr.1 rfl
      · exact hclean r hr

/-- The errors that `root_run` reports. A run that ends reports the errors of its last tick, and
returns `OK` only when a component finished and none failed, exactly if in that tick no component
that returns `DONE` is clocked after the last one that returns an error. -/
theorem rootRun_reports_errors (clock : C → W → Stat × W) (period : Fin (n + 1) → Word)
    (components : Fin (n + 1) → List C) (w : W) {earlier : List Stat} {l : RootLoop n C W}
    (hrun : RootStats clock (createdDomains period components) w earlier l) (hret : l.ret = .OK)
    (hend : (l.tick clock).ret ≠ .OK) :
    ReportsErrors earlier (l.stats clock) (l.tick clock).returned ↔
      DoneBeforeErrors (l.stats clock) := by
  obtain ⟨hearlier, hdomains⟩ := hrun.all_ok hret
  have hsticky := (tick_ret clock l).1
  rw [hdomains] at hsticky
  exact reportsErrors_iff hearlier hsticky.symm hend

/-- The loop of one domain whose components return fixed statuses. -/
def oneDomain (stats : List Stat) : RootLoop 0 Stat Unit :=
  ⟨createdDomains (fun _ => 1) fun _ => stats, (), .OK⟩

/-- `rootRun_reports_errors` when a component fails after another one has finished. -/
theorem rootRun_reports_errors_after :
    let l := oneDomain [.OK, .DONE, .EBUS]
    (l.tick Prod.mk).returned = .EBUS ∧
      ReportsErrors [] (l.stats Prod.mk) (l.tick Prod.mk).returned := by
  refine ⟨rfl, (rootRun_reports_errors Prod.mk (fun _ => 1) (fun _ => [.OK, .DONE, .EBUS]) ()
    .start rfl (by decide)).2 fun before after h _ => ⟨.EBUS, ?_, by decide⟩⟩
  have hsplit : [Stat.OK, .DONE, .EBUS] = before ++ .DONE :: after := h
  -- the only `DONE` is the second status
  rcases before with _ | ⟨a, _ | ⟨b, _ | ⟨c, rest⟩⟩⟩ <;> simp at hsplit
  simp [← hsplit.2]

/-- A component that finishes hides the error of one that is clocked before it. -/
theorem rootRun_hides_error : ∃ (earlier : List Stat) (l : RootLoop 0 Stat Unit),
    RootStats Prod.mk (createdDomains (fun _ => 1) fun _ => [.EBUS, .DONE]) () earlier l ∧
      l.ret = .OK ∧ (l.tick Prod.mk).returned = .OK ∧ .EBUS ∈ l.stats Prod.mk ∧
      ¬ ReportsErrors earlier (l.stats Prod.mk) (l.tick Prod.mk).returned := by
  refine ⟨[], oneDomain [.EBUS, .DONE], .start, rfl, rfl, by decide, fun h => ?_⟩
  exact h.error ⟨.EBUS, by decide, by decide⟩ rfl

end Gran
