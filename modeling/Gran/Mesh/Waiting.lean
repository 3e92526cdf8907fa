import Gran.Mesh.Phases
import Mathlib.Combinatorics.Enumerative.DoubleCounting

/-!
# Packets that wait

What a mesh does over a window of drives while packets are injected. `Sees` are the states that the
window passes, and a packet waits in a register that is busy in all of them (`Waits`). Old packets
are those that are not younger than some time. As long as younger packets only are injected, there
come never more old packets into a `Closed` set of registers (`Lively.sees_oldIn`), and there are
less of them when a node sends one on from there (`arbitrate_oldIn`).
-/

namespace Gran.Mesh

open PacketNet Relation

variable {N D : Type} [DecidableEq N] [DecidableEq D] {m : Mesh N D} {w : Wiring m}
  {ok : Place m → Packet → Prop} {addressed : Packet → Prop} {s t u v : MeshState m}
  {r r' : Run m} {d : Drive N} {ds ds' : List (Drive N)} {c : N} {p : Place m} {T : Nat}

/-! ## Windows -/

/-- A drive of a run whose packets are addressed and whose elements accept. -/
def Accepting (m : Mesh N D) (addressed : Packet → Prop) : Drive N → Prop
  | .clock _ answer => ∀ comp, answer comp = .OK
  | .inject c i pkt =>
      (∃ h : i < m.elems c, m.ports c (.elem ⟨i, h⟩) = some (.elem c i)) ∧ addressed pkt

omit [DecidableEq N] [DecidableEq D] in
/-- A drive with accepting elements is one of a run. -/
theorem Accepting.proper (h : Accepting m addressed d) : Proper m addressed d := by
  cases d with
  | clock c answer => exact fun comp => .inl (h comp)
  | inject c i pkt => exact h

/-- The states that a window of drives passes: before and after each drive, and between the two
phases of a clock. -/
inductive Sees : List (Drive N) → Run m → MeshState m → Prop where
  | here {ds : List (Drive N)} {r : Run m} : Sees ds r r.state
  | between {c : N} {answer : Comp N → Stat} {ds : List (Drive N)} {r : Run m} {v : MeshState m}
      (h : clockOutputs answer c (tick r.state c) = some v) : Sees (.clock c answer :: ds) r v
  | later {d : Drive N} {ds : List (Drive N)} {r r' : Run m} {u : MeshState m}
      (h : r.drive d = some r') (hu : Sees ds r' u) : Sees (d :: ds) r u

/-- The states between the two phases of the clocks of one node. -/
inductive Mid (c : N) : List (Drive N) → Run m → MeshState m → Prop where
  | here {answer : Comp N → Stat} {ds : List (Drive N)} {r : Run m} {v : MeshState m}
      (h : clockOutputs answer c (tick r.state c) = some v) : Mid c (.clock c answer :: ds) r v
  | later {d : Drive N} {ds : List (Drive N)} {r r' : Run m} {v : MeshState m}
      (h : r.drive d = some r') (hv : Mid c ds r' v) : Mid c (d :: ds) r v

/-- A place is busy all the time. -/
def Waits (ds : List (Drive N)) (r : Run m) (p : Place m) : Prop :=
  ∀ u, Sees ds r u → held u p ≠ none

/-- The states in the middle of a clock are among those that the drives go through. -/
theorem Mid.sees (h : Mid c ds r v) : Sees ds r v := by
  induction h with
  | here h => exact .between h
  | later h _ ih => exact .later h ih

/-- The drives hold the clock that a state is in the middle of. -/
theorem Mid.mem (h : Mid c ds r v) : ∃ answer, Drive.clock c answer ∈ ds := by
  induction h with
  | @here answer => exact ⟨answer, List.mem_cons_self⟩
  | later _ _ ih =>
      obtain ⟨answer, hmem⟩ := ih
      exact ⟨answer, List.mem_cons_of_mem _ hmem⟩

/-- Later drives take no state away. -/
theorem Mid.append (h : Mid c ds r v) (ds' : List (Drive N)) : Mid c (ds ++ ds') r v := by
  induction h with
  | here h => exact .here h
  | later h _ ih => exact .later h ih

/-- Earlier drives take no state away. -/
theorem Mid.after (hrun : ds.foldlM Run.drive r = some r') (h : Mid c ds' r' v) :
    Mid c (ds ++ ds') r v := by
  induction ds generalizing r with
  | nil =>
      cases hrun
      exact h
  | cons d ds ih =>
      obtain ⟨r₁, hd, hrest⟩ := Option.bind_eq_some_iff.1 hrun
      exact .later hd (ih hrest)

/-- Later drives take no state away. -/
theorem Sees.append (h : Sees ds r u) (ds' : List (Drive N)) : Sees (ds ++ ds') r u := by
  induction h with
  | here => exact .here
  | between h => exact .between h
  | later h _ ih => exact .later h ih

/-- Earlier drives take no state away. -/
theorem Sees.after (hrun : ds.foldlM Run.drive r = some r') (h : Sees ds' r' u) :
    Sees (ds ++ ds') r u := by
  induction ds generalizing r with
  | nil =>
      cases hrun
      exact h
  | cons d ds ih =>
      obtain ⟨r₁, hd, hrest⟩ := Option.bind_eq_some_iff.1 hrun
      exact .later hd (ih hrest)

/-- The state that the drives lead to is one of those seen. -/
theorem Sees.last (hrun : ds.foldlM Run.drive r = some r') : Sees ds r r'.state := by
  have hlast : Sees (ds ++ []) r r'.state := .after hrun .here
  rwa [List.append_nil] at hlast

/-- A packet that waits during all drives waits during the first ones. -/
theorem Waits.left (h : Waits (ds ++ ds') r p) : Waits ds r p := fun u hu => h u (hu.append ds')

/-- A packet that waits during all drives waits during the last ones. -/
theorem Waits.right (h : Waits (ds ++ ds') r p) (hrun : ds.foldlM Run.drive r = some r') :
    Waits ds' r' p := fun u hu => h u (hu.after hrun)

/-! ## Old packets -/

/-- A packet is not younger than a time. -/
abbrev Old (T : Nat) (x : Packet) : Prop := x.timestamp.toNat ≤ T

/-- Packets that enter are younger than a time. -/
def Late (T : Nat) (ds : List (Drive N)) (r : Run m) : Prop :=
  Fold.Along Run.drive (fun r d => match d with
    | .clock _ _ => True
    | .inject c _ _ => T < (r.state.nodes c).timestamp.toNat) ds r

/-- Packets come into a set of registers from outside of the mesh only. -/
def Closed (w : Wiring m) (ok : Place m → Packet → Prop) (F : Finset (Place m)) : Prop :=
  ∀ p q x, ok p x → next w p x = some q → q ∈ F → p ∈ F

/-- The registers of a set that hold old packets. -/
def oldIn (T : Nat) (F : Finset (Place m)) (s : MeshState m) : Finset (Place m) :=
  F.filter fun p => (held s p).any fun x => decide (x.timestamp.toNat ≤ T)

variable {F : Finset (Place m)}

omit [DecidableEq N] [DecidableEq D] in
/-- The places of `F` with an old packet. -/
theorem mem_oldIn : p ∈ oldIn T F s ↔ p ∈ F ∧ ∃ x, held s p = some x ∧ Old T x := by
  simp [oldIn, Option.any_eq_true]

omit [DecidableEq N] [DecidableEq D] in
/-- Old packets in `F` are in places of `F`. -/
theorem oldIn_subset : oldIn T F s ⊆ F := Finset.filter_subset _ _

omit [DecidableEq N] [DecidableEq D] in
/-- No packet is moved to an element input. -/
theorem next_ne_elem {p : Place m} {x : Packet} {c : N} {i : Fin (m.elems c)}
    (h : next w p x = some (inpAt c (.elem i))) : False := by
  rcases p with ⟨c', p⟩ | ⟨c', j | d⟩
  · simp only [next, Option.map_eq_some_iff] at h
    obtain ⟨q, -, h⟩ := h
    cases h
  · cases h
  · simp only [next, Option.map_eq_some_iff] at h
    obtain ⟨c'', -, h⟩ := h
    cases h

/-- A shift takes no more old packets into a closed set. -/
theorem shift_oldIn {injected : Multiset Packet} (hclosed : Closed w ok F)
    (hn : Routed (next w) ok (network s injected)) (h : Shift w s t) :
    (oldIn T F t).card ≤ (oldIn T F s).card := by
  cases h with
  | stays hheld => rw [oldIn, hheld, oldIn]
  | @goesOn p q x hp hnext hfree hheld =>
      have hkept : ∀ r ∈ oldIn T F t, r ≠ q → r ∈ (oldIn T F s).erase p := by
        intro r hr hrq
        obtain ⟨hmem, y, hy, hold⟩ := mem_oldIn.1 hr
        rw [hheld, Function.update_of_ne hrq] at hy
        by_cases hrp : r = p
        · subst hrp
          rw [Function.update_self] at hy
          cases hy
        · rw [Function.update_of_ne hrp] at hy
          exact Finset.mem_erase.2 ⟨hrp, mem_oldIn.2 ⟨hmem, y, hy, hold⟩⟩
      by_cases hq : q ∈ oldIn T F t
      · obtain ⟨hmem, y, hy, hold⟩ := mem_oldIn.1 hq
        rw [hheld, Function.update_self] at hy
        cases hy
        have hpmem : p ∈ oldIn T F s :=
          mem_oldIn.2 ⟨hclosed p q x (hn.held p x hp) hnext hmem, x, hp, hold⟩
        calc (oldIn T F t).card
            ≤ (insert q ((oldIn T F s).erase p)).card := Finset.card_le_card fun r hr => by
              by_cases hrq : r = q
              · exact Finset.mem_insert.2 (.inl hrq)
              · exact Finset.mem_insert_of_mem (hkept r hr hrq)
          _ ≤ ((oldIn T F s).erase p).card + 1 := Finset.card_insert_le _ _
          _ = (oldIn T F s).card := Finset.card_erase_add_one hpmem
      · refine Finset.card_le_card fun r hr => Finset.mem_of_mem_erase (hkept r hr ?_)
        rintro rfl
        exact hq hr
  | @leaves c i x hp hheld =>
      refine Finset.card_le_card fun r hr => ?_
      obtain ⟨hmem, y, hy, hold⟩ := mem_oldIn.1 hr
      rw [hheld] at hy
      by_cases hrp : r = outAt c (.elem i)
      · subst hrp
        rw [Function.update_self] at hy
        cases hy
      · rw [Function.update_of_ne hrp] at hy
        exact mem_oldIn.2 ⟨hmem, y, hy, hold⟩

/-- A clock brings no old packet into a closed set of places. -/
theorem shifts_oldIn {injected : Multiset Packet} (hspec : RoutingSpec w ok)
    (hclosed : Closed w ok F) (hn : Routed (next w) ok (network s injected)) (h : Shifts w s t) :
    (oldIn T F t).card ≤ (oldIn T F s).card := by
  induction h with
  | refl => exact Nat.le_refl _
  | tail hsteps hstep ih =>
      have hnt := Moves.routed (ok_next hspec) (Shifts.moves injected hsteps) hn
      exact (shift_oldIn hclosed hnt hstep).trans ih

/-- Where the packet in a register was before a node arbitrated. -/
inductive Origin (c : N) (v : MeshState m) : Place m → Place m → Prop where
  | stays {p : Place m} : Origin c v p p
  | moved {o q : Port D (m.elems c)} (h : winner (v.nodes c) o = some q) :
      Origin c v (outAt c o) (inpAt c q)

/-- An arbitration in which an old packet goes from a closed set to an output outside of it leaves
less of them there. -/
theorem arbitrate_oldIn [Fintype D] {injected : Multiset Packet} (hspec : RoutingSpec w ok)
    (hclosed : Closed w ok F) (hn : Routed (next w) ok (network v injected))
    {q e : Port D (m.elems c)} {y : Packet} (hwon : winner (v.nodes c) e = some q)
    (hy : held v (inpAt c q) = some y) (hold : Old T y) (hq : inpAt c q ∈ F) (he : outAt c e ∉ F) :
    (oldIn T F (arbitrateAt c v)).card < (oldIn T F v).card := by
  have hfreed : ∀ {o q'}, winner (v.nodes c) o = some q' →
      inpAt c q' ∉ oldIn T F (arbitrateAt c v) := fun hwon hmem => by
      obtain ⟨-, x, hx, -⟩ := mem_oldIn.1 hmem
      rw [held_arbitrateAt_freed hwon] at hx
      cases hx
  have hfrom : ∀ a ∈ oldIn T F (arbitrateAt c v), ∃ b ∈ (oldIn T F v).erase (inpAt c q),
      Origin c v a b := by
    intro a ha
    obtain ⟨hmem, x, hx, hxold⟩ := mem_oldIn.1 ha
    have hstays : held v a = some x → a ∈ (oldIn T F v).erase (inpAt c q) := fun hbefore =>
      Finset.mem_erase.2 ⟨fun h => hfreed hwon (h ▸ ha), mem_oldIn.2 ⟨hmem, x, hbefore, hxold⟩⟩
    rcases a with ⟨c', p⟩ | ⟨c', o⟩
    · refine ⟨_, hstays ?_, .stays⟩
      by_cases hc : c' = c
      · subst hc
        rcases held_arbitrateAt_inp (v := v) p with hsame | hnone
        · rw [← hsame, hx]
        · rw [hnone] at hx
          cases hx
      · rw [← (held_arbitrateAt_other hc p).2, hx]
    · by_cases hc : c' = c
      · subst hc
        cases hw : winner (v.nodes c') o with
        | none => exact ⟨_, hstays ((held_arbitrateAt_none hw).symm.trans hx), .stays⟩
        | some q' =>
            have hbefore : held v (inpAt c' q') = some x := (held_arbitrateAt_won hw).symm.trans hx
            obtain ⟨-, -, hwants⟩ := winner_wants hw
            rw [(Reg.held_eq_some.1 hbefore).2] at hwants
            have hok := hn.held (inpAt c' q') x hbefore
            have hmem' := hclosed _ _ x hok (next_inp hspec hwants) hmem
            refine ⟨_, Finset.mem_erase.2 ⟨fun h => ?_, mem_oldIn.2 ⟨hmem', x, hbefore, hxold⟩⟩,
              .moved hw⟩
            obtain rfl : q' = q := by
              cases h
              rfl
            obtain rfl := winner_inj (hspec.exclusive c') hw hwon
            exact he hmem
      · exact ⟨_, hstays ((held_arbitrateAt_other hc o).1.symm.trans hx), .stays⟩
  have hcard : (oldIn T F (arbitrateAt c v)).card ≤ ((oldIn T F v).erase (inpAt c q)).card := by
    refine Finset.card_le_card_of_forall_subsingleton _ hfrom fun b _ a ha a' ha' => ?_
    obtain ⟨hmem, horigin⟩ := ha
    obtain ⟨hmem', horigin'⟩ := ha'
    cases horigin with
    | stays =>
        cases horigin' with
        | stays => rfl
        | moved hw => exact absurd hmem (hfreed hw)
    | moved hw =>
        cases horigin' with
        | stays => exact absurd hmem' (hfreed hw)
        | moved hw' => rw [winner_inj (hspec.exclusive c) hw hw']
  exact hcard.trans_lt (Finset.card_erase_lt_of_mem (mem_oldIn.2 ⟨hq, y, hy, hold⟩))

/-! ## Drives -/

section Drives

variable (ha : Admits w ok addressed)
include ha

/-- A drive of a reachable run succeeds. -/
theorem drive_some (hr : r.Reachable addressed) (hd : Accepting m addressed d) :
    ∃ r', r.drive d = some r' ∧ r'.Reachable addressed := by
  have hn := reachable_routed ha hr
  cases d with
  | clock c answer =>
      have hans : ∀ comp, answer comp = .OK ∨ answer comp = .EBUSY := fun comp => .inl (hd comp)
      obtain ⟨s', hs', -⟩ := clock_some ha.stamps ha.spec hans hn c
      exact ⟨_, by simp [Run.drive, hs'], hr.tail (.clock c answer hans s' hs')⟩
  | inject c i pkt =>
      obtain ⟨⟨hi, hport⟩, haddr⟩ := hd
      obtain ⟨x, hx⟩ : ∃ x, receive r.state c (.elem c i) pkt = some x :=
        ⟨_, receive_elem (i := ⟨i, hi⟩) ha.stamps w hport pkt⟩
      exact ⟨_, by simp [Run.drive, hx], hr.tail (.inject c ⟨i, hi⟩ hport pkt haddr x.1 x.2 hx)⟩

/-- A window goes through. -/
theorem window_some (hr : r.Reachable addressed) (hds : ∀ d ∈ ds, Accepting m addressed d) :
    ∃ r', ds.foldlM Run.drive r = some r' ∧ r'.Reachable addressed :=
  Fold.foldlM_some (fun r : Run m => r.Reachable addressed)
    (fun _ d hd hr => drive_some ha hr (hds d hd)) hr

/-- An injection is refused or fills a free element input. -/
theorem drive_inject {i : Nat} {pkt : Packet} (hport : ∃ h : i < m.elems c,
      m.ports c (.elem ⟨i, h⟩) = some (.elem c i))
    (h : r.drive (.inject c i pkt) = some r') :
    r' = r ∨ ∃ i' : Fin (m.elems c), held r.state (inpAt c (.elem i')) = none ∧
      r' = ⟨setInp r.state c (.elem i')
        ⟨{ pkt with timestamp := (r.state.nodes c).timestamp }, true⟩,
        ⟨c, i, pkt, (r.state.nodes c).timestamp⟩ :: r.injected⟩ := by
  obtain ⟨hi, hport⟩ := hport
  have hreceive := receive_elem (i := ⟨i, hi⟩) (s := r.state) ha.stamps w hport pkt
  simp only [Run.drive, hreceive, Option.bind_eq_bind, Option.bind_some, Option.pure_def,
    Option.some.injEq] at h
  subst h
  split
  case isTrue => exact .inl rfl
  case isFalse hbusy =>
    refine .inr ⟨⟨i, hi⟩, Reg.held_eq_none.2 (by simpa using hbusy), rfl⟩

end Drives

/-- Accepting drives lead from reachable runs to reachable runs. -/
theorem drive_reachable (hr : r.Reachable addressed) (hd : Accepting m addressed d)
    (h : r.drive d = some r') : r'.Reachable addressed := by
  refine hr.trans ?_
  cases d with
  | clock c answer =>
      obtain ⟨s', hclock, h⟩ := Option.bind_eq_some_iff.1 h
      cases h
      exact .single (.clock c answer (fun comp => .inl (hd comp)) s' hclock)
  | inject c i pkt =>
      obtain ⟨⟨hi, hport⟩, haddr⟩ := hd
      obtain ⟨⟨ret, s'⟩, hreceive, h⟩ := Option.bind_eq_some_iff.1 h
      cases h
      exact .single (.inject c ⟨i, hi⟩ hport pkt haddr ret s' hreceive)

/-! ## Windows of accepting elements -/

section Window

variable [Fintype D] (ha : Admits w ok addressed) (hdirs : m.dirs.Nodup)
include ha hdirs

/-- A clock goes through its two phases. -/
theorem drive_clock {answer : Comp N → Stat} (hr : r.Reachable addressed)
    (hans : ∀ comp, answer comp = .OK) (h : r.drive (.clock c answer) = some r') :
    ∃ v, clockOutputs answer c (tick r.state c) = some v ∧
      r' = { r with state := arbitrateAt c v } ∧ Served w c r.state v ∧ Shifts w r.state v ∧
      Shifts w v (arbitrateAt c v) := by
  have hn := reachable_routed ha hr
  obtain ⟨t, hclock, h⟩ := Option.bind_eq_some_iff.1 h
  cases h
  obtain ⟨v, hout, rfl⟩ := clock_phases ha.spec hdirs hclock
  have htick : Shift w r.state (tick r.state c) := .stays (held_tick c) rfl
  have hnt := Moves.routed (ok_next ha.spec) (htick.moves r.stamped) hn
  obtain ⟨hshifts, hserved⟩ := clockOutputs_served ha.stamps ha.spec hans hnt hout
  obtain ⟨v', hout', hprop⟩ := Option.bind_eq_some_iff.1 hclock
  obtain rfl := Option.some.inj (hout.symm.trans hout')
  refine ⟨v, hout, rfl, ?_, .head htick hshifts, ?_⟩
  · exact ⟨fun c' p hc => (hserved.other c' p hc).trans (congrFun (held_tick c) _),
      fun p => (hserved.out p).imp_left fun h => h.trans (congrFun (held_tick c) _),
      fun c' p x hx => hserved.inp c' p x ((congrFun (held_tick c) _).trans hx),
      fun c' i => (hserved.elem c' i).trans (congrFun (held_tick c) _),
      fun hlink hfree => hserved.fed hlink ((congrFun (held_tick c) _).trans hfree)⟩
  · exact Fold.foldlM_rel (Shifts w) (fun _ => .refl) (fun _ _ _ => .trans)
      (fun _ _ _ _ hstep => .single (propagateTo_shift ha.spec hstep)) hprop

/-- What both phases of the clocks keep, and the injections under the condition that they meet,
holds of all states that a window passes. -/
theorem sees_induct {P : MeshState m → Prop} {C : Run m → Drive N → Prop}
    (hr : r.Reachable addressed) (hds : ∀ d ∈ ds, Accepting m addressed d)
    (hcond : Fold.Along Run.drive C ds r) (hstart : P r.state)
    (hout : ∀ c s v, Mid c ds r v → P s → Served w c s v → P v)
    (harb : ∀ c v, Mid c ds r v → Sees ds r (arbitrateAt c v) → P v → P (arbitrateAt c v))
    (hinj : ∀ (r : Run m) c i pkt (i' : Fin (m.elems c)), C r (.inject c i pkt) →
      held r.state (inpAt c (.elem i')) = none → P r.state → P (setInp r.state c (.elem i')
        ⟨{ pkt with timestamp := (r.state.nodes c).timestamp }, true⟩))
    (hu : Sees ds r u) : P u := by
  induction hu with
  | here => exact hstart
  | @between c answer ds r v h =>
      obtain ⟨r', hdrive, -⟩ := drive_some ha hr (hds _ List.mem_cons_self)
      obtain ⟨v', hv', -, hserved, -⟩ := drive_clock ha hdirs hr (hds _ List.mem_cons_self) hdrive
      obtain rfl := Option.some.inj (h.symm.trans hv')
      exact hout c r.state v (.here h) hstart hserved
  | @later d ds r r₁ u h hu ih =>
      have hd := hds d List.mem_cons_self
      have hr₁ := drive_reachable hr hd h
      have hrest : P r₁.state → P u := fun hstart₁ =>
        ih hr₁ (fun d hd => hds d (List.mem_cons_of_mem _ hd)) (hcond.2 r₁ h) hstart₁
          (fun c s v hv => hout c s v (.later h hv))
          (fun c v hv hseen => harb c v (.later h hv) (.later h hseen))
      cases d with
      | clock c answer =>
          obtain ⟨v, hv, rfl, hserved, -⟩ := drive_clock ha hdirs hr hd h
          have hmid : Mid c (.clock c answer :: ds) r v := .here hv
          exact hrest (harb c v hmid (.later h .here) (hout c r.state v hmid hstart hserved))
      | inject c i pkt =>
          obtain rfl | ⟨i', hfree, rfl⟩ := drive_inject ha hd.1 h
          · exact hrest hstart
          · exact hrest (hinj r c i pkt i' hcond.1 hfree hstart)

/-- A drive that lets only young packets in takes no more old packets into a closed set. -/
theorem drive_oldIn (hclosed : Closed w ok F) (hr : r.Reachable addressed)
    (hd : Accepting m addressed d) (hlate : Late T [d] r) (h : r.drive d = some r') :
    (oldIn T F r'.state).card ≤ (oldIn T F r.state).card := by
  have hn := reachable_routed ha hr
  cases d with
  | clock c answer =>
      obtain ⟨v, -, rfl, -, hshifts, hshifts'⟩ := drive_clock ha hdirs hr hd h
      exact shifts_oldIn ha.spec hclosed hn (hshifts.trans hshifts')
  | inject c i pkt =>
      obtain rfl | ⟨i', hfree, rfl⟩ := drive_inject ha hd.1 h
      · exact Nat.le_refl _
      · refine Finset.card_le_card fun p hp => ?_
        obtain ⟨hmem, x, hx, hold⟩ := mem_oldIn.1 hp
        rw [held_setInp] at hx
        by_cases hpe : p = inpAt c (.elem i')
        · subst hpe
          rw [Function.update_self] at hx
          cases hx
          exact absurd hold (Nat.not_le.2 hlate.1)
        · rw [Function.update_of_ne hpe] at hx
          exact mem_oldIn.2 ⟨hmem, x, hx, hold⟩

/-- In a window in which only young packets enter, there come no more old packets into a closed
set. -/
theorem sees_oldIn (hclosed : Closed w ok F) (hr : r.Reachable addressed)
    (hds : ∀ d ∈ ds, Accepting m addressed d) (hlate : Late T ds r) (hu : Sees ds r u) :
    (oldIn T F u).card ≤ (oldIn T F r.state).card := by
  induction hu with
  | here => exact Nat.le_refl _
  | @between c answer ds r v h =>
      have hd := hds (.clock c answer) List.mem_cons_self
      obtain ⟨r₁, hdrive, -⟩ := drive_some ha hr hd
      obtain ⟨v', hv', -, -, hshifts, -⟩ := drive_clock ha hdirs hr hd hdrive
      obtain rfl := Option.some.inj (h.symm.trans hv')
      exact shifts_oldIn ha.spec hclosed (reachable_routed ha hr) hshifts
  | @later d ds r r₁ u h hu ih =>
      have hd := hds d List.mem_cons_self
      have hone : Late T [d] r := ⟨hlate.1, fun _ _ => trivial⟩
      exact (ih (drive_reachable hr hd h) (fun d hd => hds d (List.mem_cons_of_mem _ hd))
        (hlate.2 r₁ h)).trans (drive_oldIn ha hdirs hclosed hr hd hone h)

/-- There are not more old packets in a closed set after a window than in a state that it passes. -/
theorem last_oldIn (hclosed : Closed w ok F) (hr : r.Reachable addressed)
    (hds : ∀ d ∈ ds, Accepting m addressed d) (hlate : Late T ds r) (hu : Sees ds r u)
    (hrun : ds.foldlM Run.drive r = some r') :
    (oldIn T F r'.state).card ≤ (oldIn T F u).card := by
  induction hu with
  | here => exact sees_oldIn ha hdirs hclosed hr hds hlate (Sees.last hrun)
  | @between c answer ds r v h =>
      obtain ⟨r₁, hdrive, hrest⟩ := Option.bind_eq_some_iff.1 hrun
      have hd := hds (.clock c answer) List.mem_cons_self
      obtain ⟨v', hv', rfl, -, hshifts, hshifts'⟩ := drive_clock ha hdirs hr hd hdrive
      obtain rfl := Option.some.inj (h.symm.trans hv')
      have hnv := Moves.routed (ok_next ha.spec) (Shifts.moves r.stamped hshifts)
        (reachable_routed ha hr)
      exact (sees_oldIn ha hdirs hclosed (drive_reachable hr hd hdrive)
        (fun d hd => hds d (List.mem_cons_of_mem _ hd)) (hlate.2 _ hdrive) (Sees.last hrest)).trans
        (shifts_oldIn ha.spec hclosed hnv hshifts')
  | @later d ds r r₁ u h hu ih =>
      obtain ⟨r₁', hdrive, hrest⟩ := Option.bind_eq_some_iff.1 hrun
      obtain rfl := Option.some.inj (h.symm.trans hdrive)
      exact ih (drive_reachable hr (hds d List.mem_cons_self) h)
        (fun d hd => hds d (List.mem_cons_of_mem _ hd)) (hlate.2 r₁ h) hrest

end Window

end Gran.Mesh
