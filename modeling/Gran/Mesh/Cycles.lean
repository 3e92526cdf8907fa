import Gran.Mesh.Waiting

/-!
# Cycles

In a cycle every node is clocked once, in any order and with injections in between. The clock counts
of the nodes count the cycles until they wrap (`AtTime.cycles`), so that the packets that enter
after a cycle are younger than those accepted before.
-/

namespace Gran.Mesh

open PacketNet Relation

variable {N D : Type} [DecidableEq N] [DecidableEq D] {m : Mesh N D} {w : Wiring m}
  {ok : Place m → Packet → Prop} {addressed : Packet → Prop} {s t : MeshState m}
  {r r' : Run m} {d : Drive N} {ds : List (Drive N)} {c : N} {T : Nat}

/-! ## Cycles -/

/-- Whether a drive clocks a node. -/
def clocks (c : N) : Drive N → Bool
  | .clock c' _ => c' = c
  | .inject _ _ _ => false

/-- Drives that clock every node once, in any order and with injections in between. -/
structure Cycle (P : Drive N → Prop) (ds : List (Drive N)) : Prop where
  all : ∀ d ∈ ds, P d
  once : ∀ c, ds.countP (clocks c) = 1

/-- Cycles, one after the other. -/
inductive Cycles (P : Drive N → Prop) : Nat → List (Drive N) → Prop where
  | zero : Cycles P 0 []
  | succ {k : Nat} {ds ds' : List (Drive N)} (h : Cycle P ds) (h' : Cycles P k ds') :
      Cycles P (k + 1) (ds ++ ds')

variable {P : Drive N → Prop} {k n : Nat}

omit [DecidableEq D] in
/-- `clocks c` picks the drives that clock the node. -/
theorem clocks_iff : clocks c d = true ↔ ∃ answer, d = .clock c answer := by
  cases d with
  | clock c' answer => simp [clocks, eq_comm]
  | inject => simp [clocks]

/-- What holds of the drives of every cycle holds of all drives. -/
theorem Cycles.all (h : Cycles P k ds) : ∀ d ∈ ds, P d := by
  induction h with
  | zero => exact fun d hd => nomatch hd
  | succ h _ ih => exact List.forall_mem_append.2 ⟨h.all, ih⟩

/-- Every node is clocked once a cycle. -/
theorem Cycles.count (h : Cycles P k ds) (c : N) : ds.countP (clocks c) = k := by
  induction h with
  | zero => rfl
  | succ h _ ih => rw [List.countP_append, h.once, ih, Nat.add_comm]

/-- Cycles can be cut between any two of them. -/
theorem Cycles.split {j : Nat} (h : Cycles P (j + k) ds) :
    ∃ a b, ds = a ++ b ∧ Cycles P j a ∧ Cycles P k b := by
  induction j generalizing ds with
  | zero => exact ⟨[], ds, rfl, .zero, by rwa [Nat.zero_add] at h⟩
  | succ j ih =>
      rw [Nat.add_right_comm] at h
      cases h with
      | succ hfirst hrest =>
          obtain ⟨a, b, rfl, ha, hb⟩ := ih hrest
          exact ⟨_, b, (List.append_assoc ..).symm, .succ hfirst ha, hb⟩

/-- A cycle may be run again and again. -/
theorem Cycle.replicate (h : Cycle P ds) (k : Nat) :
    Cycles P k (List.replicate k ds).flatten := by
  induction k with
  | zero => exact .zero
  | succ k ih =>
      rw [List.replicate_succ, List.flatten_cons]
      exact .succ h ih

/-- Some cycle clocks the node. -/
theorem Cycles.clock (h : Cycles P (k + 1) ds) (c : N) : ∃ answer, Drive.clock c answer ∈ ds := by
  have hpos : 0 < ds.countP (clocks c) := by
    rw [h.count]
    exact Nat.succ_pos k
  obtain ⟨d, hd, hclocks⟩ := List.countP_pos_iff.1 hpos
  obtain ⟨answer, rfl⟩ := clocks_iff.1 hclocks
  exact ⟨answer, hd⟩

/-! ## Times -/

section Stamps

variable {answer : Comp N → Stat}

/-- Receiving a packet leaves all clock counts alone. -/
theorem receive_stamp {sender : Comp N} {pkt : Packet} {ret : Stat}
    (h : receive s c sender pkt = some (ret, t)) (c' : N) :
    (t.nodes c').timestamp = (s.nodes c').timestamp := by
  obtain ⟨⟨q, x⟩, -, h⟩ := Option.bind_eq_some_iff.1 h
  cases h
  exact setReg_stamp s (inpAt c q) _ c'

/-- Sending a packet leaves all clock counts alone. -/
theorem send_stamp {q : Port D (m.elems c)} {pkt : Packet} {ret : Stat}
    (h : send answer s c q pkt = some (ret, t)) (c' : N) :
    (t.nodes c').timestamp = (s.nodes c').timestamp := by
  unfold send at h
  split at h
  · cases h
  · exact receive_stamp h c'
  · cases h
    split <;> rfl

/-- Serving an output leaves all clock counts alone. -/
theorem clockOutput_stamp {q : Port D (m.elems c)} (h : clockOutput answer c s q = some t)
    (c' : N) : (t.nodes c').timestamp = (s.nodes c').timestamp := by
  unfold clockOutput at h
  split at h
  · obtain ⟨⟨ret, u⟩, hsend, h⟩ := Option.bind_eq_some_iff.1 h
    cases h
    split
    · exact send_stamp hsend c'
    · exact (setReg_stamp u (outAt c q) _ c').trans (send_stamp hsend c')
  · cases h
    rfl

/-- Filling an output leaves all clock counts alone. -/
theorem propagateTo_stamp {e : Option (Port D (m.elems c))} {q : Port D (m.elems c)}
    (h : propagateTo c e s q = some t) (c' : N) :
    (t.nodes c').timestamp = (s.nodes c').timestamp := by
  obtain ⟨⟨out, inp⟩, -, h⟩ := Option.bind_eq_some_iff.1 h
  cases h
  by_cases hc : c' = c
  · subst hc
    simp [setNode]
  · simp [setNode, hc]

/-- A clock counts itself at its node. -/
theorem clock_stamp (h : clock answer c s = some t) (c' : N) :
    (t.nodes c').timestamp = ((tick s c).nodes c').timestamp := by
  obtain ⟨u, hout, hprop⟩ := Option.bind_eq_some_iff.1 h
  have hsame : ∀ {l : List (Port D (m.elems c))} {f : MeshState m → _ → Option (MeshState m)}
      {s t : MeshState m}, (∀ s q t, q ∈ l → f s q = some t →
        (t.nodes c').timestamp = (s.nodes c').timestamp) → l.foldlM f s = some t →
      (t.nodes c').timestamp = (s.nodes c').timestamp := fun hf h =>
    Fold.foldlM_rel (fun s t : MeshState m => (t.nodes c').timestamp = (s.nodes c').timestamp)
      (fun _ => rfl) (fun _ _ _ h h' => h'.trans h) hf h
  exact (hsame (fun _ _ _ _ hstep => propagateTo_stamp hstep c') hprop).trans
    (hsame (fun _ _ _ _ hstep => clockOutput_stamp hstep c') hout)

/-- A drive counts at the node that it clocks, and a packet it injects has the time of its node. -/
theorem drive_stamp (h : r.drive d = some r') :
    (∀ c, (r'.state.nodes c).timestamp =
      (r.state.nodes c).timestamp + if clocks c d then 1 else 0) ∧
    ∀ x ∈ r'.stamped, x ∈ r.stamped ∨ ∃ c, x.timestamp = (r.state.nodes c).timestamp := by
  cases d with
  | clock c₁ answer =>
      obtain ⟨t, hclock, h⟩ := Option.bind_eq_some_iff.1 h
      cases h
      refine ⟨fun c => ?_, fun x hx => .inl hx⟩
      rw [clock_stamp hclock c]
      by_cases hc : c = c₁
      · subst hc
        simp [tick, setNode, clocks]
      · simp [tick, setNode, clocks, hc, Ne.symm hc]
  | inject c₁ i pkt =>
      obtain ⟨⟨ret, t⟩, hreceive, h⟩ := Option.bind_eq_some_iff.1 h
      cases h
      refine ⟨fun c => ?_, fun x hx => ?_⟩
      · rw [receive_stamp hreceive c]
        simp [clocks]
      · by_cases hret : ret = .OK
        · subst hret
          rcases List.mem_cons.1 (Multiset.mem_coe.1 hx) with rfl | hx
          · exact .inr ⟨c₁, rfl⟩
          · exact .inl hx
        · exact .inl (by simpa [Run.stamped, hret] using hx)

end Stamps

/-- A window in which no clock count wraps adds its clocks to them, stamps packets up to the last
times, and with times after any time that all nodes are past. -/
theorem window_stamp {B : Nat} (hB : B < 2 ^ 64)
    (hfits : ∀ c, (r.state.nodes c).timestamp.toNat + ds.countP (clocks c) ≤ B)
    (hold : ∀ x ∈ r.stamped, Old B x) (hrun : ds.foldlM Run.drive r = some r') :
    (∀ c, (r'.state.nodes c).timestamp.toNat =
      (r.state.nodes c).timestamp.toNat + ds.countP (clocks c)) ∧
    (∀ x ∈ r'.stamped, Old B x) ∧
    ∀ T, (∀ c, T < (r.state.nodes c).timestamp.toNat) → Late T ds r := by
  induction ds generalizing r with
  | nil =>
      cases hrun
      exact ⟨fun _ => rfl, hold, fun _ _ => trivial⟩
  | cons d ds ih =>
      obtain ⟨r₁, hd, hrest⟩ := Option.bind_eq_some_iff.1 hrun
      obtain ⟨hclock, hstamp⟩ := drive_stamp hd
      have hcount : ∀ c, (r₁.state.nodes c).timestamp.toNat =
          (r.state.nodes c).timestamp.toNat + if clocks c d then 1 else 0 := by
        intro c
        have hc := hfits c
        rw [List.countP_cons] at hc
        rw [hclock c, BitVec.toNat_add]
        split at hc <;> simp_all <;> omega
      obtain ⟨hends, holds, hlate⟩ := ih (fun c => by
          have hc := hfits c
          rw [List.countP_cons] at hc
          rw [hcount c]
          omega)
        (fun x hx => by
          rcases hstamp x hx with hx | ⟨c, hx⟩
          · exact hold x hx
          · have hc := hfits c
            show x.timestamp.toNat ≤ B
            rw [hx]
            omega) hrest
      refine ⟨fun c => ?_, holds, fun T hT => ⟨?_, fun r₂ hr₂ => ?_⟩⟩
      · rw [hends c, hcount c, List.countP_cons]
        omega
      · cases d with
        | clock => trivial
        | inject c i pkt => exact hT c
      · obtain rfl := Option.some.inj (hd.symm.trans hr₂)
        exact hlate T fun c => by
          have hc := hT c
          rw [hcount c]
          omega

/-- A packet accepted stays accepted. -/
theorem stamped_le (hrun : ds.foldlM Run.drive r = some r') : r.stamped ≤ r'.stamped := by
  refine Fold.foldlM_rel (fun r r' : Run m => r.stamped ≤ r'.stamped) (fun _ => le_refl _)
    (fun _ _ _ => le_trans) (fun r d r' _ h => ?_) hrun
  cases d with
  | clock c answer =>
      obtain ⟨t, -, h⟩ := Option.bind_eq_some_iff.1 h
      cases h
      exact le_refl _
  | inject c i pkt =>
      obtain ⟨⟨ret, t⟩, -, h⟩ := Option.bind_eq_some_iff.1 h
      cases h
      simp only [Run.stamped]
      split
      · exact Multiset.le_cons_self _ _
      · exact le_refl _

/-- All nodes were clocked the same number of times, and every packet accepted has a timestamp of
this time or an earlier one. -/
structure AtTime (n : Nat) (r : Run m) : Prop where
  clock : ∀ c, (r.state.nodes c).timestamp.toNat = n
  stamp : ∀ x ∈ r.stamped, Old n x

/-- Cycles are counted. -/
theorem AtTime.cycles (h : AtTime n r) (hcycles : Cycles P k ds) (hword : n + k < 2 ^ 64)
    (hrun : ds.foldlM Run.drive r = some r') :
    AtTime (n + k) r' ∧ ∀ T < n, Late T ds r := by
  obtain ⟨hclock, hstamp, hlate⟩ := window_stamp hword
    (fun c => by rw [h.clock c, hcycles.count c])
    (fun x hx => (h.stamp x hx).trans (Nat.le_add_right n k)) hrun
  refine ⟨⟨fun c => by rw [hclock c, h.clock c, hcycles.count c], hstamp⟩, fun T hT => ?_⟩
  exact hlate T fun c => by rwa [h.clock c]

omit [DecidableEq N] [DecidableEq D] in
/-- A new mesh is at time 0. -/
theorem atTime_init : AtTime 0 (Run.init m) :=
  ⟨fun _ => rfl, fun x hx => by simp [Run.stamped, Run.init] at hx⟩

end Gran.Mesh
