import Gran.Mesh.Node3d
import Mathlib.Data.List.MinMax
import Mathlib.Data.List.ReduceOption

/-!
# The `propagate` calls of a clock as one arbitration

The calls of a clock share their input registers, and each of them frees the input that it chooses.
When no packet is wanted by two outputs, no call takes an input that another one would have chosen,
so the calls together do what each would do at the beginning (`propagate_eq_arbitrate`).
`node3d_arbitrates` is the result for `node3d_clock`.
-/

namespace Gran.Mesh

variable {N D : Type} {m : Mesh N D} {c : N}

/-! ## One arbitration -/

/-- The time that a packet in an input carries. -/
def age {n : Nat} (node : MeshNode D n) (q : Port D n) : Nat := (node.inp q).pkt.timestamp.toNat

/-- The busy element input with the least timestamp, the one with the lowest index on ties. -/
def eldestElem {n : Nat} (node : MeshNode D n) : Option (Port D n) :=
  (((List.finRange n).map Port.elem).filter fun q => (node.inp q).busy).argmin (age node)

/-- The inputs that compete for an output, in the order of its list: of the chosen element input and
the directional inputs, those with a packet that its selector accepts. -/
def contenders (node : MeshNode D (m.elems c)) (p : Port D (m.elems c)) :
    List (Port D (m.elems c)) :=
  (m.candidates c (eldestElem node) p).reduceOption.filter fun q =>
    (node.inp q).busy && m.wants c p (node.inp q).pkt

/-- The input that wins an output: the least timestamp, the first one of the list on ties. A busy
output has no winner. -/
def winner (node : MeshNode D (m.elems c)) (p : Port D (m.elems c)) :
    Option (Port D (m.elems c)) :=
  if (node.out p).busy then none else (contenders node p).argmin (age node)

/-- The inputs that win an output are freed. -/
def granted [Fintype D] [DecidableEq D] (node : MeshNode D (m.elems c)) (q : Port D (m.elems c)) :
    Reg :=
  if ∃ p, winner node p = some q then { node.inp q with busy := false } else node.inp q

/-- The outputs that are won hold the packet of the winner. -/
def filled (node : MeshNode D (m.elems c)) (p : Port D (m.elems c)) : Reg :=
  match winner node p with
  | none => node.out p
  | some q => ⟨(node.inp q).pkt, true⟩

/-- A node after all outputs chose at once. -/
def arbitrate [Fintype D] [DecidableEq D] (node : MeshNode D (m.elems c)) :
    MeshNode D (m.elems c) :=
  { node with inp := granted node, out := filled node }

/-- No packet is wanted by two outputs of a node. -/
def Exclusive (m : Mesh N D) (c : N) : Prop :=
  ∀ (pkt : Packet) (p p' : Port D (m.elems c)),
    m.wants c p pkt = true → m.wants c p' pkt = true → p = p'

/-! ## The scan of `propagate` -/

/-- The scan keeps the first of the willing candidates with the least timestamp. -/
theorem oldest_eq_foldl {Q : Type} (regs : Q → Reg) (sel : Reg → Bool) (r : Option Q)
    (l : List (Option Q)) :
    oldest regs sel r l =
      (l.reduceOption.filter fun q => (regs q).busy && sel (regs q)).foldl (List.argAux fun b c =>
        (regs b).pkt.timestamp.toNat < (regs c).pkt.timestamp.toNat) r := by
  fun_induction oldest regs sel r l with
  | case1 r => rfl
  | case2 r rest ih => rw [ih, List.reduceOption_cons_of_none]
  | case3 i rest hi ih =>
      rw [ih, List.reduceOption_cons_of_some, List.filter_cons, if_pos hi]
      rfl
  | case4 i rest hi q hlt ih =>
      rw [ih, List.reduceOption_cons_of_some, List.filter_cons, if_pos hi, List.foldl_cons]
      simp [List.argAux, BitVec.lt_def.1 hlt]
  | case5 i rest hi q hlt ih =>
      rw [ih, List.reduceOption_cons_of_some, List.filter_cons, if_pos hi, List.foldl_cons]
      simp [List.argAux, mt BitVec.lt_def.2 hlt]
  | case6 r i rest hi ih => rw [ih, List.reduceOption_cons_of_some, List.filter_cons, if_neg hi]

/-- A scan returns the first of the willing candidates with the least timestamp. -/
theorem oldest_eq_argmin {Q : Type} (regs : Q → Reg) (sel : Reg → Bool) (l : List (Option Q)) :
    oldest regs sel none l =
      (l.reduceOption.filter fun q => (regs q).busy && sel (regs q)).argmin
        fun q => (regs q).pkt.timestamp.toNat :=
  oldest_eq_foldl regs sel none l

theorem oldestElem_eq {n : Nat} (node : MeshNode D n) : oldestElem node = eldestElem node := by
  have hlist : ((List.finRange n).map fun i => some (Port.elem (D := D) i)).reduceOption =
      (List.finRange n).map Port.elem := by
    rw [List.reduceOption, List.filterMap_map]
    exact congrFun List.filterMap_eq_map _
  rw [oldestElem, oldest_eq_argmin, hlist]
  simp only [Bool.and_true]
  rfl

/-! ## The calls in order -/

section Calls

variable [Fintype D] [DecidableEq D]

/-- A node after the calls for some of its outputs. -/
def arbitrated (node : MeshNode D (m.elems c)) (calls : List (Port D (m.elems c))) :
    MeshNode D (m.elems c) :=
  { node with
    inp := fun q => if ∃ p ∈ calls, winner node p = some q then { node.inp q with busy := false }
      else node.inp q
    out := fun p => if p ∈ calls then filled node p else node.out p }

omit [Fintype D] in
theorem arbitrated_nil (node : MeshNode D (m.elems c)) : arbitrated node [] = node := by
  simp [arbitrated]

theorem arbitrated_all (node : MeshNode D (m.elems c)) {calls : List (Port D (m.elems c))}
    (hall : ∀ p, p ∈ calls) : arbitrated node calls = arbitrate node := by
  simp [arbitrated, arbitrate, hall]
  rfl

variable {node : MeshNode D (m.elems c)} {p q : Port D (m.elems c)}

omit [Fintype D] [DecidableEq D] in
/-- A winner is busy with a packet that its output wants, and the output is free. -/
theorem winner_wants (h : winner node p = some q) :
    (node.out p).busy = false ∧ (node.inp q).busy = true ∧
      m.wants c p (node.inp q).pkt = true := by
  unfold winner at h
  split at h
  case isTrue => cases h
  case isFalse hfree =>
    have hmem : q ∈ contenders node p := List.argmin_mem h
    have hwilling := (List.mem_filter.1 hmem).2
    rw [Bool.and_eq_true] at hwilling
    exact ⟨by simpa using hfree, hwilling⟩

omit [Fintype D] [DecidableEq D] in
/-- No input wins two outputs. -/
theorem winner_inj (hexcl : Exclusive m c) {p' : Port D (m.elems c)}
    (h : winner node p = some q) (h' : winner node p' = some q) : p = p' :=
  hexcl _ p p' (winner_wants h).2.2 (winner_wants h').2.2

omit [Fintype D] in
/-- The calls for other outputs change nothing for the scan of one output. -/
theorem oldest_arbitrated (node : MeshNode D (m.elems c)) (hexcl : Exclusive m c)
    {calls : List (Port D (m.elems c))} (hp : p ∉ calls) :
    oldest (arbitrated node calls).inp (fun reg => m.wants c p reg.pkt) none
        (m.candidates c (eldestElem node) p) =
      (contenders node p).argmin (age node) := by
  have hpkt : ∀ q, ((arbitrated node calls).inp q).pkt = (node.inp q).pkt := by
    intro q
    simp only [arbitrated]
    split <;> rfl
  have hwilling : ∀ q, (((arbitrated node calls).inp q).busy &&
      m.wants c p ((arbitrated node calls).inp q).pkt) =
        ((node.inp q).busy && m.wants c p (node.inp q).pkt) := by
    intro q
    rw [hpkt]
    by_cases hwon : ∃ p' ∈ calls, winner node p' = some q
    · -- the packet that was moved is not wanted here
      obtain ⟨p', hmem, hp'⟩ := hwon
      have hunwanted : m.wants c p (node.inp q).pkt = false := by
        by_contra hwants
        rw [Bool.not_eq_false] at hwants
        obtain rfl := hexcl _ p p' hwants (winner_wants hp').2.2
        exact hp hmem
      rw [hunwanted, Bool.and_false, Bool.and_false]
    · simp [arbitrated, hwon]
  have hage : (fun q => ((arbitrated node calls).inp q).pkt.timestamp.toNat) = age node := by
    funext q
    rw [hpkt]
    rfl
  rw [oldest_eq_argmin, hage, List.filter_congr fun q _ => hwilling q]
  rfl

omit [Fintype D] in
/-- One more call for an output without a winner. -/
theorem arbitrated_none {calls : List (Port D (m.elems c))} (hp : p ∉ calls)
    (h : winner node p = none) :
    arbitrated node (calls ++ [p]) = { arbitrated node calls with
      out := Function.update (arbitrated node calls).out p ((arbitrated node calls).out p) } := by
  have hself : (arbitrated node calls).out p = node.out p := if_neg hp
  simp only [arbitrated, MeshNode.mk.injEq, true_and]
  refine ⟨?_, ?_⟩
  · funext q
    simp [h]
  · funext p'
    by_cases hp' : p' = p
    · subst hp'
      simp [filled, h]
    · simp [hp']

omit [Fintype D] in
/-- One more call for an output that an input wins. -/
theorem arbitrated_some (hexcl : Exclusive m c) {calls : List (Port D (m.elems c))} (hp : p ∉ calls)
    (h : winner node p = some q) :
    (arbitrated node calls).inp q = node.inp q ∧
      arbitrated node (calls ++ [p]) = { arbitrated node calls with
        inp := Function.update (arbitrated node calls).inp q { node.inp q with busy := false }
        out := Function.update (arbitrated node calls).out p ⟨(node.inp q).pkt, true⟩ } := by
  refine ⟨?_, ?_⟩
  · -- no other output was won by this input
    refine if_neg ?_
    rintro ⟨p', hmem, hp'⟩
    obtain rfl := winner_inj hexcl h hp'
    exact hp hmem
  · simp only [arbitrated, MeshNode.mk.injEq, true_and]
    refine ⟨?_, ?_⟩
    · funext q'
      by_cases hq : q' = q
      · subst hq
        simp [h]
      · simp [h, Ne.symm hq, hq]
    · funext p'
      by_cases hp' : p' = p
      · subst hp'
        simp [filled, h]
      · simp [hp']

variable [DecidableEq N] {s : MeshState m}

omit [Fintype D] [DecidableEq D] in
theorem setNode_nodes (s : MeshState m) (c : N) (node : MeshNode D (m.elems c)) :
    (setNode s c node).nodes c = node := Function.update_self ..

omit [Fintype D] [DecidableEq D] in
theorem setNode_setNode (s : MeshState m) (c : N) (node node' : MeshNode D (m.elems c)) :
    setNode (setNode s c node) c node' = setNode s c node' := by
  simp [setNode]

omit [Fintype D] in
/-- A call does for its output what the output would do at the beginning. -/
theorem propagateTo_arbitrated (hexcl : Exclusive m c) {calls : List (Port D (m.elems c))}
    (hp : p ∉ calls) :
    propagateTo c (eldestElem node) (setNode s c (arbitrated node calls)) p =
      some (setNode s c (arbitrated node (calls ++ [p]))) := by
  have hscan := oldest_arbitrated node hexcl hp
  have hself : (arbitrated node calls).out p = node.out p := if_neg hp
  simp only [propagateTo, setNode_nodes, setNode_setNode, propagate]
  cases hchosen : (contenders node p).argmin (age node) with
  | none =>
      have hwinner : winner node p = none := by
        rw [winner, hchosen, ite_self]
      rw [hscan, hchosen, arbitrated_none hp hwinner]
      rfl
  | some q =>
      rw [hscan, hchosen]
      cases hbusy : (node.out p).busy with
      | true =>
          have hwinner : winner node p = none := if_pos hbusy
          have hq : ((arbitrated node calls).inp q).busy = true := by
            rcases oldest_some (hscan.trans hchosen) with h | ⟨-, h, -⟩
            · cases h
            · exact h
          rw [arbitrated_none hp hwinner]
          simp [copyReg, hq, hself, hbusy]
      | false =>
          have hwinner : winner node p = some q := by
            rw [winner, hbusy, hchosen]
            rfl
          obtain ⟨hinp, hnext⟩ := arbitrated_some hexcl hp hwinner
          have hq : (node.inp q).busy = true := (winner_wants hwinner).2.1
          rw [hnext]
          simp [copyReg, hinp, hq, hself, hbusy]

/-- The calls of a clock, in any order, do what all outputs would do at once. -/
theorem propagate_eq_arbitrate (hexcl : Exclusive m c) {calls : List (Port D (m.elems c))}
    (hnodup : calls.Nodup) (hall : ∀ p, p ∈ calls) (s : MeshState m) :
    calls.foldlM (propagateTo c (oldestElem (s.nodes c))) s =
      some (setNode s c (arbitrate (s.nodes c))) := by
  rw [oldestElem_eq, ← arbitrated_all (s.nodes c) hall]
  generalize hnode : s.nodes c = node
  have hloop : ∀ (later earlier : List (Port D (m.elems c))), (earlier ++ later).Nodup →
      later.foldlM (propagateTo c (eldestElem node)) (setNode s c (arbitrated node earlier)) =
        some (setNode s c (arbitrated node (earlier ++ later))) := by
    intro later
    induction later with
    | nil => intro earlier _; simp
    | cons p later ih =>
        intro earlier hdistinct
        have hp : p ∉ earlier := by
          intro hmem
          have hdisj := List.disjoint_of_nodup_append hdistinct
          exact hdisj hmem (by simp)
        rw [List.foldlM_cons, propagateTo_arbitrated hexcl hp]
        have hrest := ih (earlier ++ [p]) (by simpa using hdistinct)
        simpa using hrest
  have hstart : setNode s c (arbitrated node []) = s := by
    rw [arbitrated_nil, ← hnode]
    simp [setNode]
  have h := hloop calls [] (by simpa using hnodup)
  rw [hstart] at h
  simpa using h

end Calls

end Gran.Mesh

namespace Gran.Node3d

open Mesh

/-- The direction in which a node sends a packet, `none` for a packet that has arrived. -/
def heading (helper : SelHelper) (pkt : Packet) : Option Dir3 :=
  let a := addrMesh3d pkt.dst
  if a.y > helper.y then some .north
  else if a.y < helper.y then some .south
  else if a.x > helper.x then some .east
  else if a.x < helper.x then some .west
  else if a.z > helper.z then some .up
  else if a.z < helper.z then some .down
  else none

theorem heading_of_dirSel {helper : SelHelper} {pkt : Packet} {d : Dir3}
    (h : dirSel helper d pkt = true) : heading helper pkt = some d := by
  cases d <;>
    simp only [dirSel, northSel, eastSel, southSel, westSel, upSel, downSel, Bool.and_eq_true,
      beq_iff_eq, decide_eq_true_iff] at h <;>
    simp only [heading] <;> split_ifs <;> first | rfl | (exfalso; bv_omega)

theorem heading_of_elemSel {helper : SelHelper} {pkt : Packet} (h : elemSel helper pkt = true) :
    heading helper pkt = none := by
  simp only [elemSel, Bool.and_eq_true, beq_iff_eq] at h
  obtain ⟨⟨⟨hx, hy⟩, hz⟩, -⟩ := h
  simp [heading, hx, hy, hz]

variable {N : Type} [DecidableEq N] {helper : N → SelHelper} {elems : N → BitVec 8}
  {ports : (c : N) → Port Dir3 (elems c).toNat → Option (Comp N)}

/-- Nodes that `create_mesh_node3d` makes, connected in any way. -/
def mesh (helper : N → SelHelper) (elems : N → BitVec 8)
    (ports : (c : N) → Port Dir3 (elems c).toNat → Option (Comp N)) : Mesh N Dir3 where
  toNodeKind := kind helper
  elems c := (elems c).toNat
  ports := ports

/-- A packet is wanted by one output of a node at most. -/
theorem exclusive (c : N) : Exclusive (mesh helper elems ports) c := by
  intro pkt p p' hp hp'
  rcases p with i | d <;> rcases p' with j | d'
  · have hi : elemSel { helper c with elem := BitVec.ofNat 8 i } pkt = true := hp
    have hj : elemSel { helper c with elem := BitVec.ofNat 8 j } pkt = true := hp'
    simp only [elemSel, Bool.and_eq_true, beq_iff_eq] at hi hj
    have hsame : BitVec.ofNat 8 i.val = BitVec.ofNat 8 j.val := hi.2.symm.trans hj.2
    have hval := congrArg BitVec.toNat hsame
    have hi256 : i.val < 2 ^ 8 := i.isLt.trans (elems c).isLt
    have hj256 : j.val < 2 ^ 8 := j.isLt.trans (elems c).isLt
    rw [BitVec.toNat_ofNat, BitVec.toNat_ofNat, Nat.mod_eq_of_lt hi256,
      Nat.mod_eq_of_lt hj256] at hval
    rw [Fin.ext hval]
  · have hi : elemSel { helper c with elem := BitVec.ofNat 8 i } pkt = true := hp
    have harrived : heading (helper c) pkt = none := (heading_of_elemSel hi :)
    rw [heading_of_dirSel hp'] at harrived
    cases harrived
  · have hj : elemSel { helper c with elem := BitVec.ofNat 8 j } pkt = true := hp'
    have harrived : heading (helper c) pkt = none := (heading_of_elemSel hj :)
    rw [heading_of_dirSel hp] at harrived
    cases harrived
  · have hsame := (heading_of_dirSel hp).symm.trans (heading_of_dirSel hp')
    rw [Option.some.inj hsame]

/-- A clock calls `propagate` once for every output. -/
theorem propagateOrder_once (c : N) : ((mesh helper elems ports).propagateOrder c).Nodup ∧
    ∀ p, p ∈ (mesh helper elems ports).propagateOrder c := by
  have hdirs : (mesh helper elems ports).dirs.Nodup := by
    show [Dir3.north, .east, .south, .west, .up, .down].Nodup
    decide
  refine ⟨List.nodup_append'.2 ⟨hdirs.map fun _ _ h => by cases h; rfl,
    (List.nodup_finRange _).map fun _ _ h => by cases h; rfl, ?_⟩, fun p => ?_⟩
  · intro p hp hp'
    obtain ⟨d, -, rfl⟩ := List.mem_map.1 hp
    obtain ⟨i, -, hi⟩ := List.mem_map.1 hp'
    cases hi
  · cases p with
    | elem i => exact List.mem_append_right _ (List.mem_map.2 ⟨i, List.mem_finRange i, rfl⟩)
    | dir d => exact List.mem_append_left _ (List.mem_map.2 ⟨d, mem_dirs d, rfl⟩)

/-- `node3d_clock` arbitrates all outputs at once. After `clock_outputs`, whatever the registers
hold, each free output takes the oldest of the packets that compete for it and frees that input,
busy outputs and the other inputs stay as they are, and no input wins two outputs. -/
theorem node3d_arbitrates (helper : N → SelHelper) (elems : N → BitVec 8)
    (ports : (c : N) → Port Dir3 (elems c).toNat → Option (Comp N)) (answer : Comp N → Stat) (c : N)
    (s : MeshState (mesh helper elems ports)) :
    clock answer c s = (clockOutputs answer c (tick s c)).map
      (fun S => setNode S c (arbitrate (S.nodes c))) ∧
    ∀ (node : MeshNode Dir3 ((mesh helper elems ports).elems c))
      (p p' q : Port Dir3 ((mesh helper elems ports).elems c)),
      winner node p = some q → winner node p' = some q → p = p' := by
  obtain ⟨hnodup, hall⟩ := propagateOrder_once c
  refine ⟨?_, fun node p p' q hp hp' => winner_inj (exclusive c) hp hp'⟩
  rw [clock, Option.map_eq_bind]
  exact Option.bind_congr fun S _ => propagate_eq_arbitrate (exclusive c) hnodup hall S

end Gran.Node3d
