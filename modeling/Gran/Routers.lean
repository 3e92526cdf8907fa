import Gran.Bfly.FatBfly
import Gran.Cpu.SimpleRiscv64
import Gran.Mesh.Network
import Gran.Mesh.Node1d
import Gran.Mesh.Node2d
import Gran.Mesh.Node3d

/-!
# What routers do with packets that nobody takes

The clock of a router hands the packets in its output registers over. It keeps a packet that is
answered with `EBUSY`, and otherwise frees the register without a look at the answer, and it returns
`OK` in the end. A packet that was answered with an error is then in no register any more, and
nobody is told. `no_discard` says that this is what happens exactly when a component that is not a
node answers with an error.
-/

namespace Gran

/-- A step of the loop in which a router hands its output registers over, one after the other: the
register of this step, what the step does, and what the receiver answers. `outs` is all output
registers, those of other routers included. -/
structure HandOver (S K : Type) where
  outs : S → K → Reg
  own : K
  step : S → Option S
  answer : S → Option Stat

/-- An output register becomes free only if it is the one of the step and held a packet that the
receiver took, unless the clock returns what the receiver answered. -/
def HandOver.Keeps {S K : Type} (h : HandOver S K) (status : Stat) (s : S) : Prop :=
  ∀ s', h.step s = some s' → ∀ k, (h.outs s k).busy = true → (h.outs s' k).busy = false →
    k = h.own ∧ ∃ r, h.answer s = some r ∧ (r = .OK ∨ r = status)

/-- Receivers that take the packet or refuse it for now. -/
def Takes (r : Stat) : Prop := r = .OK ∨ r = .EBUSY

namespace HandOver

variable {S K : Type} [DecidableEq K]

/-- What a step does to the output registers: nothing, if its own is free, or its own becomes free
unless the answer is `EBUSY`. -/
inductive Step (h : HandOver S K) (s s' : S) : Prop where
  | idle (hfree : (h.outs s h.own).busy = false) (houts : h.outs s' = h.outs s)
  | sent (hbusy : (h.outs s h.own).busy = true) (r : Stat) (hanswer : h.answer s = some r)
      (houts : h.outs s' =
        Function.update (h.outs s) h.own { h.outs s h.own with busy := decide (r = .EBUSY) })

variable {h : HandOver S K} {s s' : S}

/-- Setting the flag of a busy register changes nothing. -/
theorem busy_self {r : Reg} (h : r.busy = true) : { r with busy := true } = r := by
  rw [← h]

/-- A step fills no register. -/
theorem Step.busy (hstep : h.Step s s') {k : K} (hk : (h.outs s' k).busy = true) :
    (h.outs s k).busy = true := by
  cases hstep with
  | idle hfree houts => rwa [houts] at hk
  | sent hbusy r hanswer houts =>
      by_cases hown : k = h.own
      · exact hown ▸ hbusy
      · rwa [houts, Function.update_of_ne hown] at hk

/-- A step changes no register but its own. -/
theorem Step.other (hstep : h.Step s s') {k : K} (hk : k ≠ h.own) : h.outs s' k = h.outs s k := by
  cases hstep with
  | idle hfree houts => rw [houts]
  | sent hbusy r hanswer houts => rw [houts, Function.update_of_ne hk]

/-- A step keeps its packet exactly if the receiver takes it or answers with `EBUSY`. -/
theorem Step.keeps_iff (hstep : h.Step s s') (hs : h.step s = some s') :
    h.Keeps .OK s ↔ ((h.outs s h.own).busy = true → ∀ r, h.answer s = some r → Takes r) := by
  constructor
  · intro hkeeps hbusy r hanswer
    by_cases hr : r = .EBUSY
    · exact .inr hr
    · have hfreed : (h.outs s' h.own).busy = false := by
        cases hstep with
        | idle hfree houts => rw [houts, hfree]
        | sent hbusy r' hanswer' houts =>
            cases hanswer.symm.trans hanswer'
            rw [houts, Function.update_self]
            exact decide_eq_false hr
      obtain ⟨-, r', hanswer', hok⟩ := hkeeps s' hs h.own hbusy hfreed
      cases hanswer.symm.trans hanswer'
      exact .inl (or_self_iff.1 hok)
  · intro htakes t ht k hbusy hfreed
    cases hs.symm.trans ht
    by_cases hown : k = h.own
    · subst hown
      cases hstep with
      | idle hfree houts =>
          rw [hfree] at hbusy
          cases hbusy
      | sent hbusy r hanswer houts =>
          rw [houts, Function.update_self] at hfreed
          have hr : r ≠ .EBUSY := of_decide_eq_false hfreed
          exact ⟨rfl, r, hanswer, .inl ((htakes hbusy r hanswer).resolve_right hr)⟩
    · rw [hstep.other hown, hbusy] at hfreed
      cases hfreed

end HandOver

namespace Mesh

variable {N D : Type} {m : Mesh N D} [DecidableEq N] [DecidableEq D]

/-- `node1d_clock`, `node2d_clock` and `node3d_clock` with the status they return. -/
def nodeClock (answer : Comp N → Stat) (c : N) (s : MeshState m) : Option (Stat × MeshState m) := do
  let s ← clock answer c s
  pure (.OK, s)

/-- The output registers of a mesh: a node and a port of it. -/
abbrev Out (m : Mesh N D) := (c : N) × Port D (m.elems c)

/-- An output register. -/
def outs (s : MeshState m) (k : Out m) : Reg := (s.nodes k.1).out k.2

/-- The step of `clock_outputs` for a port. -/
def outputOver (answer : Comp N → Stat) (c : N) (p : Port D (m.elems c)) :
    HandOver (MeshState m) (Out m) where
  outs := outs
  own := ⟨c, p⟩
  step s := clockOutput answer c s p
  answer s := (send answer s c p ((s.nodes c).out p).pkt).map Prod.fst

/-- A clock of a node discards no packet: its loop keeps them, and what follows frees no output
register. -/
structure NoDiscard (answer : Comp N → Stat) (c : N) (s : MeshState m) : Prop where
  keeps : ∀ status s', nodeClock answer c s = some (status, s') →
    Fold.Along (clockOutput answer c) (fun s p => (outputOver answer c p).Keeps status s)
      (m.portList c) (tick s c)
  stays : ∀ t s' r, (m.propagateOrder c).foldlM (propagateTo c r) t = some s' →
    ∀ k, (outs t k).busy = true → (outs s' k).busy = true

/-- The component behind a port answers a packet in its register with `OK` or `EBUSY`. -/
def Answered (answer : Comp N → Stat) (c : N) (p : Port D (m.elems c)) (s : MeshState m) : Prop :=
  (outs s ⟨c, p⟩).busy = true →
    ∀ c' i, m.ports c p = some (.elem c' i) → Takes (answer (.elem c' i))

variable {answer : Comp N → Stat} {c : N} {p : Port D (m.elems c)} {s s' : MeshState m}

/-- Nodes answer `OK` or `EBUSY`. -/
theorem receive_takes {sender : Comp N} {pkt : Packet} {r : Stat}
    (h : receive s c sender pkt = some (r, s')) : Takes r := by
  obtain ⟨⟨p, pkt'⟩, -, h⟩ := Option.bind_eq_some_iff.1 h
  dsimp only [placeReg] at h
  split at h
  · cases h
    exact .inr rfl
  · cases h
    exact .inl rfl

/-- Receiving leaves output registers alone. -/
theorem receive_outs {sender : Comp N} {pkt : Packet} {r : Stat}
    (h : receive s c sender pkt = some (r, s')) : outs s' = outs s := by
  obtain ⟨⟨p, pkt'⟩, -, h⟩ := Option.bind_eq_some_iff.1 h
  cases h
  funext ⟨c', q⟩
  by_cases hc : c' = c
  · subst hc
    simp [outs, setInp, setNode]
  · simp [outs, setInp, setNode, hc]

/-- Sending a packet leaves the outputs alone. -/
theorem send_outs {pkt : Packet} {r : Stat}
    (h : send answer s c p pkt = some (r, s')) : outs s' = outs s := by
  unfold send at h
  split at h
  · cases h
  · exact receive_outs h
  · cases h
    split <;> rfl

theorem outs_setOut (r : Reg) :
    outs (setOut s c p r) = Function.update (outs s) ⟨c, p⟩ r := by
  funext ⟨c', q⟩
  have hreg := congrFun (reg_setReg (s := s) (outAt c p) r) (outAt c' q)
  by_cases hk : (⟨c', q⟩ : Out m) = ⟨c, p⟩
  · cases hk
    simpa [reg, setReg, outs] using hreg
  · rw [Function.update_of_ne hk]
    rw [Function.update_of_ne fun h => hk (Sum.inr.inj h)] at hreg
    exact hreg

/-- Serving an output is a step of its slot. -/
theorem clockOutput_step (h : clockOutput answer c s p = some s') :
    (outputOver answer c p).Step s s' := by
  unfold clockOutput at h
  split at h
  case isFalse hfree =>
    cases h
    exact .idle (Bool.eq_false_iff.2 hfree) rfl
  case isTrue hbusy =>
    obtain ⟨⟨r, t⟩, hsend, h⟩ := Option.bind_eq_some_iff.1 h
    have houts : outs t = outs s := send_outs hsend
    refine .sent hbusy r (by simp [outputOver, hsend]) ?_
    show outs s' = Function.update (outs s) ⟨c, p⟩ _
    dsimp only at h
    split at h
    case isTrue hr =>
      cases h
      rw [hr, houts, decide_eq_true rfl]
      exact (Function.update_eq_self_iff.2 (HandOver.busy_self hbusy)).symm
    case isFalse hr =>
      cases h
      rw [outs_setOut, houts, decide_eq_false hr]
      show _ = Function.update (outs s) ⟨c, p⟩ { outs s ⟨c, p⟩ with busy := false }
      rw [← houts]
      rfl

/-- The answers to a packet that are neither `OK` nor `EBUSY` come from components that are not
nodes. -/
theorem answered_iff :
    ((outs s ⟨c, p⟩).busy = true → ∀ r, (outputOver answer c p).answer s = some r → Takes r) ↔
      Answered answer c p s := by
  refine imp_congr_right fun hbusy => ?_
  simp only [outputOver, Option.map_eq_some_iff]
  constructor
  · intro htakes c' i hport
    exact htakes _ ⟨_, by rw [send, hport], rfl⟩
  · rintro helems r ⟨⟨r', t⟩, hsend, rfl⟩
    unfold send at hsend
    split at hsend
    · cases hsend
    · exact receive_takes hsend
    case h_3 c' i hport =>
      cases hsend
      exact helems c' i hport

omit [DecidableEq N] [DecidableEq D] in
/-- Different ports have different outputs. -/
theorem out_ne {q : Port D (m.elems c)} (hq : q ≠ p) : (⟨c, q⟩ : Out m) ≠ ⟨c, p⟩ := by
  intro h
  cases h
  exact hq rfl

/-- `propagate` frees no output register. -/
theorem propagateTo_busy {r : Option (Port D (m.elems c))} (h : propagateTo c r s p = some s')
    (k : Out m) (hk : (outs s k).busy = true) : (outs s' k).busy = true := by
  obtain ⟨⟨out, inp⟩, hprop, h⟩ := Option.bind_eq_some_iff.1 h
  obtain ⟨out', inp', hprop', hspec⟩ := propagate_spec ((s.nodes c).out p) (s.nodes c).inp
    (m.candidates c r p) fun reg => m.wants c p reg.pkt
  cases hprop'.symm.trans hprop
  cases h
  obtain ⟨c', q⟩ := k
  have hout : (outs s ⟨c, p⟩).busy = true → out.busy = true := by
    intro hbusy
    cases hspec with
    | idle => exact hbusy
    | blocked => exact hbusy
    | moved q hfree => rfl
  by_cases hc : c' = c
  · subst hc
    by_cases hq : q = p
    · subst hq
      simpa [outs, setNode] using hout hk
    · simpa [outs, setNode, hq] using hk
  · simpa [outs, setNode, hc] using hk

/-- A clock of a node discards no packet exactly if the components that are not nodes answer the
packets they are sent with `OK` or `EBUSY`. -/
theorem noDiscard_iff (h : clock answer c s = some s') :
    NoDiscard answer c s ↔ ∀ p ∈ m.portList c, Answered answer c p s := by
  obtain ⟨t, hloop, hrest⟩ := Option.bind_eq_some_iff.1 h
  have htick : ∀ p, Answered answer c p (tick s c) ↔ Answered answer c p s := by
    intro p
    have hout : outs (tick s c) ⟨c, p⟩ = outs s ⟨c, p⟩ := by
      simp [outs, tick, setNode]
    rw [Answered, Answered, hout]
  have halong : Fold.Along (clockOutput answer c) (fun s p => (outputOver answer c p).Keeps .OK s)
      (m.portList c) (tick s c) ↔ ∀ p ∈ m.portList c, Answered answer c p s := by
    rw [Fold.along_congr (fun s p s' h =>
        ((clockOutput_step h).keeps_iff h).trans answered_iff) hloop,
      Fold.along_iff (fun p s => Answered answer c p s) (fun _ _ => Iff.rfl) ?_ ?_ hloop]
    · exact forall₂_congr fun p _ => htick p
    · intro s p s' q h hanswered hbusy
      exact hanswered ((clockOutput_step h).busy hbusy)
    · intro s p s' q hq h hanswered hbusy
      have hsame : outs s' ⟨c, q⟩ = outs s ⟨c, q⟩ := (clockOutput_step h).other (out_ne hq)
      exact hanswered (by rw [hsame]; exact hbusy)
  rw [← halong]
  constructor
  · intro hkeeps
    exact hkeeps.keeps .OK s' (by rw [nodeClock, h]; rfl)
  · intro hkeeps
    refine ⟨fun status s'' h' => ?_, fun t s'' r hloop k hk => ?_⟩
    · rw [nodeClock, h] at h'
      cases h'
      exact hkeeps
    · exact Fold.foldlM_keep (fun s => (outs s k).busy = true)
        (fun _ _ _ _ hk h => propagateTo_busy h k hk) hk hloop

end Mesh

namespace FatBfly

variable {C : Type} (b : FatBfly C)

/-- `fat_bfly_clock` with the status it returns. -/
def bflyClock (answer : Nat → Stat) (s : State C) : Option (Stat × State C) := do
  let s ← b.fatBflyClock answer s
  pure (.OK, s)

/-- An output register: its layer, its node and its index in the bank. -/
def outs (s : State C) (k : Nat × Nat × Nat) : Reg := s.reg (.out k.1 k.2.1 k.2.2)

/-- The step of the first loop of `fat_bfly_clock` for a component. -/
def topOver (answer : Nat → Stat) (i : Nat) : HandOver (State C) (Nat × Nat × Nat) where
  outs := outs
  own := (0, 0, i)
  step s := b.sendOut answer s i
  answer _ := some (answer i)

/-- The step of the first loop of `node_clock`, which hands a packet to the parent node. -/
def upOver (height i j k : Nat) : HandOver (State C) (Nat × Nat × Nat) where
  outs := outs
  own := (i, j, k)
  step s := b.pushUp height i j s k
  answer s := do
    let r ← b.read s (.out i j k)
    let (ret, _) ←
      b.nodeReceive s (i - 1) (j / 2) r.pkt k (elemOf r.pkt.dst >>> height &&& 1 = 1)
    pure ret

/-- A clock of the butterfly discards no packet: its loops keep them, and the other loops free no
output register. -/
structure NoDiscard (answer : Nat → Stat) (s : State C) : Prop where
  top : ∀ status s', b.bflyClock answer s = some (status, s') →
    Fold.Along (b.sendOut answer) (fun s i => (b.topOver answer i).Keeps status s)
      (List.range b.elems.toNat) s
  up : ∀ height i j k t, (b.upOver height i j k).Keeps .OK t
  populates : ∀ count height i j l t t', b.populate count height i j t l = some t' →
    ∀ k, (outs t k).busy = true → (outs t' k).busy = true
  enters : ∀ i t t', b.pushIn t i = some t' →
    ∀ k, (outs t k).busy = true → (outs t' k).busy = true

/-- The component of an output register answers a packet in it with `OK` or `EBUSY`. -/
def Answered (answer : Nat → Stat) (i : Nat) (s : State C) : Prop :=
  (outs s (0, 0, i)).busy = true → Takes (answer i)

variable {b} {answer : Nat → Stat} {s s' : State C} {i : Nat}

theorem outs_setOut (i j k : Nat) (r : Reg) :
    outs (s.set (.out i j k) r) = Function.update (outs s) (i, j, k) r := by
  funext ⟨i', j', k'⟩
  by_cases hk : (i', j', k') = (i, j, k)
  · cases hk
    simp [outs]
  · rw [Function.update_of_ne hk]
    have hplace : Place.out i' j' k' ≠ Place.out i j k := by
      intro h
      cases h
      exact hk rfl
    simp [outs, hplace]

/-- Writing a bank register leaves the outputs alone. -/
theorem outs_setBank (left : Bool) (i j k : Nat) (r : Reg) :
    outs (s.set (bank left i j k) r) = outs s := by
  funext k'
  cases left <;> simp [outs, bank]

/-- Writing an input register leaves the outputs alone. -/
theorem outs_setInp (e : Nat) (r : Reg) : outs (s.set (.inp e) r) = outs s := by
  funext k
  simp [outs]

/-- A node takes the packet or refuses it, and no output register changes. -/
theorem nodeReceive_outs {j idx : Nat} {pkt : Packet} {left : Bool} {ret : Stat}
    (h : b.nodeReceive s i j pkt idx left = some (ret, s')) : Takes ret ∧ outs s' = outs s := by
  rcases nodeReceive_cases h with ⟨rfl, -, rfl⟩ | ⟨rfl, -, rfl⟩
  · exact ⟨.inr rfl, rfl⟩
  · exact ⟨.inl rfl, outs_setBank _ _ _ _ _⟩

/-- Handing over the packet of an output is a step of its slot. -/
theorem sendOut_step (h : b.sendOut answer s i = some s') : (b.topOver answer i).Step s s' := by
  rcases sendOut_cases h with ⟨rfl, hrefused⟩ | ⟨hbusy, htaken, comp, -, rfl⟩
  · cases hbusy : (s'.reg (.out 0 0 i)).busy with
    | false => exact .idle hbusy rfl
    | true =>
        refine .sent hbusy (answer i) rfl ?_
        rw [hrefused hbusy, decide_eq_true rfl]
        exact (Function.update_eq_self_iff.2 (HandOver.busy_self hbusy)).symm
  · refine .sent hbusy (answer i) rfl ?_
    rw [decide_eq_false htaken]
    exact outs_setOut 0 0 i _

/-- Pushing an output to the next layer is a step of its slot. -/
theorem pushUp_step {height j k : Nat} (h : b.pushUp height i j s k = some s') :
    (b.upOver height i j k).Step s s' := by
  obtain ⟨r, hread, h⟩ := Option.bind_eq_some_iff.1 h
  obtain rfl := read_eq hread
  split at h
  case isFalse hfree =>
    cases h
    exact .idle (Bool.eq_false_iff.2 hfree) rfl
  case isTrue hbusy =>
    obtain ⟨⟨ret, t⟩, hreceive, h⟩ := Option.bind_eq_some_iff.1 h
    have houts : outs t = outs s := (nodeReceive_outs hreceive).2
    have hanswer : (b.upOver height i j k).answer s = some ret := by
      simp only [upOver, hread, Option.bind_eq_bind, Option.bind_some, hreceive, Option.pure_def]
    refine .sent hbusy ret hanswer ?_
    show outs s' = Function.update (outs s) (i, j, k) _
    dsimp only at h
    split at h
    case isTrue hr =>
      cases h
      rw [hr, houts, decide_eq_true rfl]
      exact (Function.update_eq_self_iff.2 (HandOver.busy_self hbusy)).symm
    case isFalse hr =>
      cases h
      rw [outs_setOut, houts, decide_eq_false hr]
      rfl

/-- The parent node takes the packet or refuses it for now. -/
theorem upOver_keeps (height i j k : Nat) (s : State C) : (b.upOver height i j k).Keeps .OK s := by
  intro s' h
  refine ((pushUp_step h).keeps_iff h).2 (fun _ r hr => ?_) s' h
  obtain ⟨q, -, hr⟩ := Option.bind_eq_some_iff.1 hr
  obtain ⟨⟨ret, t⟩, hreceive, hr⟩ := Option.bind_eq_some_iff.1 hr
  cases hr
  exact (nodeReceive_outs hreceive).1

/-- A free output register is filled, and the others stay as they are. -/
theorem populate_busy {count height j l : Nat} (h : b.populate count height i j s l = some s')
    (k : Nat × Nat × Nat) (hk : (outs s k).busy = true) : (outs s' k).busy = true := by
  rcases populate_cases h with ⟨rfl, -⟩ | ⟨left, hmoved, -⟩
  · exact hk
  · rw [hmoved.eq, outs_setBank, outs_setOut]
    by_cases hown : k = (i, j, l)
    · rw [hown, Function.update_self]
    · rwa [Function.update_of_ne hown]

/-- Taking packets of elements leaves the outputs alone. -/
theorem pushIn_outs (h : b.pushIn s i = some s') : outs s' = outs s := by
  cases pushIn_cases h with
  | waits _ heq => rw [heq]
  | moves hmoved => rw [hmoved.eq, outs_setInp, outs_setBank]

/-- A clock of the butterfly discards no packet exactly if the components answer the packets they
are sent with `OK` or `EBUSY`. -/
theorem noDiscard_iff (h : b.fatBflyClock answer s = some s') :
    b.NoDiscard answer s ↔ ∀ i ∈ List.range b.elems.toNat, Answered answer i s := by
  obtain ⟨t, hloop, hrest⟩ := Option.bind_eq_some_iff.1 h
  have halong : Fold.Along (b.sendOut answer) (fun s i => (b.topOver answer i).Keeps .OK s)
      (List.range b.elems.toNat) s ↔ ∀ i ∈ List.range b.elems.toNat, Answered answer i s := by
    have hanswered : ∀ (i : Nat) (s : State C), ((outs s (0, 0, i)).busy = true →
        ∀ r, (b.topOver answer i).answer s = some r → Takes r) ↔ Answered answer i s := by
      intro i s
      simp [topOver, Answered]
    rw [Fold.along_congr (fun s i s' h =>
        ((sendOut_step h).keeps_iff h).trans (hanswered i s)) hloop,
      Fold.along_iff (fun i s => Answered answer i s) (fun _ _ => Iff.rfl) ?_ ?_ hloop]
    · intro s i s' j h hanswered hbusy
      exact hanswered ((sendOut_step h).busy hbusy)
    · intro s i s' j hj h hanswered hbusy
      have hne : ((0, 0, j) : Nat × Nat × Nat) ≠ (0, 0, i) := by
        intro h
        cases h
        exact hj rfl
      have hsame : outs s' (0, 0, j) = outs s (0, 0, j) := (sendOut_step h).other hne
      exact hanswered (by rw [hsame]; exact hbusy)
  rw [← halong]
  constructor
  · intro hkeeps
    exact hkeeps.top .OK s' (by rw [bflyClock, h]; rfl)
  · intro hkeeps
    refine ⟨fun status s'' h' => ?_, upOver_keeps, fun _ _ _ _ _ _ _ h => populate_busy h,
      fun i t t' h k hk => ?_⟩
    · rw [bflyClock, h] at h'
      cases h'
      exact hkeeps
    · rw [pushIn_outs h]
      exact hk

end FatBfly

/-- The routers. The nodes of all three mesh files are of the form `node`, connected in any way. -/
inductive Router : Type 1 where
  | node {N D : Type} [DecidableEq N] [DecidableEq D] (m : Mesh N D)
  | fatBfly {C : Type} [DecidableEq C] (b : FatBfly C)

namespace Router

/-- The state of the routers. -/
abbrev State : Router → Type
  | node m => MeshState m
  | fatBfly (C := C) _ => FatBfly.State C

/-- What happens to the routers. -/
abbrev Event : Router → Type
  | node (N := N) _ => Drive N
  | fatBfly (C := C) _ => FatBfly.Drive C

/-- What an event does. -/
def step : (k : Router) → k.State → k.Event → Option k.State
  | node _, s, .clock c answer => Mesh.clock answer c s
  | node _, s, .inject c i pkt => (Mesh.receive s c (.elem c i) pkt).map Prod.snd
  | fatBfly b, s, .clock answer => b.fatBflyClock answer s
  | fatBfly b, s, .receive sender pkt => (b.fatBflyReceive s sender pkt).map Prod.snd

/-- The event discards no packet. -/
def NoDiscard : (k : Router) → k.State → k.Event → Prop
  | node _, s, .clock c answer => Mesh.NoDiscard answer c s
  | fatBfly b, s, .clock answer => b.NoDiscard answer s
  | _, _, _ => True

/-- Components that are not nodes answer the packets that the event finds in output registers with
`OK` or `EBUSY`. -/
def Answered : (k : Router) → k.State → k.Event → Prop
  | node m, s, .clock c answer => ∀ p ∈ m.portList c, Mesh.Answered answer c p s
  | fatBfly b, s, .clock answer => ∀ i ∈ List.range b.elems.toNat, FatBfly.Answered answer i s
  | _, _, _ => True

variable {k : Router}

/-- A router discards nothing exactly if every packet it offers is answered. -/
theorem noDiscard_iff {s s' : k.State} {e : k.Event} (h : k.step s e = some s') :
    k.NoDiscard s e ↔ k.Answered s e := by
  cases k with
  | node m =>
      cases e with
      | clock c answer => exact Mesh.noDiscard_iff h
      | inject c i pkt => exact Iff.rfl
  | fatBfly b =>
      cases e with
      | clock answer => exact FatBfly.noDiscard_iff h
      | receive sender pkt => exact Iff.rfl

/-- In every run of a router, a packet leaves an output register only if its receiver took it, or
the clock returns what the receiver answered, exactly as long as the receivers that are not nodes
answer with `OK` or `EBUSY`; and so it is of every clock, in any state. -/
theorem no_discard (k : Router) :
    (∀ (s s' : k.State) (e : k.Event), k.step s e = some s' →
      (k.NoDiscard s e ↔ k.Answered s e)) ∧
    ∀ (es : List k.Event) (s s' : k.State), es.foldlM k.step s = some s' →
      (Fold.Along k.step k.NoDiscard es s ↔ Fold.Along k.step k.Answered es s) :=
  ⟨fun _ _ _ => noDiscard_iff,
    fun _ _ _ h => Fold.along_congr (fun _ _ _ h => noDiscard_iff h) h⟩

/-- A node with one element. -/
def lone : Mesh Unit Dir1 where
  toNodeKind := Node1d.kind fun _ => 0
  elems _ := 1
  ports _ p :=
    match p with
    | .elem i => some (.elem () i)
    | .dir _ => none

/-- A packet for an address at which a core has nothing. -/
def stray : Packet := { Packet.zero with dst := 0x1000, flags := PACKET_WRITE }

/-- The packet moves to the output register of its element, is taken there, and no clock discards
it. -/
theorem no_discard_lone :
    Fold.Along (node lone).step (node lone).NoDiscard
      [.inject () 0 stray, .clock () fun _ => .OK, .clock () fun _ => .OK] (.init lone) := by
  have hrun : ∃ s, List.foldlM (node lone).step (.init lone)
      [.inject () 0 stray, .clock () fun _ => .OK, .clock () fun _ => .OK] = some s := ⟨_, rfl⟩
  obtain ⟨s, hrun⟩ := hrun
  refine ((no_discard (node lone)).2 _ _ _ hrun).2 ⟨trivial, fun _ _ => ⟨?_, fun _ _ => ⟨?_, ?_⟩⟩⟩
  · exact fun p _ _ c i _ => .inl rfl
  · exact fun p _ _ c i _ => .inl rfl
  · exact fun _ _ => trivial

/-- A core answers a packet for an address of its cluster where it has nothing with an error. The
packet is then neither in a register nor delivered, and the clock of the node has returned `OK`. -/
theorem discards_stray :
    (Cpu.create 0 0 fun _ => 0).bind (fun c => (Cpu.simpleRiscv64Receive
      ⟨fun _ _ => none, fun _ _ => none, fun _ _ _ => none⟩ () stray c ()).map Prod.fst) =
        some .EBUS ∧
    ∃ s s' : MeshState lone,
      List.foldlM (node lone).step (.init lone) [.inject () 0 stray, .clock () fun _ => .OK] =
        some s ∧
      Mesh.nodeClock (fun _ => .EBUS) () s = some (.OK, s') ∧
      ¬ (node lone).NoDiscard s (.clock () fun _ => .EBUS) ∧
      ((s.nodes ()).out (.elem ⟨0, Nat.one_pos⟩)).held = some { stray with timestamp := 0 } ∧
      s'.delivered.length = 0 ∧
      ∀ p, ((s'.nodes ()).inp p).busy = false ∧ ((s'.nodes ()).out p).busy = false := by
  refine ⟨rfl, _, _, rfl, rfl, fun h => ?_, rfl, rfl, ?_⟩
  · have hanswered := (Mesh.noDiscard_iff rfl).1 h (.elem ⟨0, Nat.one_pos⟩) List.mem_cons_self
    obtain htakes | htakes := hanswered rfl () 0 rfl
    · cases htakes
    · cases htakes
  · exact fun
      | .elem ⟨0, _⟩ => ⟨rfl, rfl⟩
      | .dir .north => ⟨rfl, rfl⟩
      | .dir .south => ⟨rfl, rfl⟩

end Router

end Gran
