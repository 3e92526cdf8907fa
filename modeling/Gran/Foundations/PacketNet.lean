import Mathlib.Algebra.BigOperators.Group.Finset.Basic
import Mathlib.Algebra.Order.BigOperators.Group.Finset
import Mathlib.Data.Fintype.BigOperators
import Mathlib.Data.Set.Finite.Lemmas
import Mathlib.Logic.Relation
import Gran.Foundations.Fold

/-!
# Networks of single-packet places

An abstract packet-switched network. A place holds at most one packet, `next` says where a packet
in a place goes, and a packet whose `next` is `none` leaves the network there. Packets enter at
places that are free, move to places that are free, and leave; nothing else happens to them.

`Step.conserved` says packets are neither lost nor duplicated, `Steps.routed` carries a placement
invariant along a run, `Moves.load_le` and `Moves.eq_of_load_le` bound the moves a network still
owes, and `exists_unblocked` finds a packet that nothing holds up when the places are ranked.
`Advances` is the specification of a program over a network: it does not abort and only moves
packets. `Passes` names a step on its way, which a program that pays no moves takes where it started
(`Passes.still`).
-/

namespace PacketNet

/-- The places with their packets, and the history of entries and departures. -/
structure Net (P X : Type*) where
  held : P → Option X
  injected : Multiset X
  delivered : Multiset (P × X)

variable {P X : Type*}

/-- The empty network. -/
def Net.empty : Net P X := ⟨fun _ => none, 0, 0⟩

variable [DecidableEq P]

/-- A packet moves on into a free place. -/
def Net.hop (n : Net P X) (p q : P) (x : X) : Net P X :=
  { n with held := Function.update (Function.update n.held p none) q (some x) }

/-- A packet leaves the network. -/
def Net.leave (n : Net P X) (p : P) (x : X) : Net P X :=
  { n with held := Function.update n.held p none, delivered := (p, x) ::ₘ n.delivered }

/-- A packet enters the network. -/
def Net.inject (n : Net P X) (p : P) (x : X) : Net P X :=
  { n with held := Function.update n.held p (some x), injected := x ::ₘ n.injected }

/-- One packet in the network moves or leaves, as `next` says. -/
inductive Move (next : P → X → Option P) (n : Net P X) : Net P X → Prop where
  | hop (p q : P) (x : X) (hp : n.held p = some x) (hnext : next p x = some q)
      (hq : n.held q = none) : Move next n (n.hop p q x)
  | leave (p : P) (x : X) (hp : n.held p = some x) (hnext : next p x = none) :
      Move next n (n.leave p x)

/-- Any number of moves. -/
abbrev Moves (next : P → X → Option P) : Net P X → Net P X → Prop :=
  Relation.ReflTransGen (Move next)

/-- A move, or an entry that `entry` permits. -/
inductive Step (next : P → X → Option P) (entry : P → X → Prop) (n : Net P X) :
    Net P X → Prop where
  | move (n' : Net P X) (h : Move next n n') : Step next entry n n'
  | inject (p : P) (x : X) (hp : n.held p = none) (hentry : entry p x) :
      Step next entry n (n.inject p x)

/-- Any number of steps. -/
abbrev Steps (next : P → X → Option P) (entry : P → X → Prop) : Net P X → Net P X → Prop :=
  Relation.ReflTransGen (Step next entry)

variable {next : P → X → Option P} {entry : P → X → Prop} {n n' : Net P X}

/-- Moves are steps that inject nothing. -/
theorem Moves.steps (h : Moves next n n') : Steps next entry n n' :=
  Relation.ReflTransGen.mono (fun _ b hb => Step.move b hb) _ _ h

/-! ## Totals over places -/

variable {ps : Finset P}

/-- Changing one place changes a total over the places by that place's share. -/
theorem sum_update_add {M : Type*} [AddCommMonoid M] (g : P → Option X → M)
    (held : P → Option X) {p : P} (hp : p ∈ ps) (v : Option X) :
    ∑ q ∈ ps, g q (Function.update held p v q) + g p (held p) =
      ∑ q ∈ ps, g q (held q) + g p v := by
  rw [← Finset.add_sum_erase _ _ hp, ← Finset.add_sum_erase _ (fun q => g q (held q)) hp]
  have hrest : ∑ q ∈ ps.erase p, g q (Function.update held p v q) =
      ∑ q ∈ ps.erase p, g q (held q) :=
    Finset.sum_congr rfl fun q hq => by
      rw [Function.update_of_ne (Finset.ne_of_mem_erase hq)]
  rw [hrest, Function.update_self]
  exact add_right_comm _ _ _ |>.trans (by rw [add_comm (g p v), add_right_comm])

/-- The packets held in a place, as a multiset. -/
def held1 : Option X → Multiset X
  | none => 0
  | some x => {x}

/-- The packets held in the given places. -/
def Net.content (ps : Finset P) (n : Net P X) : Multiset X := ∑ p ∈ ps, held1 (n.held p)

omit [DecidableEq P] in
@[simp] theorem content_empty : (Net.empty : Net P X).content ps = 0 := by
  simp [Net.content, Net.empty, held1]

/-- Filling a free place adds the packet to the content. -/
theorem content_fill {held : P → Option X} {p : P} (x : X) (hmem : p ∈ ps) (hp : held p = none) :
    ∑ q ∈ ps, held1 (Function.update held p (some x) q) = x ::ₘ ∑ q ∈ ps, held1 (held q) := by
  have h := sum_update_add (fun _ => held1) held hmem (some x)
  rw [hp] at h
  simpa [held1, add_comm] using h

/-- Emptying a place takes its packet out of the content. -/
theorem content_clear {held : P → Option X} {p : P} {x : X} (hmem : p ∈ ps)
    (hp : held p = some x) :
    ∑ q ∈ ps, held1 (held q) = x ::ₘ ∑ q ∈ ps, held1 (Function.update held p none q) := by
  have h := sum_update_add (fun _ => held1) held hmem none
  rw [hp] at h
  simpa [held1, add_comm] using h.symm

/-! ## Placement invariants -/

/-- Every packet held satisfies `ok` at its place, and so did every packet that left, where it
had arrived. -/
structure Routed (next : P → X → Option P) (ok : P → X → Prop) (n : Net P X) : Prop where
  held : ∀ p x, n.held p = some x → ok p x
  delivered : ∀ d ∈ n.delivered, ok d.1 d.2 ∧ next d.1 d.2 = none

omit [DecidableEq P] in
/-- An empty network is well placed. -/
theorem routed_empty (ok : P → X → Prop) : Routed next ok (Net.empty : Net P X) :=
  ⟨by simp [Net.empty], by simp [Net.empty]⟩

variable {ok : P → X → Prop}

/-- A placement that `next` and the permitted entries respect is kept by each step. -/
theorem Step.routed (hok : ∀ p q x, ok p x → next p x = some q → ok q x)
    (hentry : ∀ p x, entry p x → ok p x) (h : Step next entry n n')
    (hn : Routed next ok n) : Routed next ok n' := by
  cases h with
  | move n' h =>
      cases h with
      | hop p q x hp hnext hq =>
          refine ⟨fun r y hr => ?_, hn.delivered⟩
          by_cases hrq : r = q
          · subst hrq
            obtain rfl : x = y := by simpa [Net.hop] using hr
            exact hok p r x (hn.held p x hp) hnext
          · by_cases hrp : r = p
            · subst hrp; simp [Net.hop, hrq] at hr
            · exact hn.held r y (by simpa [Net.hop, hrq, hrp] using hr)
      | leave p x hp hnext =>
          refine ⟨fun r y hr => ?_, fun d hd => ?_⟩
          · by_cases hrp : r = p
            · subst hrp; simp [Net.leave] at hr
            · exact hn.held r y (by simpa [Net.leave, hrp] using hr)
          · rcases Multiset.mem_cons.1 hd with rfl | hd
            · exact ⟨hn.held p x hp, hnext⟩
            · exact hn.delivered d hd
  | inject p x hp he =>
      refine ⟨fun r y hr => ?_, hn.delivered⟩
      by_cases hrp : r = p
      · subst hrp
        obtain rfl : x = y := by simpa [Net.inject] using hr
        exact hentry r x he
      · exact hn.held r y (by simpa [Net.inject, hrp] using hr)

/-- Steps keep the packets well placed. -/
theorem Steps.routed (hok : ∀ p q x, ok p x → next p x = some q → ok q x)
    (hentry : ∀ p x, entry p x → ok p x) (h : Steps next entry n n')
    (hn : Routed next ok n) : Routed next ok n' := by
  induction h with
  | refl => exact hn
  | tail _ hstep ih => exact hstep.routed hok hentry ih

/-- Moves keep the packets well placed. -/
theorem Moves.routed (hok : ∀ p q x, ok p x → next p x = some q → ok q x)
    (h : Moves next n n') (hn : Routed next ok n) : Routed next ok n' :=
  have hsteps : Steps next (fun _ _ => False) n n' := h.steps
  Steps.routed hok (fun _ _ h => h.elim) hsteps hn

/-! ## Conservation -/

/-- What entered is what the places hold and what left. -/
def Conserved (ps : Finset P) (n : Net P X) : Prop :=
  n.injected = n.content ps + n.delivered.map Prod.snd

/-- A hop keeps the packets inside. -/
theorem hop_content {p q : P} {x : X} (hmem : p ∈ ps) (hmem' : q ∈ ps) (hp : n.held p = some x)
    (hq : n.held q = none) : (n.hop p q x).content ps = n.content ps := by
  have hq' : Function.update n.held p none q = none := by
    by_cases h : q = p
    · subst h; simp
    · simpa [h] using hq
  calc (n.hop p q x).content ps
      = x ::ₘ ∑ r ∈ ps, held1 (Function.update n.held p none r) := content_fill x hmem' hq'
    _ = n.content ps := (content_clear hmem hp).symm

/-- Each step keeps the balance of entries, packets held and departures, when well-placed packets
are in the places counted. -/
theorem Step.conserved (hok : ∀ p q x, ok p x → next p x = some q → ok q x)
    (hentry : ∀ p x, entry p x → ok p x) (hps : ∀ p x, ok p x → p ∈ ps)
    (h : Step next entry n n') (hr : Routed next ok n) (hn : Conserved ps n) :
    Conserved ps n' := by
  unfold Conserved at hn ⊢
  cases h with
  | move n' h =>
      cases h with
      | hop p q x hp hnext hq =>
          have hokp := hr.held p x hp
          rw [hop_content (hps p x hokp) (hps q x (hok p q x hokp hnext)) hp hq]
          exact hn
      | leave p x hp hnext =>
          calc n.injected = n.content ps + n.delivered.map Prod.snd := hn
            _ = (n.leave p x).content ps + (n.leave p x).delivered.map Prod.snd := by
              simp only [Net.content, content_clear (hps p x (hr.held p x hp)) hp, Net.leave,
                Multiset.map_cons]
              rw [Multiset.cons_add, Multiset.add_cons]
  | inject p x hp he =>
      simp only [Net.content, Net.inject, content_fill x (hps p x (hentry p x he)) hp]
      rw [hn, Multiset.cons_add]
      rfl

/-- No run loses or duplicates a packet. -/
theorem Steps.conserved (hok : ∀ p q x, ok p x → next p x = some q → ok q x)
    (hentry : ∀ p x, entry p x → ok p x) (hps : ∀ p x, ok p x → p ∈ ps)
    (h : Steps next entry n n') (hr : Routed next ok n) (hn : Conserved ps n) :
    Conserved ps n' := by
  induction h with
  | refl => exact hn
  | tail hsteps hstep ih =>
      exact hstep.conserved hok hentry hps (Steps.routed hok hentry hsteps hr) ih

omit [DecidableEq P] in
/-- What every packet that entered satisfies, every packet held or delivered satisfies. -/
theorem Conserved.routed (hps : ∀ p x, ok p x → p ∈ ps) (hr : Routed next ok n)
    (hn : Conserved ps n) {Q : X → Prop} (hQ : ∀ x ∈ n.injected, Q x) :
    Routed next (fun _ => Q) n := by
  unfold Conserved at hn
  rw [hn] at hQ
  refine ⟨fun p x hp => hQ x (Multiset.mem_add.2 (Or.inl ?_)), fun d hd => ⟨hQ d.2 ?_, ?_⟩⟩
  · refine Multiset.mem_sum.2 ⟨p, hps p x (hr.held p x hp), ?_⟩
    rw [hp]
    exact Multiset.mem_singleton_self x
  · exact Multiset.mem_add.2 (Or.inr (Multiset.mem_map_of_mem _ hd))
  · exact (hr.delivered d hd).2

/-! ## Moves still owed -/

/-- What a place adds to the load. -/
def owed1 (owed : P → X → Nat) (p : P) : Option X → Nat
  | none => 0
  | some x => owed p x

omit [DecidableEq P] in
@[simp] theorem owed1_none (owed : P → X → Nat) (p : P) : owed1 owed p none = 0 := rfl

omit [DecidableEq P] in
@[simp] theorem owed1_some (owed : P → X → Nat) (p : P) (x : X) :
    owed1 owed p (some x) = owed p x := rfl

/-- The moves the packets in the given places still owe. -/
def Net.load (ps : Finset P) (owed : P → X → Nat) (n : Net P X) : Nat :=
  ∑ p ∈ ps, owed1 owed p (n.held p)

variable {owed : P → X → Nat}

/-- `owed` counts the moves along `next`, the departure included. -/
structure Counts (next : P → X → Option P) (ok : P → X → Prop) (owed : P → X → Nat) : Prop where
  hop : ∀ p q x, ok p x → next p x = some q → owed p x = owed q x + 1
  leave : ∀ p x, ok p x → next p x = none → owed p x = 1

/-- A move pays exactly one of the moves owed. -/
theorem Move.load (hok : ∀ p q x, ok p x → next p x = some q → ok q x)
    (hps : ∀ p x, ok p x → p ∈ ps) (hcount : Counts next ok owed) (hn : Routed next ok n)
    (h : Move next n n') : n'.load ps owed + 1 = n.load ps owed := by
  cases h with
  | hop p q x hp hnext hq =>
      have hpq : q ≠ p := by rintro rfl; simp [hp] at hq
      have hokp := hn.held p x hp
      have h1 := sum_update_add (owed1 owed) n.held (hps p x hokp) none
      have h2 := sum_update_add (owed1 owed) (Function.update n.held p none)
        (hps q x (hok p q x hokp hnext)) (some x)
      rw [Function.update_of_ne hpq, hq] at h2
      rw [hp] at h1
      have h3 := hcount.hop p q x hokp hnext
      change ∑ r ∈ ps,
          owed1 owed r (Function.update (Function.update n.held p none) q (some x) r) + 1 =
        ∑ r ∈ ps, owed1 owed r (n.held r)
      simp only [owed1_none, owed1_some] at h1 h2
      omega
  | leave p x hp hnext =>
      have h1 := sum_update_add (owed1 owed) n.held (hps p x (hn.held p x hp)) none
      rw [hp] at h1
      have h3 := hcount.leave p x (hn.held p x hp) hnext
      change ∑ r ∈ ps, owed1 owed r (Function.update n.held p none r) + 1 =
        ∑ r ∈ ps, owed1 owed r (n.held r)
      simp only [owed1_none, owed1_some] at h1
      omega

/-- Moves never add to the load. -/
theorem Moves.load_le (hok : ∀ p q x, ok p x → next p x = some q → ok q x)
    (hps : ∀ p x, ok p x → p ∈ ps) (hcount : Counts next ok owed) (hn : Routed next ok n)
    (h : Moves next n n') :
    n'.load ps owed ≤ n.load ps owed := by
  induction h with
  | refl => exact le_rfl
  | tail hmoves hmove ih =>
      have := hmove.load hok hps hcount (Moves.routed hok hmoves hn)
      omega

/-- Moves that leave the load as it was were none. -/
theorem Moves.eq_of_load_le (hok : ∀ p q x, ok p x → next p x = some q → ok q x)
    (hps : ∀ p x, ok p x → p ∈ ps) (hcount : Counts next ok owed) (hn : Routed next ok n)
    (h : Moves next n n') (hload : n.load ps owed ≤ n'.load ps owed) : n' = n := by
  cases h with
  | refl => rfl
  | tail hmoves hmove =>
      have h1 := Moves.load_le hok hps hcount hn hmoves
      have h2 := hmove.load hok hps hcount (Moves.routed hok hmoves hn)
      omega

omit [DecidableEq P] in
/-- A network that owes no moves is empty. -/
theorem held_eq_none_of_load (hps : ∀ p x, ok p x → p ∈ ps) (hcount : Counts next ok owed)
    (hn : Routed next ok n) (hload : n.load ps owed = 0) (p : P) :
    n.held p = none := by
  cases hp : n.held p with
  | none => rfl
  | some x =>
      have hzero := (Finset.sum_eq_zero_iff.1 hload) p (hps p x (hn.held p x hp))
      simp only [hp, owed1] at hzero
      cases hnext : next p x with
      | none => have := hcount.leave p x (hn.held p x hp) hnext; omega
      | some q => have := hcount.hop p q x (hn.held p x hp) hnext; omega

/-! ## A packet nothing holds up -/

omit [DecidableEq P] in
/-- When packets only move to places of higher rank, a packet in a place of the highest occupied
rank moves to a free place or leaves. -/
theorem exists_unblocked (hps : ∀ p x, ok p x → p ∈ ps) (rank : P → Nat)
    (hrank : ∀ p q x, ok p x → next p x = some q → rank p < rank q)
    (hn : Routed next ok n) (hbusy : ∃ p, n.held p ≠ none) :
    ∃ p x, n.held p = some x ∧ (∀ q, n.held q ≠ none → rank q ≤ rank p) ∧
      ∀ q, next p x = some q → n.held q = none := by
  have hfin : {p | n.held p ≠ none}.Finite := ps.finite_toSet.subset fun p hp => by
    obtain ⟨x, hx⟩ := Option.ne_none_iff_exists'.1 hp
    exact hps p x (hn.held p x hx)
  obtain ⟨p, hp, hmax⟩ := Set.exists_max_image {p | n.held p ≠ none} rank hfin hbusy
  obtain ⟨x, hx⟩ := Option.ne_none_iff_exists'.1 hp
  refine ⟨p, x, hx, hmax, fun q hq => ?_⟩
  by_contra hne
  have := hrank p q x (hn.held p x hx) hq
  have := hmax q hne
  omega

/-! ## Programs over a network -/

variable {S A : Type*}

/-- From every state whose network is well placed, the program ends without aborting and has only
moved packets. -/
def Advances (next : P → X → Option P) (ok : P → X → Prop) (net : S → Net P X)
    (f : S → Option S) : Prop :=
  ∀ s, Routed next ok (net s) → ∃ s', f s = some s' ∧ Moves next (net s) (net s')

variable {net : S → Net P X} {f g : S → Option S}

/-- A program that does nothing only moves packets. -/
theorem advances_some : Advances next ok net some := fun s _ => ⟨s, rfl, .refl⟩

/-- Two programs that only move packets, one after the other. -/
theorem Advances.bind (hok : ∀ p q x, ok p x → next p x = some q → ok q x)
    (hf : Advances next ok net f) (hg : Advances next ok net g) :
    Advances next ok net (fun s => f s >>= g) := by
  intro s hs
  obtain ⟨t, ht, hst⟩ := hf s hs
  obtain ⟨u, hu, htu⟩ := hg t (Moves.routed hok hst hs)
  exact ⟨u, by simp [ht, hu], hst.trans htu⟩

/-- A loop whose body advances advances. -/
theorem Advances.foldlM (hok : ∀ p q x, ok p x → next p x = some q → ok q x) {l : List A}
    {body : S → A → Option S} (hbody : ∀ a ∈ l, Advances next ok net (fun s => body s a)) :
    Advances next ok net (fun s => l.foldlM body s) := by
  intro s hs
  obtain ⟨s', hs', -, hmoves⟩ := Fold.foldlM_total (fun s => Routed next ok (net s))
    (fun s s' => Moves next (net s) (net s')) (fun _ => .refl) (fun _ _ _ => .trans)
    (fun t a ha ht => by
      obtain ⟨t', ht', hmoves⟩ := hbody a ha t ht
      exact ⟨t', ht', Moves.routed hok hmoves ht, hmoves⟩) hs
  exact ⟨s', hs', hmoves⟩

/-- On its way from every well-placed state, the program takes a step of the kind `R`, and before
and after it only moves packets. -/
def Passes (next : P → X → Option P) (ok : P → X → Prop) (net : S → Net P X) (f : S → Option S)
    (R : S → S → Prop) : Prop :=
  ∀ s, Routed next ok (net s) → ∀ s', f s = some s' → ∃ t t', Moves next (net s) (net t) ∧
    R t t' ∧ Moves next (net t) (net t') ∧ Moves next (net t') (net s')

variable {R : S → S → Prop}

/-- What a program does that only moves packets. -/
theorem Advances.moves (hf : Advances next ok net f) {s s' : S} (hs : Routed next ok (net s))
    (h : f s = some s') : Moves next (net s) (net s') := by
  obtain ⟨t, ht, hmoves⟩ := hf s hs
  obtain rfl := Option.some.inj (ht.symm.trans h)
  exact hmoves

/-- A program that is itself such a step. -/
theorem Advances.passes (hf : Advances next ok net f)
    (hR : ∀ s, Routed next ok (net s) → ∀ s', f s = some s' → R s s') :
    Passes next ok net f R := fun s hs s' h =>
  ⟨s, s', .refl, hR s hs s' h, hf.moves hs h, .refl⟩

/-- A program that passes a step, and another one that moves packets. -/
theorem Passes.bind_left (hok : ∀ p q x, ok p x → next p x = some q → ok q x)
    (hf : Passes next ok net f R) (hg : Advances next ok net g) :
    Passes next ok net (fun s => f s >>= g) R := by
  intro s hs s' h
  obtain ⟨u, hu, hus⟩ := Option.bind_eq_some_iff.1 h
  obtain ⟨t, t', h1, h2, h3, h4⟩ := hf s hs u hu
  have hru := Moves.routed hok (h1.trans (h3.trans h4)) hs
  exact ⟨t, t', h1, h2, h3, h4.trans (hg.moves hru hus)⟩

/-- A program that moves packets, and another one that passes a step. -/
theorem Passes.bind_right (hok : ∀ p q x, ok p x → next p x = some q → ok q x)
    (hf : Advances next ok net f) (hg : Passes next ok net g R) :
    Passes next ok net (fun s => f s >>= g) R := by
  intro s hs s' h
  obtain ⟨u, hu, hus⟩ := Option.bind_eq_some_iff.1 h
  have hsu := hf.moves hs hu
  obtain ⟨t, t', h1, h2, h3, h4⟩ := hg u (Moves.routed hok hsu hs) s' hus
  exact ⟨t, t', hsu.trans h1, h2, h3, h4⟩

/-- A loop whose body advances passes what one of its iterations passes. -/
theorem Passes.foldlM (hok : ∀ p q x, ok p x → next p x = some q → ok q x) {l : List A}
    {body : S → A → Option S} (hbody : ∀ a ∈ l, Advances next ok net (fun s => body s a)) {a : A}
    (ha : a ∈ l) (h : Passes next ok net (fun s => body s a) R) :
    Passes next ok net (fun s => l.foldlM body s) R := by
  induction l with
  | nil => cases ha
  | cons b l ih =>
      have hrest : ∀ c ∈ l, Advances next ok net (fun s => body s c) :=
        fun c hc => hbody c (by simp [hc])
      simp only [List.foldlM_cons]
      rcases List.mem_cons.1 ha with rfl | ha
      · exact Passes.bind_left hok h (Advances.foldlM hok hrest)
      · exact Passes.bind_right hok (hbody b (by simp)) (ih hrest ha)

/-- If the program pays none of the moves owed, it takes this step where it started. -/
theorem Passes.still (hok : ∀ p q x, ok p x → next p x = some q → ok q x)
    (hps : ∀ p x, ok p x → p ∈ ps) (hcount : Counts next ok owed) (h : Passes next ok net f R)
    {s s' : S} (hs : Routed next ok (net s)) (hf : f s = some s')
    (hload : (net s).load ps owed ≤ (net s').load ps owed) :
    ∃ t t', net t = net s ∧ net t' = net s ∧ R t t' := by
  obtain ⟨t, t', h1, h2, h3, h4⟩ := h s hs s' hf
  have hrt := Moves.routed hok h1 hs
  have hrt' := Moves.routed hok h3 hrt
  have hle := Moves.load_le hok hps hcount hrt' h4
  have hle' := Moves.load_le hok hps hcount hrt h3
  exact ⟨t, t', Moves.eq_of_load_le hok hps hcount hs h1 (by omega),
    Moves.eq_of_load_le hok hps hcount hs (h1.trans h3) (by omega), h2⟩

end PacketNet
