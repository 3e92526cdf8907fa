import Gran.Packet

/-!
# Status codes and single-packet registers

`common.h` and `common.c`: the status a callback returns, the register that holds one packet,
and `propagate`, which moves the oldest willing packet of several registers into one output.
The candidate registers of `propagate` are pointers into a node's input array; here they are
indices into a function, and `none` is the `NULL` pointer.
-/

namespace Gran

/-- The type `stat`. -/
inductive Stat where
  | OK | DONE | EBUS | EBUSY | EMEM | ENOMEM | EEXISTS | ENOSUCH | ESIZE
deriving DecidableEq

/-- `struct reg`. -/
structure Reg where
  pkt : Packet
  busy : Bool
deriving DecidableEq

/-- A register after `calloc`. -/
def Reg.free : Reg := ⟨.zero, false⟩

/-- The packet a register holds, if it is busy. -/
def Reg.held (r : Reg) : Option Packet := if r.busy then some r.pkt else none

/-- `place_reg`. -/
def placeReg (r : Reg) (pkt : Packet) : Stat × Reg :=
  if r.busy then (.EBUSY, r) else (.OK, ⟨pkt, true⟩)

/-- `copy_reg r s`, with the new `r` and `s`. -/
def copyReg (r s : Reg) : Option (Stat × Reg × Reg) :=
  if s.busy then
    if r.busy then some (.EBUSY, r, s)
    else some (.OK, ⟨s.pkt, true⟩, { s with busy := false })
  else none

variable {Q : Type}

/-- The scan of `propagate`: the oldest busy candidate that `sel` accepts, the first one on ties.
`r` is the choice made so far. -/
def oldest (regs : Q → Reg) (sel : Reg → Bool) : Option Q → List (Option Q) → Option Q
  | r, [] => r
  | r, none :: rest => oldest regs sel r rest
  | r, some i :: rest =>
      if (regs i).busy && sel (regs i) then
        match r with
        | none => oldest regs sel (some i) rest
        | some q =>
            if (regs i).pkt.timestamp < (regs q).pkt.timestamp then
              oldest regs sel (some i) rest
            else oldest regs sel (some q) rest
      else oldest regs sel r rest

/-- `propagate`, with the new output register and the new candidate registers. -/
def propagate [DecidableEq Q] (out : Reg) (regs : Q → Reg) (candidates : List (Option Q))
    (sel : Reg → Bool) : Option (Reg × (Q → Reg)) :=
  match oldest regs sel none candidates with
  | none => some (out, regs)
  | some r => do
      let (_, out', r') ← copyReg out (regs r)
      pure (out', Function.update regs r r')

/-! ## Registers -/

@[simp] theorem Reg.held_free : Reg.free.held = none := rfl

@[simp] theorem Reg.held_mk_true (pkt : Packet) : (Reg.mk pkt true).held = some pkt := rfl

@[simp] theorem Reg.held_mk_false (pkt : Packet) : (Reg.mk pkt false).held = none := rfl

/-- A register is free exactly when it holds nothing. -/
theorem Reg.held_eq_none {r : Reg} : r.held = none ↔ r.busy = false := by
  cases h : r.busy <;> simp [Reg.held, h]

/-- A register holds `pkt` exactly when it is busy with it. -/
theorem Reg.held_eq_some {r : Reg} {pkt : Packet} :
    r.held = some pkt ↔ r.busy = true ∧ r.pkt = pkt := by
  cases h : r.busy <;> simp [Reg.held, h]

/-! ## The oldest candidate -/

/-- Whatever the scan returns was its starting choice or is a busy candidate `sel` accepts. -/
theorem oldest_some {regs : Q → Reg} {sel : Reg → Bool} {r : Option Q}
    {candidates : List (Option Q)} {q : Q} (h : oldest regs sel r candidates = some q) :
    r = some q ∨ some q ∈ candidates ∧ (regs q).busy = true ∧ sel (regs q) = true := by
  fun_induction oldest regs sel r candidates with
  | case1 r => exact Or.inl h
  | case2 r rest ih => rcases ih h with h | h <;> simp_all
  | case3 rest i hi ih => rcases ih h with h | h <;> simp_all
  | case4 rest i hi q' hlt ih => rcases ih h with h | h <;> simp_all
  | case5 rest i hi q' hlt ih => rcases ih h with h | h <;> simp_all
  | case6 r rest i hi ih => rcases ih h with h | h <;> simp_all

/-- A scan that returns nothing started with nothing and saw no busy candidate that `sel`
accepts. -/
theorem oldest_none {regs : Q → Reg} {sel : Reg → Bool} {r : Option Q}
    {candidates : List (Option Q)} (h : oldest regs sel r candidates = none) :
    r = none ∧ ∀ q, some q ∈ candidates → (regs q).busy = true → sel (regs q) = false := by
  fun_induction oldest regs sel r candidates with
  | case1 r => exact ⟨h, by simp⟩
  | case2 r rest ih => obtain ⟨hr, hrest⟩ := ih h; exact ⟨hr, by simpa using hrest⟩
  | case3 rest i hi ih => exact absurd (ih h).1 (by simp)
  | case4 rest i hi q' hlt ih => exact absurd (ih h).1 (by simp)
  | case5 rest i hi q' hlt ih => exact absurd (ih h).1 (by simp)
  | case6 r rest i hi ih =>
      obtain ⟨hr, hrest⟩ := ih h
      refine ⟨hr, fun q hq hbusy => ?_⟩
      rcases List.mem_cons.1 hq with hq | hq
      · cases hq
        simpa [hbusy] using hi
      · exact hrest q hq hbusy

/-- What the scan returns is no younger than any other choice it had, and in candidates that are
listed in some order it is the first one of its age. -/
theorem oldest_le {regs : Q → Reg} {sel : Reg → Bool} (before : Q → Q → Prop)
    (htrans : ∀ a b c, before a b → before b c → before a c) {r : Option Q}
    {candidates : List (Option Q)}
    (hsorted : candidates.Pairwise fun a b => ∀ i j, a = some i → b = some j → before i j)
    (hr : ∀ i j, r = some i → some j ∈ candidates → before i j) {q i : Q}
    (h : oldest regs sel r candidates = some q)
    (hi : r = some i ∨ some i ∈ candidates ∧ (regs i).busy = true ∧ sel (regs i) = true) :
    ¬ (regs i).pkt.timestamp < (regs q).pkt.timestamp ∧
      ((regs i).pkt.timestamp = (regs q).pkt.timestamp → q = i ∨ before q i) := by
  fun_induction oldest regs sel r candidates generalizing i with
  | case1 r =>
      rcases hi with rfl | hi
      · obtain rfl := Option.some.inj h
        exact ⟨BitVec.lt_irrefl _, fun _ => Or.inl rfl⟩
      · simp at hi
  | case2 r rest ih =>
      exact ih hsorted.of_cons (fun a b ha hb => hr a b ha (by simp [hb])) h (by simpa using hi)
  | case3 rest k hk ih =>
      obtain ⟨hhead, htail⟩ := List.pairwise_cons.1 hsorted
      refine ih htail (fun a b ha hb => hhead _ hb a b ha rfl) h ?_
      rcases hi with hi | ⟨hmem, hbusy, hsel⟩
      · cases hi
      · rcases List.mem_cons.1 hmem with hmem | hmem
        · exact Or.inl hmem.symm
        · exact Or.inr ⟨hmem, hbusy, hsel⟩
  | case4 rest k hk q' hlt ih =>
      -- `k` is older than the choice so far
      obtain ⟨hhead, htail⟩ := List.pairwise_cons.1 hsorted
      have hrest := fun {j} => ih (i := j) htail (fun a b ha hb => hhead _ hb a b ha rfl) h
      obtain ⟨hk1, hk2⟩ := hrest (Or.inl rfl)
      rcases hi with hi | ⟨hmem, hbusy, hsel⟩
      · obtain rfl := Option.some.inj hi
        exact ⟨by bv_omega, fun he => by bv_omega⟩
      · rcases List.mem_cons.1 hmem with hmem | hmem
        · obtain rfl := Option.some.inj hmem
          exact ⟨hk1, hk2⟩
        · exact hrest (Or.inr ⟨hmem, hbusy, hsel⟩)
  | case5 rest k hk q' hlt ih =>
      -- the choice so far is no younger than `k`, and was listed before it
      have hrest := fun {j} => ih (i := j) hsorted.of_cons
        (fun a b ha hb => hr a b ha (List.mem_cons_of_mem _ hb)) h
      obtain ⟨hq1, hq2⟩ := hrest (Or.inl rfl)
      rcases hi with hi | ⟨hmem, hbusy, hsel⟩
      · obtain rfl := Option.some.inj hi
        exact ⟨hq1, hq2⟩
      · rcases List.mem_cons.1 hmem with hmem | hmem
        · obtain rfl := Option.some.inj hmem
          have hbefore := hr q' i rfl (by simp)
          refine ⟨by bv_omega, fun he => Or.inr ?_⟩
          rcases hq2 (by bv_omega) with rfl | hbq
          · exact hbefore
          · exact htrans _ _ _ hbq hbefore
        · exact hrest (Or.inr ⟨hmem, hbusy, hsel⟩)
  | case6 r rest k hk ih =>
      refine ih hsorted.of_cons (fun a b ha hb => hr a b ha (List.mem_cons_of_mem _ hb)) h ?_
      rcases hi with hi | ⟨hmem, hbusy, hsel⟩
      · exact Or.inl hi
      · rcases List.mem_cons.1 hmem with hmem | hmem
        · cases hmem
          simp [hbusy, hsel] at hk
        · exact Or.inr ⟨hmem, hbusy, hsel⟩

/-- A scan may stop in between. -/
theorem oldest_append (regs : Q → Reg) (sel : Reg → Bool) (r : Option Q) (l l' : List (Option Q)) :
    oldest regs sel r (l ++ l') = oldest regs sel (oldest regs sel r l) l' := by
  fun_induction oldest regs sel r l with
  | case1 r => rfl
  | case2 r rest ih => simpa [oldest] using ih
  | case3 rest i hi ih => simpa [oldest, hi] using ih
  | case4 rest i hi q hlt ih => simpa [oldest, hi, hlt] using ih
  | case5 rest i hi q hlt ih => simpa [oldest, hi, hlt] using ih
  | case6 r rest i hi ih => simpa [oldest, hi] using ih

/-- Candidates that are not willing leave the choice as it is. -/
theorem oldest_unwilling {regs : Q → Reg} {sel : Reg → Bool} (r : Option Q) {l : List (Option Q)}
    (h : ∀ q, some q ∈ l → ((regs q).busy && sel (regs q)) = false) : oldest regs sel r l = r := by
  induction l with
  | nil => rfl
  | cons a l ih =>
      have hrest := ih fun q hq => h q (by simp [hq])
      cases a with
      | none => simpa only [oldest] using hrest
      | some i =>
          have hi := h i (by simp)
          simpa only [oldest, hi, if_neg Bool.false_ne_true] using hrest

/-- A scan over registers that stand for others chooses the one that stands for their choice. -/
theorem oldest_map {Q' : Type} (regs : Q → Reg) (sel : Reg → Bool) (regs' : Q' → Reg)
    (sel' : Reg → Bool) (f : Q → Q') (hbusy : ∀ q, (regs' (f q)).busy = (regs q).busy)
    (hstamp : ∀ q, (regs' (f q)).pkt.timestamp = (regs q).pkt.timestamp)
    (hsel : ∀ q, sel' (regs' (f q)) = sel (regs q)) (r : Option Q) (l : List (Option Q)) :
    oldest regs' sel' (r.map f) (l.map (Option.map f)) = (oldest regs sel r l).map f := by
  fun_induction oldest regs sel r l with
  | case1 r => rfl
  | case2 r rest ih => simpa [oldest] using ih
  | case3 rest i hi ih => simpa [oldest, hbusy, hsel, hi] using ih
  | case4 rest i hi q hlt ih => simpa [oldest, hbusy, hsel, hstamp, hi, hlt] using ih
  | case5 rest i hi q hlt ih => simpa [oldest, hbusy, hsel, hstamp, hi, hlt] using ih
  | case6 r rest i hi ih => simpa [oldest, hbusy, hsel, hi] using ih

/-! ## One propagation -/

/-- What `propagate` can do: it leaves everything as it is, because nothing is willing or the
output is busy, or it moves one willing packet into the free output. -/
inductive Propagated (out : Reg) (regs : Q → Reg) (candidates : List (Option Q))
    (sel : Reg → Bool) [DecidableEq Q] : Reg → (Q → Reg) → Prop where
  | idle (hnone : ∀ q, some q ∈ candidates → (regs q).busy = true → sel (regs q) = false) :
      Propagated out regs candidates sel out regs
  | blocked (hbusy : out.busy = true) : Propagated out regs candidates sel out regs
  | moved (q : Q) (hfree : out.busy = false) (hmem : some q ∈ candidates)
      (hbusy : (regs q).busy = true) (hsel : sel (regs q) = true) :
      Propagated out regs candidates sel ⟨(regs q).pkt, true⟩
        (Function.update regs q { regs q with busy := false })

/-- `propagate` never fails its assertion, and does one of the three things above. -/
theorem propagate_spec [DecidableEq Q] (out : Reg) (regs : Q → Reg)
    (candidates : List (Option Q)) (sel : Reg → Bool) :
    ∃ out' regs', propagate out regs candidates sel = some (out', regs') ∧
      Propagated out regs candidates sel out' regs' := by
  unfold propagate
  cases hold : oldest regs sel none candidates with
  | none => exact ⟨_, _, rfl, .idle (oldest_none hold).2⟩
  | some q =>
      obtain h | ⟨hmem, hbusy, hsel⟩ := oldest_some hold
      · cases h
      cases hout : out.busy with
      | true =>
          refine ⟨out, regs, ?_, .blocked hout⟩
          simp [copyReg, hbusy, hout]
      | false =>
          refine ⟨_, _, ?_, .moved q hout hmem hbusy hsel⟩
          simp [copyReg, hbusy, hout]

end Gran
