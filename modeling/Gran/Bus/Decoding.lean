import Gran.Bus.SimpleBus

/-!
# Which addresses a bus decodes

The regions a bus was given by a sequence of `simple_bus_add` calls. The call only looks up the
first address of a region and the one behind its last, and the end of a region that reaches the last
address of all wraps to 0. `simpleBus_unambiguous` says for which sequences the bus still keeps
exactly the regions that are disjoint from those before and routes every address to its region.
-/

namespace Gran

variable {E : Type}

namespace BusRegion

/-- The address lies in the region. -/
def Contains (r : BusRegion E) (addr : Word) : Prop :=
  r.addr.toNat ≤ addr.toNat ∧ addr.toNat < r.addr.toNat + r.size.toNat

/-- No address lies in both regions. -/
def Apart (r r' : BusRegion E) : Prop := ∀ addr, r.Contains addr → ¬ r'.Contains addr

/-- The region has an address, and all its addresses exist. -/
def Valid (r : BusRegion E) : Prop :=
  1 ≤ r.size.toNat ∧ r.addr.toNat + r.size.toNat ≤ 2 ^ 64

end BusRegion

/-- One call of `simple_bus_add`. -/
def addCall (regions : List (BusRegion E)) (call : BusRegion E) : Stat × List (BusRegion E) :=
  simpleBusAdd regions call.component call.addr call.size

/-- The regions of a bus after a sequence of calls. -/
def addCalls (calls : List (BusRegion E)) : List (BusRegion E) :=
  calls.foldl (fun regions call => (addCall regions call).2) []

/-- The addresses a bus decodes after a sequence of calls are those of the calls. Every call is
accepted exactly if its region is apart from all accepted before, a call that is not accepted
changes nothing, and a packet is routed to the region its address lies in, or answered with an error
if there is none. -/
structure Unambiguous (calls : List (BusRegion E)) : Prop where
  accepted : ∀ before call after, calls = before ++ call :: after →
    ((addCall (addCalls before) call).1 = .OK ↔ ∀ r ∈ addCalls before, r.Apart call)
  rejected : ∀ before call after, calls = before ++ call :: after →
    (addCall (addCalls before) call).1 ≠ .OK → (addCall (addCalls before) call).2 = addCalls before
  routed : ∀ (bus : SimpleBus E) (sender : E) (pkt : Packet), bus.busy = false →
    ∀ r ∈ addCalls calls, r.Contains pkt.dst →
    simpleBusReceive (addCalls calls) bus sender pkt = (.OK, ⟨some r.component, pkt, true⟩)
  unrouted : ∀ (bus : SimpleBus E) (sender : E) (pkt : Packet), bus.busy = false →
    (∀ r ∈ addCalls calls, ¬ r.Contains pkt.dst) →
    simpleBusReceive (addCalls calls) bus sender pkt =
      (.OK, ⟨some sender, setFlags (response pkt) PACKET_ERROR, true⟩)

/-- Looking up the two addresses decides about a call: a region that is apart from all others ends
before the last address, with no other one starting at its end, and of a region that is not, the
first address or the one behind the last lies in one of the others. -/
def Fits (regions : List (BusRegion E)) (call : BusRegion E) : Prop :=
  ((∀ r ∈ regions, r.Apart call) →
    call.addr.toNat + call.size.toNat < 2 ^ 64 ∧ ∀ r ∈ regions, r.addr ≠ call.addr + call.size) ∧
  ((∃ r ∈ regions, ¬ r.Apart call) →
    ∃ r ∈ regions, r.Contains call.addr ∨ r.Contains (call.addr + call.size))

open Classical in
/-- A region is kept if it is apart from those already there. -/
noncomputable def keep (regions : List (BusRegion E)) (call : BusRegion E) : List (BusRegion E) :=
  if ∀ r ∈ regions, r.Apart call then regions ++ [call] else regions

/-- The regions of a sequence that are apart from those kept before them. -/
noncomputable def kept (calls : List (BusRegion E)) : List (BusRegion E) := calls.foldl keep []

/-- Every call of a sequence fits the regions kept before it. -/
def AllFit (calls : List (BusRegion E)) : Prop :=
  ∀ before call after, calls = before ++ call :: after → Fits (kept before) call

/-! ## One call -/

/-- The regions of a bus that decodes them: valid, apart, and none reaching the last address. -/
structure Decodes (regions : List (BusRegion E)) : Prop where
  valid : ∀ r ∈ regions, r.Valid
  ends : ∀ r ∈ regions, r.addr.toNat + r.size.toNat < 2 ^ 64
  apart : regions.Pairwise BusRegion.Apart

/-- Being apart is symmetric. -/
theorem BusRegion.Apart.symm {r r' : BusRegion E} (h : r.Apart r') : r'.Apart r :=
  fun addr h' h'' => h addr h'' h'

/-- A valid region contains its start. -/
theorem BusRegion.Valid.contains_addr {r : BusRegion E} (h : r.Valid) : r.Contains r.addr :=
  ⟨Nat.le_refl _, by have := h.1; omega⟩

/-- The test of `find_bus_region` on one region. -/
def decodedBy (r : BusRegion E) (addr : Word) : Bool :=
  decide (addr ≥ r.addr) && decide (addr < r.addr + r.size)

/-- A region that does not reach the last address is found exactly for its addresses. -/
theorem decodedBy_iff {r : BusRegion E} (hend : r.addr.toNat + r.size.toNat < 2 ^ 64)
    {addr : Word} :
    decodedBy r addr = true ↔ r.Contains addr := by
  have hsum : (r.addr + r.size).toNat = r.addr.toNat + r.size.toNat := by
    rw [BitVec.toNat_add, Nat.mod_eq_of_lt hend]
  simp only [decodedBy, Bool.and_eq_true, decide_eq_true_eq, ge_iff_le, BitVec.le_def,
    BitVec.lt_def,
    hsum, BusRegion.Contains]

/-- A region that reaches the last address is never found. -/
theorem decodedBy_of_last {r : BusRegion E} (hend : r.addr.toNat + r.size.toNat = 2 ^ 64)
    (addr : Word) : decodedBy r addr = false := by
  have hsum : (r.addr + r.size).toNat = 0 := by
    rw [BitVec.toNat_add, hend, Nat.mod_self]
  simp only [decodedBy, Bool.and_eq_false_iff, decide_eq_false_iff_not, BitVec.lt_def, hsum]
  exact Or.inr (Nat.not_lt_zero _)

/-- `find_bus_region` returns the first region that decodes the address. -/
theorem findBusRegion_eq (regions : List (BusRegion E)) (addr : Word) :
    findBusRegion regions addr = regions.find? (decodedBy · addr) := rfl

namespace Decodes

variable {regions : List (BusRegion E)}

/-- An address is decoded exactly if it is in some region. -/
theorem find_isSome (h : Decodes regions) (addr : Word) :
    (findBusRegion regions addr).isSome = true ↔ ∃ r ∈ regions, r.Contains addr := by
  rw [findBusRegion_eq, List.find?_isSome]
  constructor
  · rintro ⟨r, hr, hdec⟩
    exact ⟨r, hr, (decodedBy_iff (h.ends r hr)).1 hdec⟩
  · rintro ⟨r, hr, hcon⟩
    exact ⟨r, hr, (decodedBy_iff (h.ends r hr)).2 hcon⟩

/-- Two regions with a common address are one. -/
theorem eq_of_contains (h : Decodes regions) {r r' : BusRegion E} (hr : r ∈ regions)
    (hr' : r' ∈ regions) {addr : Word} (haddr : r.Contains addr) (haddr' : r'.Contains addr) :
    r = r' := by
  by_contra hne
  have hsymm : Std.Symm (BusRegion.Apart (E := E)) := ⟨fun _ _ h => h.symm⟩
  exact h.apart.forall hr hr' hne addr haddr haddr'

/-- An address is decoded to the region that it is in. -/
theorem find_eq (h : Decodes regions) {r : BusRegion E} (hr : r ∈ regions) {addr : Word}
    (haddr : r.Contains addr) : findBusRegion regions addr = some r := by
  obtain ⟨r', hfound⟩ := Option.isSome_iff_exists.1 ((h.find_isSome addr).2 ⟨r, hr, haddr⟩)
  have hr' : r' ∈ regions := List.mem_of_find?_eq_some hfound
  have hdec := List.find?_some (findBusRegion_eq regions addr ▸ hfound)
  rw [hfound, h.eq_of_contains hr hr' haddr ((decodedBy_iff (h.ends r' hr')).1 hdec)]

/-- A call is refused exactly if one of its two addresses is taken. -/
theorem addCall_eq (h : Decodes regions) (call : BusRegion E) :
    ((addCall regions call).1 = .OK ∧ (addCall regions call).2 = regions ++ [call] ∧
        ¬ ∃ r ∈ regions, r.Contains call.addr ∨ r.Contains (call.addr + call.size)) ∨
      ((addCall regions call).1 = .EEXISTS ∧ (addCall regions call).2 = regions ∧
        ∃ r ∈ regions, r.Contains call.addr ∨ r.Contains (call.addr + call.size)) := by
  have hfirst := h.find_isSome call.addr
  have hlast := h.find_isSome (call.addr + call.size)
  unfold addCall simpleBusAdd
  cases hf : findBusRegion regions call.addr with
  | some r =>
      rw [hf] at hfirst
      obtain ⟨r', hr', hcon⟩ := hfirst.1 rfl
      exact Or.inr ⟨rfl, rfl, r', hr', Or.inl hcon⟩
  | none =>
      rw [hf] at hfirst
      cases hl : findBusRegion regions (call.addr + call.size) with
      | some r =>
          rw [hl] at hlast
          obtain ⟨r', hr', hcon⟩ := hlast.1 rfl
          exact Or.inr ⟨by simp, by simp, r', hr', Or.inr hcon⟩
      | none =>
          rw [hl] at hlast
          refine Or.inl ⟨by simp, by simp, ?_⟩
          rintro ⟨r, hr, hcon | hcon⟩
          · exact absurd (hfirst.2 ⟨r, hr, hcon⟩) (by simp)
          · exact absurd (hlast.2 ⟨r, hr, hcon⟩) (by simp)

/-- A fitting call is accepted exactly if its region is apart from the others. -/
theorem accepted_iff (h : Decodes regions) {call : BusRegion E} (hcall : call.Valid)
    (hfits : Fits regions call) :
    (addCall regions call).1 = .OK ↔ ∀ r ∈ regions, r.Apart call := by
  rcases h.addCall_eq call with ⟨hret, -, hno⟩ | ⟨hret, -, hsome⟩
  · refine ⟨fun _ => ?_, fun _ => hret⟩
    by_contra hover
    push Not at hover
    exact hno (hfits.2 hover)
  · refine ⟨fun hok => ?_, fun hapart => ?_⟩
    · rw [hret] at hok
      cases hok
    · -- the address behind the last one is in a region, which starts there
      obtain ⟨hend, hstarts⟩ := hfits.1 hapart
      have hsum : (call.addr + call.size).toNat = call.addr.toNat + call.size.toNat := by
        rw [BitVec.toNat_add, Nat.mod_eq_of_lt hend]
      obtain ⟨r, hr, hcon | hcon⟩ := hsome
      · exact absurd hcall.contains_addr (hapart r hr _ hcon)
      · obtain ⟨hle, hlt⟩ := hcon
        rw [hsum] at hle hlt
        have hne : r.addr.toNat ≠ call.addr.toNat + call.size.toNat := fun heq =>
          hstarts r hr (BitVec.eq_of_toNat_eq (heq.trans hsum.symm))
        have hsize := hcall.1
        -- otherwise the last address of the new region is in it
        have hlastlt : call.addr.toNat + call.size.toNat - 1 < 2 ^ 64 := by omega
        have hlast : (BitVec.ofNat 64 (call.addr.toNat + call.size.toNat - 1)).toNat =
            call.addr.toNat + call.size.toNat - 1 := by
          rw [BitVec.toNat_ofNat, Nat.mod_eq_of_lt hlastlt]
        refine absurd ?_ (hapart r hr (BitVec.ofNat 64 (call.addr.toNat + call.size.toNat - 1)) ?_)
        · exact ⟨by omega, by omega⟩
        · exact ⟨by omega, by omega⟩

/-- A fitting call keeps the bus decoding its regions. -/
theorem addCall (h : Decodes regions) {call : BusRegion E} (hcall : call.Valid)
    (hfits : Fits regions call) : Decodes (addCall regions call).2 := by
  have hiff := h.accepted_iff hcall hfits
  rcases h.addCall_eq call with ⟨hret, hregions, -⟩ | ⟨-, hregions, -⟩
  · have hapart := hiff.1 hret
    rw [hregions]
    refine ⟨fun r hr => ?_, fun r hr => ?_, ?_⟩
    · rcases List.mem_append.1 hr with hr | hr
      · exact h.valid r hr
      · rw [List.mem_singleton.1 hr]
        exact hcall
    · rcases List.mem_append.1 hr with hr | hr
      · exact h.ends r hr
      · rw [List.mem_singleton.1 hr]
        exact (hfits.1 hapart).1
    · rw [List.pairwise_append]
      refine ⟨h.apart, List.pairwise_singleton _ _, fun r hr r' hr' => ?_⟩
      rw [List.mem_singleton.1 hr']
      exact hapart r hr
  · rw [hregions]
    exact h

end Decodes

/-! ## All calls -/

/-- The regions after one more call. -/
theorem addCalls_snoc (before : List (BusRegion E)) (call : BusRegion E) :
    addCalls (before ++ [call]) = (addCall (addCalls before) call).2 := by
  rw [addCalls, List.foldl_append]
  rfl

/-- The regions that a specification keeps after one more call. -/
theorem kept_snoc (before : List (BusRegion E)) (call : BusRegion E) :
    kept (before ++ [call]) = keep (kept before) call := by
  rw [kept, List.foldl_append]
  rfl

/-- A call appends its region or changes nothing. -/
theorem addCall_regions (regions : List (BusRegion E)) (call : BusRegion E) :
    ((addCall regions call).1 = .OK ∧ (addCall regions call).2 = regions ++ [call]) ∨
      ((addCall regions call).1 = .EEXISTS ∧ (addCall regions call).2 = regions) := by
  unfold addCall simpleBusAdd
  dsimp only
  generalize (if (findBusRegion regions call.addr).isNone = true then
    findBusRegion regions (call.addr + call.size) else findBusRegion regions call.addr) = found
  cases found with
  | none => exact Or.inl ⟨rfl, rfl⟩
  | some r => exact Or.inr ⟨rfl, rfl⟩

/-- A call that is accepted exactly if its region is apart from the others keeps what it should. -/
theorem addCall_eq_keep {regions : List (BusRegion E)} {call : BusRegion E}
    (haccepted : (addCall regions call).1 = .OK ↔ ∀ r ∈ regions, r.Apart call) :
    (addCall regions call).2 = keep regions call := by
  unfold keep
  rcases addCall_regions regions call with ⟨hret, heq⟩ | ⟨hret, heq⟩
  · rw [heq, if_pos (haccepted.1 hret)]
  · have hnot : ¬ ∀ r ∈ regions, r.Apart call := by
      rw [← haccepted, hret]
      exact fun h => nomatch h
    rw [heq, if_neg hnot]

/-- The first calls fit if all do. -/
theorem AllFit.of_append {before after : List (BusRegion E)} (h : AllFit (before ++ after)) :
    AllFit before := by
  rintro b call a rfl
  exact h b call (a ++ after) (by simp)

/-- As long as all calls fit, the bus has the regions it should have, and decodes them. -/
theorem AllFit.addCalls_eq {calls : List (BusRegion E)} (h : AllFit calls)
    (hvalid : ∀ call ∈ calls, call.Valid) :
    addCalls calls = kept calls ∧ Decodes (addCalls calls) := by
  induction calls using List.reverseRecOn with
  | nil => exact ⟨rfl, fun r hr => (nomatch hr), fun r hr => (nomatch hr), List.Pairwise.nil⟩
  | append_singleton before call ih =>
      obtain ⟨heq, hbefore⟩ := ih h.of_append fun c hc => hvalid c (List.mem_append_left _ hc)
      have hcall : call.Valid := hvalid call (by simp)
      have hfits : Fits (addCalls before) call := by
        rw [heq]
        exact h before call [] rfl
      rw [addCalls_snoc, kept_snoc, ← heq]
      exact ⟨addCall_eq_keep (hbefore.accepted_iff hcall hfits), hbefore.addCall hcall hfits⟩

/-- Accepted regions stay. -/
theorem mem_addCalls_append {r : BusRegion E} {before : List (BusRegion E)}
    (after : List (BusRegion E)) (hr : r ∈ addCalls before) :
    r ∈ addCalls (before ++ after) := by
  induction after using List.reverseRecOn with
  | nil => rwa [List.append_nil]
  | append_singleton after call ih =>
      rw [← List.append_assoc, addCalls_snoc]
      rcases addCall_regions (addCalls (before ++ after)) call with ⟨-, heq⟩ | ⟨-, heq⟩
      · rw [heq]
        exact List.mem_append_left _ ih
      · rw [heq]
        exact ih

/-- An accepted call is among the regions of the whole sequence. -/
theorem mem_addCalls_of_ok {before after : List (BusRegion E)} {call : BusRegion E}
    (hok : (addCall (addCalls before) call).1 = .OK) :
    call ∈ addCalls (before ++ call :: after) := by
  have hmem : call ∈ addCalls (before ++ [call]) := by
    rw [addCalls_snoc]
    rcases addCall_regions (addCalls before) call with ⟨-, heq⟩ | ⟨hret, -⟩
    · rw [heq]
      exact List.mem_append_right _ (List.mem_singleton.2 rfl)
    · rw [hret] at hok
      cases hok
  have happ := mem_addCalls_append after hmem
  rwa [List.append_assoc] at happ

/-- The regions come from the calls. -/
theorem mem_of_mem_addCalls {r : BusRegion E} {calls : List (BusRegion E)}
    (hr : r ∈ addCalls calls) :
    r ∈ calls := by
  induction calls using List.reverseRecOn with
  | nil => exact hr
  | append_singleton before call ih =>
      rw [addCalls_snoc] at hr
      rcases addCall_regions (addCalls before) call with ⟨-, heq⟩ | ⟨-, heq⟩
      · rw [heq] at hr
        rcases List.mem_append.1 hr with hr | hr
        · exact List.mem_append_left _ (ih hr)
        · exact List.mem_append_right _ hr
      · rw [heq] at hr
        exact List.mem_append_left _ (ih hr)

/-! ## When all goes as it should -/

/-- A packet for a region waits for its component. -/
theorem simpleBusReceive_found {regions : List (BusRegion E)} {bus : SimpleBus E}
    (hfree : bus.busy = false)
    (sender : E) {pkt : Packet} {r : BusRegion E}
    (hfound : findBusRegion regions pkt.dst = some r) :
    simpleBusReceive regions bus sender pkt = (.OK, ⟨some r.component, pkt, true⟩) := by
  rw [simpleBusReceive, hfree, hfound]
  rfl

/-- A packet for no region is answered with an error. -/
theorem simpleBusReceive_unfound {regions : List (BusRegion E)} {bus : SimpleBus E}
    (hfree : bus.busy = false) (sender : E) {pkt : Packet}
    (hfound : findBusRegion regions pkt.dst = none) :
    simpleBusReceive regions bus sender pkt =
      (.OK, ⟨some sender, setFlags (response pkt) PACKET_ERROR, true⟩) := by
  rw [simpleBusReceive, hfree, hfound]
  rfl

/-- Fitting calls are decoded as they should be. -/
theorem AllFit.unambiguous {calls : List (BusRegion E)} (h : AllFit calls)
    (hvalid : ∀ call ∈ calls, call.Valid) : Unambiguous calls where
  accepted := by
    rintro before call after rfl
    obtain ⟨heq, hdec⟩ := AllFit.addCalls_eq h.of_append fun c hc =>
      hvalid c (List.mem_append_left _ hc)
    have hfits : Fits (addCalls before) call := by
      rw [heq]
      exact h before call after rfl
    exact hdec.accepted_iff (hvalid call (by simp)) hfits
  rejected := by
    rintro before call after rfl hret
    rcases addCall_regions (addCalls before) call with ⟨hok, -⟩ | ⟨-, heq⟩
    · exact absurd hok hret
    · exact heq
  routed bus sender pkt hfree r hr hcon :=
    simpleBusReceive_found hfree sender ((h.addCalls_eq hvalid).2.find_eq hr hcon)
  unrouted bus sender pkt hfree hno := by
    refine simpleBusReceive_unfound hfree sender ?_
    have hsome := (h.addCalls_eq hvalid).2.find_isSome pkt.dst
    cases hf : findBusRegion (addCalls calls) pkt.dst with
    | none => rfl
    | some r =>
        rw [hf] at hsome
        obtain ⟨r', hr', hcon⟩ := hsome.1 rfl
        exact absurd hcon (hno r' hr')

namespace Unambiguous

variable {calls : List (BusRegion E)}

/-- The regions a bus has accepted so far are apart. -/
theorem apart (h : Unambiguous calls) {before after : List (BusRegion E)}
    (heq : calls = before ++ after) : (addCalls before).Pairwise BusRegion.Apart := by
  induction before using List.reverseRecOn generalizing after with
  | nil => exact List.Pairwise.nil
  | append_singleton before call ih =>
      have hcalls : calls = before ++ call :: after := by rw [heq, List.append_assoc]; rfl
      have hbefore := ih hcalls
      rw [addCalls_snoc]
      rcases addCall_regions (addCalls before) call with ⟨hok, hregions⟩ | ⟨-, hregions⟩
      · rw [hregions, List.pairwise_append]
        refine ⟨hbefore, List.pairwise_singleton _ _, fun r hr r' hr' => ?_⟩
        rw [List.mem_singleton.1 hr']
        exact (h.accepted before call after hcalls).1 hok r hr
      · rw [hregions]
        exact hbefore

/-- No accepted region reaches the last address, since none of its addresses would be found. -/
theorem ends (h : Unambiguous calls) (hvalid : ∀ call ∈ calls, call.Valid) {r : BusRegion E}
    (hr : r ∈ addCalls calls) : r.addr.toNat + r.size.toNat < 2 ^ 64 := by
  have hrvalid := hvalid r (mem_of_mem_addCalls hr)
  refine Nat.lt_of_le_of_ne hrvalid.2 fun hend => ?_
  have hcon := hrvalid.contains_addr
  have hroute := h.routed ⟨none, .zero, false⟩ r.component { Packet.zero with dst := r.addr } rfl
    r hr hcon
  cases hf : findBusRegion (addCalls calls) r.addr with
  | none =>
      -- the packet would be answered with an error
      have herror : simpleBusReceive (addCalls calls) ⟨none, .zero, false⟩ r.component
          { Packet.zero with dst := r.addr } = _ := simpleBusReceive_unfound rfl r.component hf
      rw [herror] at hroute
      have hflags : (0 ||| PACKET_ERROR) = (0 : BitVec 32) :=
        congrArg (fun p => p.2.pkt.flags) hroute
      exact absurd hflags (by decide)
  | some r' =>
      have hr' : r' ∈ addCalls calls := List.mem_of_find?_eq_some hf
      have hdec : decodedBy r' r.addr = true := by
        rw [findBusRegion_eq] at hf
        exact List.find?_some (p := (decodedBy · r.addr)) hf
      have hne : r' ≠ r := by
        rintro rfl
        rw [decodedBy_of_last hend] at hdec
        cases hdec
      have hend' : r'.addr.toNat + r'.size.toNat < 2 ^ 64 := by
        refine Nat.lt_of_le_of_ne (hvalid r' (mem_of_mem_addCalls hr')).2 fun hend' => ?_
        rw [decodedBy_of_last hend'] at hdec
        cases hdec
      have hsymm : Std.Symm (BusRegion.Apart (E := E)) := ⟨fun _ _ h => h.symm⟩
      have hpair := h.apart (List.append_nil calls).symm
      exact hpair.forall hr' hr hne r.addr ((decodedBy_iff hend').1 hdec) hcon

/-- If all goes as it should, every call fits. -/
theorem allFit (h : Unambiguous calls) (hvalid : ∀ call ∈ calls, call.Valid)
    {before after : List (BusRegion E)} (heq : calls = before ++ after) : AllFit before := by
  induction before using List.reverseRecOn generalizing after with
  | nil =>
      intro b c a hnil
      simp at hnil
  | append_singleton before call ih =>
      have hcalls : calls = before ++ call :: after := by rw [heq, List.append_assoc]; rfl
      have hbefore := ih hcalls
      obtain ⟨hkept, hdec⟩ := AllFit.addCalls_eq hbefore fun c hc =>
        hvalid c (hcalls ▸ List.mem_append_left _ hc)
      have hacc := h.accepted before call after hcalls
      have hfits : Fits (addCalls before) call := by
        refine ⟨fun hapart => ?_, fun hover => ?_⟩
        · have hok := hacc.2 hapart
          refine ⟨h.ends hvalid (hcalls ▸ mem_addCalls_of_ok hok), fun r hr hstart => ?_⟩
          rcases hdec.addCall_eq call with ⟨-, -, hno⟩ | ⟨hret, -⟩
          · exact hno ⟨r, hr, Or.inr (hstart ▸ (hdec.valid r hr).contains_addr)⟩
          · rw [hret] at hok
            cases hok
        · rcases hdec.addCall_eq call with ⟨hok, -, -⟩ | ⟨-, -, hsome⟩
          · obtain ⟨r, hr, hnot⟩ := hover
            exact absurd (hacc.1 hok r hr) hnot
          · exact hsome
      intro b c a hsplit
      rcases List.eq_nil_or_concat a with rfl | ⟨a, last, rfl⟩
      · obtain ⟨rfl, hc⟩ := List.append_inj' hsplit rfl
        cases hc
        exact hkept ▸ hfits
      · rw [List.concat_eq_append, ← List.cons_append, ← List.append_assoc] at hsplit
        obtain ⟨hsplit, -⟩ := List.append_inj' hsplit rfl
        exact hbefore b c a hsplit

end Unambiguous

/-- The bus decodes the regions of a sequence of calls as it should exactly if every call fits the
regions kept before it. -/
theorem simpleBus_unambiguous {calls : List (BusRegion E)} (hvalid : ∀ call ∈ calls, call.Valid) :
    Unambiguous calls ↔ AllFit calls :=
  ⟨fun h => h.allFit hvalid (List.append_nil calls).symm, fun h => h.unambiguous hvalid⟩

/-- Two regions with a gap between them. -/
theorem simpleBus_unambiguous_gap :
    (∀ call ∈ [(⟨10, 10, 0⟩ : BusRegion Nat), ⟨30, 10, 1⟩], call.Valid) ∧
      (Unambiguous [(⟨10, 10, 0⟩ : BusRegion Nat), ⟨30, 10, 1⟩] ↔
        AllFit [(⟨10, 10, 0⟩ : BusRegion Nat), ⟨30, 10, 1⟩]) := by
  have hvalid : ∀ call ∈ [(⟨10, 10, 0⟩ : BusRegion Nat), ⟨30, 10, 1⟩], call.Valid := by
    simp [BusRegion.Valid]
  exact ⟨hvalid, simpleBus_unambiguous hvalid⟩

/-- A region that ends where an accepted one starts is refused. -/
theorem simpleBus_ambiguous :
    ¬ ∀ calls : List (BusRegion Nat), (∀ call ∈ calls, call.Valid) → Unambiguous calls := by
  intro h
  have hun := h [⟨10, 10, 0⟩, ⟨0, 10, 1⟩] (by simp [BusRegion.Valid])
  have hacc := hun.accepted [⟨10, 10, 0⟩] ⟨0, 10, 1⟩ [] rfl
  have hret : (addCall (addCalls [(⟨10, 10, 0⟩ : BusRegion Nat)]) ⟨0, 10, 1⟩).1 = .EEXISTS := by
    decide
  have hregions : addCalls [(⟨10, 10, 0⟩ : BusRegion Nat)] = [⟨10, 10, 0⟩] := rfl
  rw [hret, hregions] at hacc
  have hapart : ∀ r ∈ [(⟨10, 10, 0⟩ : BusRegion Nat)], r.Apart ⟨0, 10, 1⟩ := by
    intro r hr addr hcon hcon'
    rw [List.mem_singleton.1 hr] at hcon
    have hle : 10 ≤ addr.toNat := hcon.1
    have hlt : addr.toNat < 0 + 10 := hcon'.2
    omega
  cases hacc.2 hapart

end Gran
