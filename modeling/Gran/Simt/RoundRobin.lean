import Gran.Foundations.RoundRobin
import Gran.Simt.CacheAnswers

/-!
# The round-robin of the shared cache

`rr` moves in two places: a clock moves it on to the next busy slot when its own slot is free, and
the reply to its own slot moves it by one. Both are turns of an arbiter whose slots are held by the
lanes' requests (`step_turn`), so that no lane is passed over: while one waits, every other one is
the busy holder of slot `rr` for one request at most. `simtCache_round_robin` adds that a clock
which finds nothing in flight offers a request, or moves `rr` to a slot whose request the next clock
offers.
-/

namespace Gran.SimtCache

open Simt Relation RoundRobin

variable {C : Type} {c : SimtCache C} {s s' : State} {flight : List Packet} {flying : List Nat}

/-- The number of slots that `rr`, which has 32 bits, goes round. -/
def ring (c : SimtCache C) : Nat := min c.len (2 ^ 32)

/-- A slot is busy. -/
abbrev Busy (s : State) (i : Nat) : Prop := (s.reqs i).reg.busy = true

theorem Inv.busy_lt (hs : Inv c s flight flying) {i : Nat} (hbusy : Busy s i) : i < c.ring := by
  obtain ⟨hlen, -, haddr, -⟩ := hs.request i hbusy
  exact lt_min hlen (haddr ▸ laneOf_lt _)

theorem ne_of_free {i j : Nat} (hj : Busy s j) (hi : (s.reqs i).reg.busy = false) : j ≠ i := by
  rintro rfl
  rw [Busy, hi] at hj
  cases hj

theorem Inv.rr_lt (hs : Inv c s flight flying) : s.rr.toNat < c.ring := lt_min hs.rr s.rr.isLt

/-- `rr` goes round the ring. -/
theorem toNat_nextRr {rr : BitVec 32} (hrr : rr.toNat < c.ring) :
    (c.nextRr rr).toNat = next c.ring rr.toNat := by
  have hlt := rr.isLt
  have hring : c.ring = min c.len (2 ^ 32) := rfl
  have hadd : (rr + 1).toNat = (rr.toNat + 1) % 2 ^ 32 := BitVec.toNat_add rr 1
  have hle : (rr + 1).toNat % c.len ≤ (rr + 1).toNat := Nat.mod_le _ _
  have hlt' := (rr + 1).isLt
  have hfits : (rr + 1).toNat % c.len < 2 ^ 32 := lt_of_le_of_lt hle hlt'
  rw [nextRr, BitVec.toNat_ofNat, Nat.mod_eq_of_lt hfits, hadd, next]
  by_cases hwrap : rr.toNat + 1 = 2 ^ 32
  · rw [hwrap, if_pos (by omega), Nat.mod_self, Nat.zero_mod]
  · have hsucc : (rr.toNat + 1) % 2 ^ 32 = rr.toNat + 1 := Nat.mod_eq_of_lt (by omega)
    rw [hsucc]
    by_cases hlen : rr.toNat + 1 = c.len
    · rw [← hlen, if_pos (by omega), Nat.mod_self]
    · rw [if_neg (by omega), Nat.mod_eq_of_lt (by omega)]

/-- The second loop of the clock moves `rr` on to the next busy slot. -/
theorem advance_eq (hrr : s.rr.toNat < c.ring) (k : Nat) :
    ∃ rr, c.advance s k = some { s with rr } ∧
      rr.toNat = seek (fun i => (s.reqs i).reg.busy) c.ring s.rr.toNat k := by
  induction k generalizing s with
  | zero => exact ⟨s.rr, rfl, rfl⟩
  | succ k ih =>
      have hnext := toNat_nextRr hrr
      have hlt : (c.nextRr s.rr).toNat < c.ring := hnext ▸ next_lt hrr
      have hat := reqsAt_of_lt (s := { s with rr := c.nextRr s.rr })
        (lt_of_lt_of_le hlt (min_le_left _ _))
      cases hbusy : (s.reqs (c.nextRr s.rr).toNat).reg.busy with
      | true =>
          refine ⟨c.nextRr s.rr, by simp [advance, hat, hbusy], ?_⟩
          rw [seek, ← hnext, if_pos hbusy]
      | false =>
          obtain ⟨rr, hadv, hseek⟩ := ih (s := { s with rr := c.nextRr s.rr }) hlt
          refine ⟨rr, by simp [advance, hat, hbusy, hadv], ?_⟩
          rw [hseek, seek, ← hnext, hbusy, if_neg Bool.false_ne_true]

/-! ## Every step is a turn -/

/-- The requests of the lanes as the holders of the slots: a lane's request is known by the requests
the lane got accepted before. -/
def arbiter (s : System) : Arbiter (List Packet) where
  pointer := s.cache.rr.toNat
  holder i := if (s.cache.reqs i).reg.busy then some (s.accepted i) else none

theorem holder_ne_none {s : System} {i : Nat} :
    (arbiter s).holder i ≠ none ↔ Busy s.cache i := by
  cases h : (s.cache.reqs i).reg.busy <;> simp [arbiter, Busy, h]

/-- A step that leaves `rr` alone is a turn as long as it keeps the request of slot `rr`. -/
theorem turn_of_same {s s' : System} (hs : Inv c s.cache flight flying)
    (hrr : s'.cache.rr = s.cache.rr)
    (hkeep : Busy s.cache s.cache.rr.toNat →
      (arbiter s').holder s.cache.rr.toNat = (arbiter s).holder s.cache.rr.toNat) :
    Turn c.ring (arbiter s) (arbiter s') := by
  have hptr : (arbiter s').pointer = (arbiter s).pointer := congrArg BitVec.toNat hrr
  refine ⟨hptr ▸ hs.rr_lt, fun i hi _ _ => ?_, fun hheld => Or.inl ⟨hptr, ?_⟩⟩
  · rw [hptr, ahead_self]
    exact Nat.zero_le _
  · exact hkeep (holder_ne_none.1 hheld)

/-- A clock that sends nothing on for slot `rr` moves `rr` on to the next busy slot. -/
theorem simtCacheClock_turn {answer : Packet → Stat} {s : System} {ret : Stat} {t : State} {w : Env}
    (hanswer : ∀ pkt, answer pkt = .OK ∨ answer pkt = .EBUSY)
    (hs : Inv c s.cache s.env.flight flying)
    (h : c.simtCacheClock (ports answer) s.cache s.env = some (ret, t, w)) :
    Turn c.ring (arbiter s) (arbiter ⟨t, w, s.accepted⟩) := by
  obtain ⟨t₁, w₁, flying₁, hsend, hs₁, hserved⟩ :=
    sendQueued_inv hanswer (l := List.range c.len) (fun i hi => List.mem_range.1 hi) hs
  simp only [simtCacheClock, hsend, Option.bind_eq_bind, Option.bind_some, reqsAt_of_lt hs₁.rr,
    Option.pure_def] at h
  have hheld : ∀ i, (arbiter ⟨{ t₁ with rr := t.rr }, w, s.accepted⟩).holder i =
      (arbiter s).holder i := fun i => by simp only [arbiter, hserved.reg]
  cases hbusy : (t₁.reqs t₁.rr.toNat).reg.busy with
  | true =>
      obtain ⟨-, rfl, rfl⟩ : Stat.OK = ret ∧ t₁ = t ∧ w₁ = w := by simpa [hbusy] using h
      exact turn_of_same hs hserved.rr fun _ => hheld _
  | false =>
      obtain ⟨rr, hadv, hseek⟩ := advance_eq hs₁.rr_lt c.len
      obtain ⟨-, rfl, rfl⟩ : Stat.OK = ret ∧ { t₁ with rr } = t ∧ w₁ = w := by
        simpa [hbusy, hadv] using h
      rw [hserved.rr] at hseek
      have hlt : rr.toNat < c.ring := hseek ▸ seek_lt _ hs.rr_lt _
      refine ⟨hlt, fun i hi hheld' hne => ?_, fun hheld' => ?_⟩
      · have hheldi : (t₁.reqs i).reg.busy = true := by
          rw [hserved.reg]
          exact holder_ne_none.1 hheld'
        have hle : ahead c.ring s.cache.rr.toNat i ≤ c.len :=
          (ahead_lt hs.rr_lt hi).le.trans (min_le_left _ _)
        have hstop := (seek_stops (fun i => (t₁.reqs i).reg.busy) hs.rr_lt hi hheldi hne
          hle).2
        rwa [← hseek] at hstop
      · have hfree := holder_ne_none.1 hheld'
        simp only [arbiter] at hfree
        rw [hserved.rr, hserved.reg, hfree] at hbusy
        cases hbusy

/-- The reply to slot `rr` moves `rr` by one and frees the slot, and the reply to another slot does
neither. -/
theorem handleResponse_rr {answer : Packet → Stat} {before after : List Nat} {i : Nat} {r : Packet}
    {w w' : Env} {ok : Stat} (hs : Inv c s flight (before ++ i :: after))
    (hrcv : c.rcv.truncate 32 = 0#32) (hr : IsFirst c s before i r)
    (h : c.simtCacheHandleResponse (ports answer) r s w = some (ok, s', w')) :
    (s.rr.toNat = i ∧ s'.rr = c.nextRr s.rr ∧ ¬ Busy s' i) ∨
      (s.rr.toNat ≠ i ∧ s'.rr = s.rr ∧ s'.reqs s.rr.toNat = s.reqs s.rr.toNat) := by
  rw [handleResponse_eq hs hrcv hr] at h
  by_cases hrr : s.rr.toNat = i
  · rw [if_pos hrr] at h
    refine Or.inl ⟨hrr, ?_⟩
    cases hkind : isSet r PACKET_READ with
    | false =>
        rw [hkind, if_neg Bool.false_ne_true, respond_eq hs hr] at h
        obtain ⟨-, rfl, -⟩ := by simpa only [Option.some.injEq, Prod.mk.injEq] using h
        exact ⟨rfl, by simp [Busy, Req.freed]⟩
    | true =>
        obtain ⟨t, v, hbroadcast, hmoved, -, hreqs, -⟩ :=
          broadcast_eq hs answer w (c.nextRr s.rr) hkind
        rw [hkind, if_pos rfl, hbroadcast] at h
        obtain ⟨-, rfl, -⟩ := by simpa only [Option.some.injEq, Prod.mk.injEq] using h
        refine ⟨hmoved, ?_⟩
        rw [Busy, hreqs i, hit_self hs hr hkind, if_pos rfl]
        exact Bool.false_ne_true
  · rw [if_neg hrr, respond_eq hs hr] at h
    obtain ⟨-, rfl, -⟩ := by simpa only [Option.some.injEq, Prod.mk.injEq] using h
    exact Or.inr ⟨hrr, rfl, setReq_ne hrr _⟩

variable [DecidableEq C]

/-- Every step of a run is a turn of the round-robin. -/
theorem step_turn {s s' : System} (hrcv : c.rcv.truncate 32 = 0#32) (hs : Good c s flying)
    (hstep : System.Step c s s') : Turn c.ring (arbiter s) (arbiter s') := by
  cases hstep with
  | clock answer hanswer ret t w h => exact simtCacheClock_turn hanswer hs.inv h
  | request i hi sender hlane hmem pkt haddr hreq ret t w h =>
      rcases receive_lane_cases hs.inv hi hlane hmem haddr h with
        ⟨-, rfl, rfl, rfl⟩ | ⟨hfree, rfl, rfl, rfl⟩
      · exact turn_of_same hs.inv rfl fun _ => rfl
      · refine turn_of_same hs.inv rfl fun hheld => ?_
        have hne := ne_of_free hheld hfree
        simp [arbiter, setReq_ne hne, hne]
  | reply before p after hflight hfirst r hr ret t w h =>
      obtain ⟨b, i, a, rfl, rfl, rfl, rfl, hisFirst⟩ := split_first hs.inv hflight hfirst hr
      rw [simtCacheReceive, if_pos rfl] at h
      rcases handleResponse_rr hs.inv hrcv hisFirst h with ⟨hrr, hmoved, hfree⟩ |
          ⟨-, hsame, hkeep⟩
      · have hnext : t.rr.toNat = next c.ring s.cache.rr.toNat := by
          rw [hmoved, toNat_nextRr hs.inv.rr_lt]
        have hlt : t.rr.toNat < c.ring := hnext ▸ next_lt hs.inv.rr_lt
        refine ⟨hlt, fun j hj _ hne => ?_, fun _ => Or.inr ⟨hnext, ?_⟩⟩
        · have hfar := ahead_next hs.inv.rr_lt hj hne
          have hone := ahead_next hs.inv.rr_lt (next_lt hs.inv.rr_lt) (next_ne hj hne)
          rw [ahead_self] at hone
          change ahead c.ring s.cache.rr.toNat t.rr.toNat ≤ ahead c.ring s.cache.rr.toNat j
          rw [hnext]
          omega
        · by_contra hheld
          exact hfree (hrr ▸ holder_ne_none.1 hheld)
      · refine turn_of_same hs.inv hsame fun _ => ?_
        simp only [arbiter, hkeep]

/-! ## What a clock offers -/

/-- A memory that answers `answer`, with the requests it was offered, oldest first. -/
def logged (answer : Packet → Stat) : Ports (Env × List Packet) where
  mem pkt w := ((ports answer).mem pkt w.1).map fun x => (x.1, x.2, w.2 ++ [pkt])
  lane i pkt w := ((ports answer).lane i pkt w.1).map fun x => (x.1, x.2, w.2)

/-- The result of a call without the requests that were offered. -/
def forget (x : Stat × State × Env × List Packet) : Stat × State × Env := (x.1, x.2.1, x.2.2.1)

section Logged

omit [DecidableEq C]

variable {answer : Packet → Stat} {w w' : Env} {log log' : List Packet} {ok : Stat}

/-- The log changes nothing. -/
theorem sendSlot_forget (s : State) (w : Env × List Packet) (i : Nat) :
    (c.sendSlot (logged answer) s w i).map forget = c.sendSlot (ports answer) s w.1 i := by
  unfold sendSlot extSend
  cases c.reqsAt s s.rr.toNat with
  | none => rfl
  | some shared =>
      cases c.reqsAt s i with
      | none => rfl
      | some r =>
          simp only [Option.bind_eq_bind, Option.bind_some]
          split_ifs with hqueued hbusy hshare hblock
          · rfl
          · rfl
          · rfl
          · have hguard : r.reg.busy = true := by simpa using hbusy
            simp only [hguard, logged, ports, guard_true, Option.pure_def, Option.bind_some,
              Option.map_some]
            split_ifs <;> rfl
          · rfl

theorem sendQueued_forget (s : State) (w : Env × List Packet) (l : List Nat) :
    (c.sendQueued (logged answer) s w l).map forget = c.sendQueued (ports answer) s w.1 l := by
  induction l generalizing s w with
  | nil => rfl
  | cons i l ih =>
      rw [sendQueued, sendQueued, ← sendSlot_forget]
      cases c.sendSlot (logged answer) s w i with
      | none => rfl
      | some x =>
          simp only [Option.bind_eq_bind, Option.bind_some, Option.map_some, forget]
          split_ifs
          · exact ih x.2.1 x.2.2
          · rfl

theorem simtCacheClock_forget (s : State) (w : Env × List Packet) :
    (c.simtCacheClock (logged answer) s w).map forget =
      c.simtCacheClock (ports answer) s w.1 := by
  rw [simtCacheClock, simtCacheClock, ← sendQueued_forget]
  cases c.sendQueued (logged answer) s w (List.range c.len) with
  | none => rfl
  | some x =>
      simp only [Option.bind_eq_bind, Option.bind_some, Option.map_some, forget]
      split_ifs with hok
      · rfl
      · cases c.reqsAt x.2.1 x.2.1.rr.toNat with
        | none => rfl
        | some shared =>
            simp only [Option.bind_some]
            split_ifs
            · cases c.advance x.2.1 c.len <;> rfl
            · rfl

/-- A clock with a log is a clock. -/
theorem exists_logged (h : c.simtCacheClock (ports answer) s w = some (ok, s', w')) :
    ∃ offers, c.simtCacheClock (logged answer) s (w, []) = some (ok, s', w', offers) := by
  rw [← simtCacheClock_forget s (w, [])] at h
  obtain ⟨⟨ok', t, v, offers⟩, hrun, hx⟩ := Option.map_eq_some_iff.1 h
  obtain ⟨rfl, rfl, rfl⟩ : ok' = ok ∧ t = s' ∧ v = w' := by simpa [forget] using hx
  exact ⟨offers, hrun⟩

/-- The first loop offers the request of slot `i`. -/
structure Offers (c : SimtCache C) (s : State) (i : Nat) : Prop where
  queued : (s.reqs i).queued = true
  busy : Busy s i
  alone : shares s.rr i (s.reqs i) (s.reqs s.rr.toNat) = false
  port : c.blockIdx (s.reqs i).reg.pkt = i ∨ s.rr.toNat = i

/-- What one iteration of the first loop does when it offers nothing. -/
inductive Skips (c : SimtCache C) (s s' : State) (i : Nat) : Prop where
  | same (hoffers : ¬ Offers c s i) (h : s' = s)
  | coalesced (hshare : shares s.rr i (s.reqs i) (s.reqs s.rr.toNat) = true)
      (h : s' = s.setReq i { s.reqs i with queued := false })

/-- One iteration of the first loop offers nothing, or the request of its slot. -/
theorem sendSlot_logged {i : Nat}
    (h : c.sendSlot (logged answer) s (w, log) i = some (ok, s', w', log')) :
    (ok = .OK ∧ log' = log ∧ w' = w ∧ Skips c s s' i) ∨
      (log' = log ++ [c.sentPacket s i] ∧ w'.flight =
        if answer (c.sentPacket s i) = .OK then w.flight ++ [c.sentPacket s i] else w.flight) := by
  simp only [sendSlot, reqsAt, Option.bind_eq_bind, Option.bind_eq_some_iff,
    Option.ite_none_right_eq_some, Option.some.injEq] at h
  obtain ⟨shared, ⟨-, rfl⟩, r, ⟨-, rfl⟩, h⟩ := h
  have hskip : ¬ Offers c s i → some (Stat.OK, s, w, log) = some (ok, s', w', log') →
      ok = .OK ∧ log' = log ∧ w' = w ∧ Skips c s s' i := by
    intro hoffers h
    obtain ⟨rfl, rfl, rfl, rfl⟩ := by simpa only [Option.some.injEq, Prod.mk.injEq] using h
    exact ⟨rfl, rfl, rfl, .same hoffers rfl⟩
  split_ifs at h with hqueued hbusy hshare hblock
  · exact Or.inl (hskip (fun ho => by simp [ho.queued] at hqueued) h)
  · refine Or.inl (hskip (fun ho => ?_) h)
    have hfull : (s.reqs i).reg.busy = true := ho.busy
    simp [hfull] at hbusy
  · obtain ⟨rfl, rfl, rfl, rfl⟩ := by
      simpa only [Option.pure_def, Option.some.injEq, Prod.mk.injEq] using h
    exact Or.inl ⟨rfl, rfl, rfl, .coalesced hshare rfl⟩
  · have hguard : (s.reqs i).reg.busy = true := by simpa using hbusy
    simp only [extSend, hguard, logged, ports, guard_true, Option.pure_def, Option.bind_eq_bind,
      Option.bind_some, Option.map_some] at h
    refine Or.inr ?_
    unfold sentPacket
    split_ifs at h with hans
    · obtain ⟨-, -, rfl, rfl⟩ := by simpa only [Option.some.injEq, Prod.mk.injEq] using h
      exact ⟨rfl, by rw [if_pos hans]⟩
    · obtain ⟨-, -, rfl, rfl⟩ := by simpa only [Option.some.injEq, Prod.mk.injEq] using h
      exact ⟨rfl, by rw [if_neg hans]⟩
  · exact Or.inl (hskip (fun ho => hblock ho.port) h)

/-- Skipping a slot changes neither what the slots hold nor `rr`, and nothing at all while slot `rr`
is free. A slot that is offered after it was offered before it. -/
theorem Skips.spec {i : Nat} (h : Skips c s s' i) :
    (∀ j, (s'.reqs j).reg = (s.reqs j).reg) ∧ s'.rr = s.rr ∧
      (¬ Busy s s.rr.toNat → s' = s) ∧ ¬ Offers c s i ∧ ∀ j, Offers c s j → Offers c s' j := by
  cases h with
  | same hoffers h => exact ⟨fun _ => by rw [h], by rw [h], fun _ => h, hoffers, fun _ ho => h ▸ ho⟩
  | coalesced hshare h =>
      have hnot : ¬ Offers c s i := by
        intro ho
        rw [ho.alone] at hshare
        cases hshare
      have hreg : ∀ j, (s'.reqs j).reg = (s.reqs j).reg := fun j => h ▸ setQueued_pkt j
      have hrr : s'.rr = s.rr := h ▸ rfl
      refine ⟨hreg, hrr, fun hfree => ?_, hnot, fun j ho => ?_⟩
      · refine absurd ?_ hfree
        simp only [shares, Bool.and_eq_true] at hshare
        exact hshare.1.1.1.1
      · have hne : j ≠ i := by
          rintro rfl
          exact hnot ho
        refine ⟨?_, ?_, ?_, ?_⟩
        · rw [h, setReq_ne hne]
          exact ho.queued
        · rw [Busy, hreg]
          exact ho.busy
        · have halone := ho.alone
          simp only [shares, hreg, hrr] at halone ⊢
          exact halone
        · rw [hreg, hrr]
          exact ho.port

/-- A memory that answers `answer` accepts the first of the requests it is offered. -/
def AcceptsFirst (answer : Packet → Stat) (offers : List Packet) : Prop :=
  ∀ pkt, offers.head? = some pkt → answer pkt = .OK

/-- Nothing that was in flight is lost, and once the memory accepts the first request it is offered
something is in flight. If nothing is offered no slot was to be offered, and nothing happens unless
slot `rr` is busy. -/
theorem sendQueued_logged {l : List Nat}
    (h : c.sendQueued (logged answer) s (w, log) l = some (ok, s', w', log')) :
    ∃ new, log' = log ++ new ∧ (w.flight ≠ [] → w'.flight ≠ []) ∧
      (new ≠ [] → AcceptsFirst answer new → w'.flight ≠ []) ∧
      (new = [] → w' = w ∧ s'.rr = s.rr ∧ (¬ Busy s s.rr.toNat → s' = s) ∧
        ∀ i ∈ l, ¬ Offers c s i) := by
  induction l generalizing s w log with
  | nil =>
      obtain ⟨-, rfl, rfl, rfl⟩ := by
        simpa only [sendQueued, Option.some.injEq, Prod.mk.injEq] using h
      exact ⟨[], by simp, id, fun hne => absurd rfl hne, fun _ => ⟨rfl, rfl, fun _ => rfl, by simp⟩⟩
  | cons i l ih =>
      simp only [sendQueued, Option.bind_eq_bind, Option.bind_eq_some_iff] at h
      obtain ⟨⟨ok₁, s₁, w₁, log₁⟩, hslot, h⟩ := h
      rcases sendSlot_logged hslot with ⟨rfl, rfl, rfl, hskips⟩ | ⟨rfl, hflight⟩
      · obtain ⟨hreg, hrr, hsame, hnot, hoffers⟩ := hskips.spec
        rw [if_pos (Or.inl rfl)] at h
        obtain ⟨new, hlog, hkeep, hfirst, hnone⟩ := ih h
        refine ⟨new, hlog, hkeep, hfirst, fun hnew => ?_⟩
        obtain ⟨hw, hrr', hsame', hall⟩ := hnone hnew
        refine ⟨hw, hrr'.trans hrr, fun hfree => ?_, fun j hj => ?_⟩
        · have hs₁ := hsame hfree
          subst hs₁
          exact hsame' hfree
        · rcases List.mem_cons.1 hj with rfl | hj
          · exact hnot
          · exact fun ho => hall j hj (hoffers j ho)
      · have hrest : ∃ new, log' = log ++ [c.sentPacket s i] ++ new ∧
            (w₁.flight ≠ [] → w'.flight ≠ []) := by
          split_ifs at h with hok
          · obtain ⟨new, hlog, hkeep, -⟩ := ih h
            exact ⟨new, hlog, hkeep⟩
          · obtain ⟨-, -, rfl, rfl⟩ := by
              simpa only [Option.pure_def, Option.some.injEq, Prod.mk.injEq] using h
            exact ⟨[], by simp, id⟩
        obtain ⟨new, hlog, hkeep⟩ := hrest
        refine ⟨c.sentPacket s i :: new, by simp [hlog], fun hne => hkeep ?_,
          fun _ hfirst => hkeep ?_, fun hnil => absurd hnil (List.cons_ne_nil _ _)⟩
        · rw [hflight]
          split_ifs
          · simp
          · exact hne
        · rw [hflight, if_pos (hfirst _ rfl)]
          simp

/-- With nothing in flight, a request in slot `rr` is offered. -/
theorem Inv.offers (hs : Inv c s flight []) (hbusy : Busy s s.rr.toNat) :
    Offers c s s.rr.toNat := by
  have hqueued : (s.reqs s.rr.toNat).queued = true := by
    rcases hs.covered _ hbusy with h | h | h
    · exact h
    · exact absurd h List.not_mem_nil
    · exact absurd rfl h.ne
  exact ⟨hqueued, hbusy, by simp [shares], Or.inr rfl⟩

/-- With nothing in flight, a clock offers a request, or slot `rr` is free and `rr` moves on to the
next busy slot. -/
theorem clock_offers {offers : List Packet} (hs : Inv c s w.flight [])
    (h : c.simtCacheClock (logged answer) s (w, []) = some (.OK, s', w', offers)) :
    (offers ≠ [] → AcceptsFirst answer offers → w'.flight ≠ []) ∧
      (offers = [] → ¬ Busy s s.rr.toNat ∧ w' = w ∧ c.advance s c.len = some s') := by
  simp only [simtCacheClock, Option.bind_eq_bind, Option.bind_eq_some_iff] at h
  obtain ⟨⟨ok₁, s₁, w₁, log₁⟩, hsend, h⟩ := h
  obtain ⟨new, hlog, -, hfirst, hnone⟩ := sendQueued_logged hsend
  rw [List.nil_append] at hlog
  subst hlog
  split_ifs at h with hok
  · obtain ⟨rfl, -⟩ := by simpa only [Option.pure_def, Option.some.injEq, Prod.mk.injEq] using h
    exact absurd rfl hok
  · simp only [Option.bind_eq_some_iff] at h
    obtain ⟨shared, hshared, h⟩ := h
    have hend : w₁ = w' ∧ log₁ = offers := by
      split_ifs at h
      · obtain ⟨t, -, ht⟩ := Option.bind_eq_some_iff.1 h
        obtain ⟨-, -, hw, hlog⟩ := by
          simpa only [Option.pure_def, Option.some.injEq, Prod.mk.injEq] using ht
        exact ⟨hw, hlog⟩
      · obtain ⟨-, -, hw, hlog⟩ := by
          simpa only [Option.pure_def, Option.some.injEq, Prod.mk.injEq] using h
        exact ⟨hw, hlog⟩
    obtain ⟨rfl, rfl⟩ := hend
    refine ⟨hfirst, fun hnil => ?_⟩
    obtain ⟨hw, hrr, hsame, hall⟩ := hnone hnil
    have hfree : ¬ Busy s s.rr.toNat := fun hbusy =>
      hall _ (List.mem_range.2 hs.rr) (hs.offers hbusy)
    have hs₁ := hsame hfree
    subst hs₁
    obtain rfl : s₁.reqs s₁.rr.toNat = shared :=
      Option.some.inj ((reqsAt_of_lt hs.rr).symm.trans hshared)
    have hbusy : (s₁.reqs s₁.rr.toNat).reg.busy = false := Bool.not_eq_true _ ▸ hfree
    rw [hbusy, Bool.not_false, if_pos rfl] at h
    obtain ⟨t, hadv, ht⟩ := Option.bind_eq_some_iff.1 h
    obtain ⟨-, rfl, -, -⟩ := by
      simpa only [Option.pure_def, Option.some.injEq, Prod.mk.injEq] using ht
    exact ⟨hfree, hw, hadv⟩

/-- `rr` moves on to a busy slot if there is one. -/
theorem advance_busy (hs : Inv c s flight flying) {i : Nat} (hbusy : Busy s i)
    (hfree : ¬ Busy s s.rr.toNat) (h : c.advance s c.len = some s') : Busy s' s'.rr.toNat := by
  obtain ⟨rr, hadv, hseek⟩ := advance_eq hs.rr_lt c.len
  obtain rfl : { s with rr } = s' := Option.some.inj (hadv.symm.trans h)
  have hne : i ≠ s.rr.toNat := by
    rintro rfl
    exact hfree hbusy
  have hle : ahead c.ring s.rr.toNat i ≤ c.len :=
    (ahead_lt hs.rr_lt (hs.busy_lt hbusy)).le.trans (min_le_left _ _)
  have hstop := (seek_stops (fun i => (s.reqs i).reg.busy) hs.rr_lt (hs.busy_lt hbusy)
    hbusy hne hle).1
  rwa [← hseek] at hstop

end Logged

/-! ## The result -/

/-- A step of a run after which slot `i` still waits for its answer. -/
def Waits (c : SimtCache C) (i : Nat) (s s' : System) : Prop :=
  System.Step c s s' ∧ Busy s'.cache i

/-- Lane `j` is the busy holder of slot `rr`. -/
def Holds (s : System) (j : Nat) : Prop := s.cache.rr.toNat = j ∧ Busy s.cache j

/-- A request of a lane. -/
inductive Asks (c : SimtCache C) (s : System) : System → Prop where
  | request (i : Nat) (hi : i < c.len) (sender : C) (hlane : c.lanes i = some sender)
      (hmem : c.mem ≠ sender) (pkt : Packet) (haddr : laneOf pkt.src = i)
      (hreq : Simt.IsRequest pkt)
      (ret : Stat) (s' : State) (w' : Env)
      (h : c.simtCacheReceive quiet sender pkt s.cache s.env = some (ret, s', w')) :
      Asks c s ⟨s', w', if ret = .OK then Function.update s.accepted i (pkt :: s.accepted i)
        else s.accepted⟩

/-- A clock of a run during which the memory is offered `offers`, oldest first. -/
structure Clocked (c : SimtCache C) (answer : Packet → Stat) (s s' : System)
    (offers : List Packet) : Prop where
  step : System.Step c s s'
  run : c.simtCacheClock (logged answer) s.cache (s.env, []) =
    some (.OK, s'.cache, s'.env, offers)

/-- A memory that accepts the first request it is offered has one in flight after a clock, or after
a second one before which the lanes may present requests. -/
def Recovers (c : SimtCache C) (s : System) : Prop :=
  ∀ answer₁ answer₂ : Packet → Stat, (∀ pkt, answer₁ pkt = .OK ∨ answer₁ pkt = .EBUSY) →
    (∀ pkt, answer₂ pkt = .OK ∨ answer₂ pkt = .EBUSY) →
    ∃ s₁ offers₁, Clocked c answer₁ s s₁ offers₁ ∧ (AcceptsFirst answer₁ offers₁ →
      s₁.env.flight ≠ [] ∨ (offers₁ = [] ∧ ∀ u, ReflTransGen (Asks c) s₁ u →
        ∃ s₂ offers₂, Clocked c answer₂ u s₂ offers₂ ∧
          (AcceptsFirst answer₂ offers₂ → s₂.env.flight ≠ [])))

/-- `rr` passes no busy slot and leaves one only when it is answered, while a lane waits every other
one is the busy holder of slot `rr` for one request at most, and the cache does not idle. -/
structure Fair (c : SimtCache C) (s : System) : Prop where
  passes : ∀ s', System.Step c s s' → ∀ i, Busy s.cache i → i ≠ s.cache.rr.toNat →
    ahead c.ring s.cache.rr.toNat s'.cache.rr.toNat ≤ ahead c.ring s.cache.rr.toNat i
  leaves : ∀ s', System.Step c s s' → Busy s.cache s.cache.rr.toNat →
    s'.cache.rr = s.cache.rr ∨ ¬ Busy s'.cache s.cache.rr.toNat
  once : ∀ i, Busy s.cache i → ∀ s', ReflTransGen (Waits c i) s s' → ∀ j ≠ i, Holds s j →
    Holds s' j → s'.accepted j = s.accepted j
  recovers : (∃ i, Busy s.cache i) → s.env.flight = [] → Recovers c s

variable {u v : System}

/-- A cache without lanes does nothing. -/
theorem Reachable.len_pos (h : Reachable c u) {i : Nat} (hbusy : Busy u.cache i) : 0 < c.len := by
  by_contra hlen
  have hzero : c.len = 0 := by omega
  have hinit : u = .init := by
    clear hbusy
    induction h with
    | refl => rfl
    | tail _ hstep ih =>
        subst ih
        cases hstep with
        | clock answer hanswer ret t w h => simp [simtCacheClock, sendQueued, reqsAt, hzero] at h
        | request i hi => omega
        | reply before p after hflight => simp [System.init] at hflight
  rw [hinit] at hbusy
  cases hbusy

/-- While slot `i` waits it stays held. -/
theorem holding_of_waits (hrcv : c.rcv.truncate 32 = 0#32) (hs : Good c u flying) {i : Nat}
    (hrun : ReflTransGen (Waits c i) u v) :
    ReflTransGen (Holding c.ring i) (arbiter u) (arbiter v) ∧ ∃ flying', Good c v flying' := by
  induction hrun with
  | refl => exact ⟨.refl, flying, hs⟩
  | tail _ hstep ih =>
      obtain ⟨hheld, flying', hs'⟩ := ih
      exact ⟨hheld.tail ⟨step_turn hrcv hs' hstep.1, holder_ne_none.2 hstep.2⟩,
        hstep.1.good hrcv hs'⟩

/-- While slot `i` waits, another slot holds `rr` for one request. -/
theorem accepted_of_waits (hrcv : c.rcv.truncate 32 = 0#32) (hs : Good c u flying) {i j : Nat}
    (hbusy : Busy u.cache i) (hrun : ReflTransGen (Waits c i) u v) (hne : j ≠ i)
    (hholds : Holds u j) (hholds' : Holds v j) : v.accepted j = u.accepted j := by
  obtain ⟨hrr, hj⟩ := hholds
  obtain ⟨hrr', hj'⟩ := hholds'
  have hsame : (arbiter v).holder (arbiter u).pointer = (arbiter u).holder (arbiter u).pointer :=
    RoundRobin.held_once hs.inv.rr_lt (hs.inv.busy_lt hbusy) (holder_ne_none.2 hbusy)
      (holding_of_waits hrcv hs hrun).1 (by rw [show (arbiter u).pointer = j from hrr]; exact hne)
      (holder_ne_none.2 (by rw [show (arbiter u).pointer = j from hrr]; exact hj))
      (hrr'.trans hrr.symm)
  rw [show (arbiter u).pointer = j from hrr] at hsame
  simpa [arbiter, hj, hj'] using hsame

/-- Lanes that ask change neither what is in flight nor `rr`, whose slot stays busy. -/
theorem asks_inv (hrun : ReflTransGen (Asks c) u v) (hs : Inv c u.cache u.env.flight flying)
    (hbusy : Busy u.cache u.cache.rr.toNat) :
    Inv c v.cache v.env.flight flying ∧ v.env = u.env ∧ Busy v.cache v.cache.rr.toNat := by
  induction hrun with
  | refl => exact ⟨hs, rfl, hbusy⟩
  | @tail b _ _ hstep ih =>
      obtain ⟨hs', henv, hheld⟩ := ih
      cases hstep with
      | request i hi sender hlane hmem pkt haddr hreq ret t w h =>
          rcases receive_lane_cases hs' hi hlane hmem haddr h with
            ⟨-, rfl, rfl, rfl⟩ | ⟨hfree, rfl, rfl, rfl⟩
          · exact ⟨hs', henv, hheld⟩
          · refine ⟨hs'.request_set hfree hi (by simp [hlane]) haddr hreq, henv, ?_⟩
            rw [Busy, setReq_rr, setReq_ne (ne_of_free hheld hfree)]
            exact hheld

/-- A clock of the run, with what the memory is offered. -/
theorem exists_clocked {answer : Packet → Stat}
    (hanswer : ∀ pkt, answer pkt = .OK ∨ answer pkt = .EBUSY)
    (hs : Inv c u.cache u.env.flight flying) :
    ∃ v offers flying', Clocked c answer u v offers ∧ Inv c v.cache v.env.flight flying' := by
  obtain ⟨t, w, flying', hclock, hinv, -⟩ := simtCacheClock_inv hanswer hs
  obtain ⟨offers, hrun⟩ := exists_logged hclock
  exact ⟨⟨t, w, u.accepted⟩, offers, flying', ⟨.clock answer hanswer .OK t w hclock, hrun⟩, hinv⟩

/-- With nothing in flight and a busy slot, the first clock or the second one sends a request. -/
theorem Inv.recovers (hs : Inv c u.cache u.env.flight []) {i : Nat} (hbusy : Busy u.cache i)
    (hflight : u.env.flight = []) : Recovers c u := by
  intro answer₁ answer₂ hanswer₁ hanswer₂
  obtain ⟨v, offers₁, flying₁, hclocked, hinv⟩ := exists_clocked hanswer₁ hs
  obtain ⟨hsent, hnone⟩ := clock_offers hs hclocked.run
  refine ⟨v, offers₁, hclocked, fun hfirst => ?_⟩
  by_cases hnil : offers₁ = []
  · refine Or.inr ⟨hnil, fun x hasks => ?_⟩
    obtain ⟨hfree, henv, hadv⟩ := hnone hnil
    have hempty : flying₁ = [] := by
      have hmap := hinv.flight
      rw [henv, hflight] at hmap
      exact List.map_eq_nil_iff.1 hmap.symm
    rw [hempty] at hinv
    obtain ⟨hx, -, hheld⟩ := asks_inv hasks hinv (advance_busy hs hbusy hfree hadv)
    obtain ⟨y, offers₂, -, hclocked₂, -⟩ := exists_clocked hanswer₂ hx
    obtain ⟨hsent₂, hnone₂⟩ := clock_offers hx hclocked₂.run
    exact ⟨y, offers₂, hclocked₂, hsent₂ fun hnil₂ => (hnone₂ hnil₂).1 hheld⟩
  · exact Or.inl (hsent hnil hfirst)

/-- No lane is starved by the round-robin: for any number of lanes and on every run over a memory
that answers the requests to each line in order. -/
theorem simtCache_round_robin (c : SimtCache C) (hrcv : c.rcv.truncate 32 = 0#32) (s : System)
    (h : Reachable c s) : Fair c s := by
  have hgood : ∀ i, Busy s.cache i → ∃ flying, Good c s flying := fun i hbusy =>
    h.good (h.len_pos hbusy) hrcv
  refine ⟨fun s' hstep i hbusy hne => ?_, fun s' hstep hbusy => ?_, fun i hbusy s' hrun j hne => ?_,
    fun ⟨i, hbusy⟩ hflight => ?_⟩
  · obtain ⟨flying, hs⟩ := hgood i hbusy
    exact (step_turn hrcv hs hstep).passes i (hs.inv.busy_lt hbusy) (holder_ne_none.2 hbusy) hne
  · obtain ⟨flying, hs⟩ := hgood _ hbusy
    rcases (step_turn hrcv hs hstep).leaves (holder_ne_none.2 hbusy) with ⟨hstay, -⟩ | ⟨-, hfree⟩
    · exact Or.inl (BitVec.eq_of_toNat_eq hstay)
    · exact Or.inr fun hheld => holder_ne_none.2 hheld hfree
  · obtain ⟨flying, hs⟩ := hgood i hbusy
    exact accepted_of_waits hrcv hs hbusy hrun hne
  · obtain ⟨flying, hs⟩ := hgood i hbusy
    have hnil : flying = [] := List.map_eq_nil_iff.1 (hs.inv.flight.symm.trans hflight)
    exact (hnil ▸ hs.inv).recovers hbusy hflight

/-- A read of another line by lane 1. -/
def waitingLoad : Packet := { otherLoad with dst := 128 }

/-- The memory refuses the request of lane 0, which holds slot `rr`, while that of lane 1 waits. -/
theorem waiting_reachable : ∃ s, Reachable twoLanes s ∧ Holds s 0 ∧ Busy s.cache 1 ∧
    s.env.flight = [] ∧ s.accepted 0 = [load] := by
  have hinit : Reachable twoLanes .init := .refl
  have hfirst := hinit.tail (.request 0 (by decide) 1 rfl (by decide) load (by decide)
    ⟨by decide, by decide⟩ .OK _ _ rfl)
  have hsecond := hfirst.tail (.request 1 (by decide) 2 rfl (by decide) waitingLoad (by decide)
    ⟨by decide, by decide⟩ .OK _ _ rfl)
  have hclock := hsecond.tail (.clock (fun _ => .EBUSY) (fun _ => Or.inr rfl) .OK _ _ rfl)
  exact ⟨_, hclock, ⟨rfl, rfl⟩, rfl, rfl, rfl⟩

/-- `simtCache_round_robin` on that run: lane 0 makes no other request as the holder of slot `rr`
before lane 1 is answered, and the cache does not idle. -/
theorem simtCache_round_robin_load : ∃ s, Holds s 0 ∧ Busy s.cache 1 ∧ Fair twoLanes s ∧
    (∀ s', ReflTransGen (Waits twoLanes 1) s s' → Holds s' 0 → s'.accepted 0 = [load]) ∧
    Recovers twoLanes s := by
  obtain ⟨s, hs, hholds, hbusy, hflight, hload⟩ := waiting_reachable
  have hfair := simtCache_round_robin twoLanes (by decide) s hs
  exact ⟨s, hholds, hbusy, hfair, fun s' hrun hholds' =>
    (hfair.once 1 hbusy s' hrun 0 Nat.zero_ne_one hholds hholds').trans hload,
    hfair.recovers ⟨1, hbusy⟩ hflight⟩

end Gran.SimtCache
