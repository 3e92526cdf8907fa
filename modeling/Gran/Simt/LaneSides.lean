import Gran.Simt.SimtRiscv64
import Gran.Simt.TableAnswers
import Gran.Cpu.ClockInvariant

/-!
# What the tables owe a lane

The memories behind a SIMT core hold lines. Every data line is touched by one lane only (`own`), so
a lane can be related to an interpreter with a memory of its own that agrees on the lane's lines.
`sides` says what the two tables owe a lane, and `cpuPorts_ok` that sending to them is what the core
expects, also when the table answers `EBUSY` to a request that it keeps.
-/

namespace Gran

/-- A line memory applies a request. Reads return the whole line. -/
def applyLine (mem : Word → Line) (p : Packet) : (Word → Line) × Line :=
  (if isSet p PACKET_WRITE then
    Function.update mem p.dst fun i => if p.mask.getLsbD i then p.data i else mem p.dst i
  else mem, mem p.dst)

/-- A data memory of lines, and a read-only instruction memory of lines. -/
def lineMemories (imem : Word → Line) : Memories (Word → Line) where
  imem p := imem p.dst
  apply := applyLine

namespace SimtRiscv64

open Simt SimtIntf

variable {C : Type} (c : SimtRiscv64 C) (own : Word → Option Nat)

/-- Two memories agree on the lines of a lane. -/
def Agree (i : Nat) (mem mem' : Word → Line) : Prop := ∀ a, own a = some i → mem a = mem' a

/-- The tables behind the interfaces, with the requests that the memories accepted. -/
abbrev Wires := Tables (List Packet) (List Packet)

/-- The data table, and the lines its accepted requests were applied with. -/
structure DataOk (applied : Packet → Option Line) (t : Wires) (flying : List Nat) : Prop where
  inv : Inv c.dmemIntf t.dataRqs t.dmem flying
  request : ∀ j, (t.dataRqs j).reg.busy = true →
    j < 2 ^ 31 ∧ own (t.dataRqs j).reg.pkt.dst = some j ∧ (t.dataRqs j).reg.pkt.src = laneRcv j ∧
      IsAccessFlags (t.dataRqs j).reg.pkt.flags
  applied : ∀ p, applied p ≠ none → p ∈ t.dmem

/-- The instruction table. -/
structure InstOk (t : Wires) (flying : List Nat) : Prop where
  inv : Inv c.imemIntf t.instRqs t.imem flying
  request : ∀ j, (t.instRqs j).reg.busy = true →
    j < 2 ^ 31 ∧ (t.instRqs j).reg.pkt.src = laneRcv j + 64

/-- A data request `p` that was taken: `smem` is the memory of the lane once it is applied, and
`line` is what it is answered with. -/
def Taken (i : Nat) (mem smem : Word → Line) (p : Packet) (line : Line) : Option Line → Prop
  | none => Agree own i (applyLine mem p).1 smem ∧
      (isSet p PACKET_READ = true → (applyLine mem p).2 = line)
  | some line' => Agree own i mem smem ∧ (isSet p PACKET_READ = true → line' = line)

/-- What the tables owe lane `i`. -/
def sides (i : Nat) (mem : Word → Line) (applied : Packet → Option Line) :
    Sides (Word → Line) Wires where
  data owed smem _ t := (∃ flying, DataOk c own applied t flying) ∧
    match owed with
    | none => (t.dataRqs i).reg.busy = false ∧ Agree own i mem smem
    | some (p, line, _) => (t.dataRqs i).reg = ⟨p, true⟩ ∧
        Taken own i mem smem p line (applied (c.dmemIntf.sentPacket t.dataRqs i))
  fetch owed t := (∃ flying, InstOk c t flying) ∧
    match owed with
    | none => (t.instRqs i).reg.busy = false
    | some (p, _) => (t.instRqs i).reg = ⟨p, true⟩

variable {c own} {i : Nat} {mem mem' smem : Word → Line} {applied applied' : Packet → Option Line}
  {t t' : Wires} {flying : List Nat} {p : Packet} {line : Line}

/-- Whether the data table is in order does not depend on the instruction table. -/
theorem dataOk_congr (hreqs : t'.dataRqs = t.dataRqs) (hflight : t'.dmem = t.dmem)
    (h : ∃ flying, DataOk c own applied t flying) : ∃ flying, DataOk c own applied t' flying := by
  obtain ⟨flying, hinv, hrequest, happlied⟩ := h
  refine ⟨flying, ?_, ?_, ?_⟩
  · rw [hreqs, hflight]
    exact hinv
  · rw [hreqs]
    exact hrequest
  · rw [hflight]
    exact happlied

/-- Whether the instruction table is in order does not depend on the data table. -/
theorem instOk_congr (hreqs : t'.instRqs = t.instRqs) (hflight : t'.imem = t.imem)
    (h : ∃ flying, InstOk c t flying) : ∃ flying, InstOk c t' flying := by
  obtain ⟨flying, hinv, hrequest⟩ := h
  refine ⟨flying, ?_, ?_⟩
  · rw [hreqs, hflight]
    exact hinv
  · rw [hreqs]
    exact hrequest

/-! ## Line memories -/

theorem applyLine_agree (hmem : Agree own i mem mem') (hown : own p.dst = some i) :
    Agree own i (applyLine mem p).1 (applyLine mem' p).1 ∧
      (applyLine mem p).2 = (applyLine mem' p).2 := by
  refine ⟨fun a ha => ?_, hmem _ hown⟩
  simp only [applyLine]
  split
  · by_cases h : a = p.dst
    · subst h
      simp only [Function.update_self, hmem _ ha]
    · simp only [Function.update_of_ne h, hmem _ ha]
  · exact hmem a ha

/-- Only the line of a request is written. -/
theorem applyLine_other (hown : own p.dst ≠ some i) : Agree own i (applyLine mem p).1 mem := by
  intro a ha
  have hne : a ≠ p.dst := by
    rintro rfl
    exact hown ha
  simp only [applyLine]
  split
  · rw [Function.update_of_ne hne]
  · rfl

theorem Agree.symm (h : Agree own i mem mem') : Agree own i mem' mem := fun a ha => (h a ha).symm

theorem Agree.trans {mem'' : Word → Line} (h : Agree own i mem mem') (h' : Agree own i mem' mem'') :
    Agree own i mem mem'' := fun a ha => (h a ha).trans (h' a ha)

/-- A request is applied in the same way when its full line is asked for. -/
theorem applyLine_extPacket (src : Word) (hflags : IsAccessFlags p.flags) :
    applyLine mem (extPacket src p) = applyLine mem p := by
  have hread : isSet p PACKET_READ = true → isSet p PACKET_WRITE = false := by
    rcases hflags with h | h <;> rw [isSet, isSet, h] <;> decide
  simp only [applyLine, isSet_extPacket, extPacket_dst]
  cases hr : isSet p PACKET_READ with
  | false => rw [extPacket_mask_of_write hr]; simp [extPacket, hr]
  | true => simp [hread hr]

/-! ## Addresses of lanes -/

theorem laneOf_laneRcv (hi : i < 2 ^ 31) :
    laneOf (laneRcv i) = i ∧ laneOf (laneRcv i + 64) = i := by
  have hrcv : (laneRcv i).toNat = i * 2 ^ 32 := by
    simp only [laneRcv, BitVec.toNat_shiftLeft, BitVec.toNat_ofNat, Nat.shiftLeft_eq]
    omega
  have hadd : (laneRcv i + 64).toNat = i * 2 ^ 32 + 64 := by
    rw [BitVec.toNat_add, hrcv, show (64 : Word).toNat = 64 from rfl]
    omega
  simp only [laneOf, BitVec.toNat_ushiftRight, Nat.shiftRight_eq_div_pow, hrcv, hadd]
  omega

/-- A request in flight tells its slot. -/
theorem sentPacket_inj {intf : SimtIntf C} (hrcv : intf.rcv.truncate 32 = 0#32) {reqs reqs' : Reqs}
    {j k : Nat} (hj : j < 2 ^ 32) (hk : k < 2 ^ 32)
    (h : intf.sentPacket reqs j = intf.sentPacket reqs' k) : j = k := by
  have hsrc : intf.rcv ||| BitVec.ofNat 64 j = intf.rcv ||| BitVec.ofNat 64 k := by
    have := congrArg Packet.src h
    simpa [sentPacket] using this
  rw [← truncate_or hrcv hj, hsrc, truncate_or hrcv hk]

theorem sentPacket_congr {intf : SimtIntf C} {reqs reqs' : Reqs}
    (h : (reqs' i).reg = (reqs i).reg) :
    intf.sentPacket reqs' i = intf.sentPacket reqs i := by
  rw [sentPacket, sentPacket, h]

/-! ## Changes a lane does not see -/

/-- A lane does not see what happens to other slots and other lines. -/
theorem sides_data_kept (hok : ∃ flying, DataOk c own applied' t' flying)
    (hreg : (t'.dataRqs i).reg = (t.dataRqs i).reg) (hmem : Agree own i mem mem')
    (happ : (t.dataRqs i).reg.busy = true → applied' (c.dmemIntf.sentPacket t.dataRqs i) =
      applied (c.dmemIntf.sentPacket t.dataRqs i))
    {owed : Option (Packet × Line × Bool)} {acc : List Packet}
    (h : (sides c own i mem applied).data owed smem acc t) :
    (sides c own i mem' applied').data owed smem acc t' := by
  obtain ⟨⟨flying, hdata⟩, h⟩ := h
  refine ⟨hok, ?_⟩
  cases owed with
  | none => exact ⟨by rw [hreg]; exact h.1, hmem.symm.trans h.2⟩
  | some owed =>
      obtain ⟨p, line, told⟩ := owed
      obtain ⟨hslot, htaken⟩ := h
      have hbusy : (t.dataRqs i).reg.busy = true := by rw [hslot]
      have hown : own p.dst = some i := by
        have := (hdata.request i hbusy).2.1
        rwa [hslot] at this
      refine ⟨hreg.trans hslot, ?_⟩
      rw [sentPacket_congr hreg, happ hbusy]
      cases hline : applied (c.dmemIntf.sentPacket t.dataRqs i) with
      | some line' =>
          rw [hline] at htaken
          exact ⟨hmem.symm.trans htaken.1, htaken.2⟩
      | none =>
          rw [hline] at htaken
          obtain ⟨hagree, hsame⟩ := applyLine_agree hmem.symm hown
          exact ⟨hagree.trans htaken.1, fun hread => hsame.trans (htaken.2 hread)⟩

theorem sides_fetch_kept (hok : ∃ flying, InstOk c t' flying)
    (hreg : (t'.instRqs i).reg = (t.instRqs i).reg) {owed : Option (Packet × Bool)}
    (h : (sides c own i mem applied).fetch owed t) :
    (sides c own i mem' applied').fetch owed t' := by
  obtain ⟨-, h⟩ := h
  refine ⟨hok, ?_⟩
  cases owed with
  | none => show (t'.instRqs i).reg.busy = false; rw [hreg]; exact h
  | some owed => exact hreg.trans h

/-! ## Requests of lanes -/

variable [DecidableEq C]

section Requests

variable {danswer ianswer : Packet → Stat} {r : Stat}

/-- A data request leaves the instruction table alone. -/
theorem dmem_inst (h : (c.cpuPorts (memPorts danswer) (memPorts ianswer) i).dmem p t =
    some (r, t')) : t'.instRqs = t.instRqs ∧ t'.imem = t.imem := by
  obtain ⟨x, -, hx⟩ := Option.bind_eq_some_iff.1 h
  cases hx
  exact ⟨rfl, rfl⟩

/-- A fetch leaves the data table alone. -/
theorem imem_data (h : (c.cpuPorts (memPorts danswer) (memPorts ianswer) i).imem p t =
    some (r, t')) : t'.dataRqs = t.dataRqs ∧ t'.dmem = t.dmem := by
  obtain ⟨x, -, hx⟩ := Option.bind_eq_some_iff.1 h
  cases hx
  exact ⟨rfl, rfl⟩

/-- A data request of a lane. -/
theorem dmem_request (hd : ∀ p, danswer p = .OK ∨ danswer p = .EBUSY) (hlt : i < c.conf.numLanes)
    (hint : i < 2 ^ 31) (hrcv : c.conf.dataRcv.truncate 32 = 0#32)
    (hok : DataOk c own applied t flying) (hreq : Core.IsDataRequest (laneRcv i) p)
    (hown : own p.dst = some i)
    (h : (c.cpuPorts (memPorts danswer) (memPorts ianswer) i).dmem p t = some (r, t')) :
    (∃ flying', DataOk c own applied t' flying') ∧
      if (t.dataRqs i).reg.busy then r = .EBUSY ∧ t'.dataRqs = t.dataRqs
      else (r = .OK ∨ r = .EBUSY) ∧ applied (c.dmemIntf.sentPacket t'.dataRqs i) = none ∧
        ∃ q, t'.dataRqs = Function.update t.dataRqs i ⟨⟨p, true⟩, q⟩ := by
  have haddr : laneOf p.src = i := by rw [hreq.src, (laneOf_laneRcv hint).1]
  obtain ⟨ret, reqs', flight', flying', hrecv, hret, hinv, hsub, hcase⟩ :=
    simtRiscv64Receive_inv hok.inv hd (c.lane_ne_dmem i) haddr hlt hint hreq.flags.error
  simp only [cpuPorts, hrecv, Option.bind_eq_bind, Option.bind_some, Option.pure_def,
    Option.some.injEq, Prod.mk.injEq] at h
  obtain ⟨rfl, rfl⟩ := h
  refine ⟨?_, ?_⟩
  · refine ⟨flying', hinv, fun j hj => ?_, fun q hq => hsub.subset (hok.applied q hq)⟩
    split at hcase
    · rw [hcase.2.1] at hj ⊢
      exact hok.request j hj
    · obtain ⟨q, rfl⟩ := hcase
      by_cases h : j = i
      · subst h
        simpa using ⟨hint, hown, hreq.src, hreq.flags⟩
      · simp only [Function.update_of_ne h] at hj ⊢
        exact hok.request j hj
  · cases hbusy : (t.dataRqs i).reg.busy with
    | true =>
        rw [hbusy] at hcase
        exact ⟨hcase.1, hcase.2.1⟩
    | false =>
        rw [hbusy] at hcase
        obtain ⟨q, rfl⟩ := hcase
        refine ⟨hret, ?_, q, rfl⟩
        -- no request of this slot is in flight
        by_contra happ
        have hmem := hok.applied _ happ
        rw [hok.inv.flight] at hmem
        obtain ⟨j, hj, hsent⟩ := List.mem_map.1 hmem
        have hjbusy := (hok.inv.sent j hj).1
        have hji := sentPacket_inj hrcv
          (Nat.lt_trans (hok.request j hjbusy).1 (by decide)) (Nat.lt_trans hint (by decide)) hsent
        rw [hji, hbusy] at hjbusy
        cases hjbusy

/-- A fetch of a lane. -/
theorem imem_request (hians : ∀ p, ianswer p = .OK ∨ ianswer p = .EBUSY) (hlt : i < c.conf.numLanes)
    (hint : i < 2 ^ 31) (hok : InstOk c t flying)
    (hreq : Gran.IsRequest (laneRcv i + 64) 4 PACKET_READ p)
    (h : (c.cpuPorts (memPorts danswer) (memPorts ianswer) i).imem p t = some (r, t')) :
    (∃ flying', InstOk c t' flying') ∧
      if (t.instRqs i).reg.busy then r = .EBUSY ∧ t'.instRqs = t.instRqs
      else (r = .OK ∨ r = .EBUSY) ∧
        ∃ q, t'.instRqs = Function.update t.instRqs i ⟨⟨p, true⟩, q⟩ := by
  have haddr : laneOf p.src = i := by rw [hreq.src, (laneOf_laneRcv hint).2]
  have herror : isSet p PACKET_ERROR = false := by
    rw [isSet, hreq.flags]
    rfl
  obtain ⟨ret, reqs', flight', flying', hrecv, hret, hinv, -, hcase⟩ :=
    simtRiscv64Receive_inv hok.inv hians (c.lane_ne_imem i) haddr hlt hint herror
  simp only [cpuPorts, hrecv, Option.bind_eq_bind, Option.bind_some, Option.pure_def,
    Option.some.injEq, Prod.mk.injEq] at h
  obtain ⟨rfl, rfl⟩ := h
  refine ⟨⟨flying', hinv, fun j hj => ?_⟩, ?_⟩
  · split at hcase
    · rw [hcase.2.1] at hj ⊢
      exact hok.request j hj
    · obtain ⟨q, rfl⟩ := hcase
      by_cases h : j = i
      · subst h
        simpa using ⟨hint, hreq.src⟩
      · simp only [Function.update_of_ne h] at hj ⊢
        exact hok.request j hj
  · split
    · rename_i hbusy
      rw [if_pos hbusy] at hcase
      exact ⟨hcase.1, hcase.2.1⟩
    · rename_i hbusy
      rw [if_neg hbusy] at hcase
      exact ⟨hret, hcase⟩

/-- What lane `i` does to the tables leaves them in order, and no other lane sees it. -/
structure Unseen (c : SimtRiscv64 C) (own : Word → Option Nat) (mem : Word → Line)
    (applied : Packet → Option Line) (i : Nat) (t t' : Wires) : Prop where
  dataOk : (∃ flying, DataOk c own applied t flying) → ∃ flying, DataOk c own applied t' flying
  instOk : (∃ flying, InstOk c t flying) → ∃ flying, InstOk c t' flying
  data : ∀ j ≠ i, ∀ owed smem acc, (sides c own j mem applied).data owed smem acc t →
    (sides c own j mem applied).data owed smem acc t'
  fetch : ∀ j ≠ i, ∀ owed, (sides c own j mem applied).fetch owed t →
    (sides c own j mem applied).fetch owed t'

omit [DecidableEq C] in
/-- The slots other than that of lane `i` are as before. -/
theorem reg_of_ne {reqs reqs' : Reqs} {p : Packet} {P : Prop} {j : Nat} (hne : j ≠ i)
    (h : if (reqs i).reg.busy then r = .EBUSY ∧ reqs' = reqs
      else P ∧ ∃ q, reqs' = Function.update reqs i ⟨⟨p, true⟩, q⟩) :
    (reqs' j).reg = (reqs j).reg := by
  split at h
  · rw [h.2]
  · obtain ⟨-, q, rfl⟩ := h
    rw [Function.update_of_ne hne]

omit [DecidableEq C] in
theorem told_of_stat (h : r = .OK ∨ r = .EBUSY) : ∃ told, r = takenStat told := by
  rcases h with rfl | rfl
  · exact ⟨true, rfl⟩
  · exact ⟨false, rfl⟩

/-- The tables keep to what a core expects of its memories. -/
theorem cpuPorts_ok {imem : Word → Line} (hd : ∀ p, danswer p = .OK ∨ danswer p = .EBUSY)
    (hians : ∀ p, ianswer p = .OK ∨ ianswer p = .EBUSY) (hlt : i < c.conf.numLanes)
    (hint : i < 2 ^ 31) (hrcv : c.conf.dataRcv.truncate 32 = 0#32) :
    PortsOk (lineMemories imem) (sides c own i mem applied) (Unseen c own mem applied i) (laneRcv i)
      (fun p => own p.dst = some i) (c.cpuPorts (memPorts danswer) (memPorts ianswer) i) where
  refl t := ⟨id, id, fun _ _ _ _ _ => id, fun _ _ _ => id⟩
  trans h h' := ⟨fun ht => h'.dataOk (h.dataOk ht), fun ht => h'.instOk (h.instOk ht),
    fun j hj _ _ _ hs => h'.data j hj _ _ _ (h.data j hj _ _ _ hs),
    fun j hj _ hs => h'.fetch j hj _ (h.fetch j hj _ hs)⟩
  dmem {p t r t'} h hreq hown := by
    have hop {flying : List Nat} (hok : DataOk c own applied t flying) :=
      dmem_request hd hlt hint hrcv hok hreq hown h
    have hinst := dmem_inst h
    have hinstOk := instOk_congr (c := c) hinst.1 hinst.2
    refine ⟨⟨fun ⟨flying, hok⟩ => (hop hok).1, hinstOk, fun j hj owed smem acc hs => ?_,
      fun j hj owed hs => ?_⟩, fun owed hs => ?_⟩
    · obtain ⟨flying, hok⟩ := hs.1
      obtain ⟨hok', hcase⟩ := hop hok
      refine sides_data_kept hok' ?_ (fun _ _ => rfl) (fun _ => rfl) hs
      split at hcase
      · rw [hcase.2]
      · obtain ⟨-, -, q, hq⟩ := hcase
        rw [hq, Function.update_of_ne hj]
    · exact sides_fetch_kept (hinstOk hs.1) (by rw [hinst.1]) hs
    · exact sides_fetch_kept (hinstOk hs.1) (by rw [hinst.1]) hs
  dmem_new {p t r t' smem acc} h hreq hown hs := by
    obtain ⟨⟨flying, hok⟩, hfree, hagree⟩ := hs
    obtain ⟨hok', hcase⟩ := dmem_request hd hlt hint hrcv hok hreq hown h
    rw [if_neg (by simp [hfree])] at hcase
    obtain ⟨hr, happ, q, hq⟩ := hcase
    obtain ⟨told, rfl⟩ := told_of_stat hr
    refine .inr ⟨told, rfl, hok', by rw [hq, Function.update_self], ?_⟩
    rw [happ]
    obtain ⟨hmem, hline⟩ := applyLine_agree hagree hown
    exact ⟨hmem, fun _ => hline⟩
  dmem_owed {p line t r t' smem acc} h hreq hown hs := by
    obtain ⟨⟨flying, hok⟩, hslot, htaken⟩ := hs
    obtain ⟨hok', hcase⟩ := dmem_request hd hlt hint hrcv hok hreq hown h
    rw [if_pos (by rw [hslot])] at hcase
    refine ⟨false, hcase.1, hok', by rw [hcase.2]; exact hslot, ?_⟩
    rw [hcase.2]
    exact htaken
  imem {p t r t'} h hreq := by
    have hop {flying : List Nat} (hok : InstOk c t flying) := imem_request hians hlt hint hok hreq h
    have hdata := imem_data h
    have hdataOk : (∃ flying, DataOk c own applied t flying) →
        ∃ flying, DataOk c own applied t' flying := dataOk_congr hdata.1 hdata.2
    refine ⟨⟨hdataOk, fun ⟨flying, hok⟩ => (hop hok).1, fun j hj owed smem acc hs => ?_,
      fun j hj owed hs => ?_⟩, fun owed smem acc hs => ?_⟩
    · exact sides_data_kept (hdataOk hs.1) (by rw [hdata.1]) (fun _ _ => rfl) (fun _ => rfl) hs
    · obtain ⟨flying, hok⟩ := hs.1
      obtain ⟨hok', hcase⟩ := hop hok
      exact sides_fetch_kept hok' (reg_of_ne hj hcase) hs
    · exact sides_data_kept (hdataOk hs.1) (by rw [hdata.1]) (fun _ _ => rfl) (fun _ => rfl) hs
  imem_new {p t r t'} h hreq hs := by
    obtain ⟨⟨flying, hok⟩, hfree⟩ := hs
    obtain ⟨hok', hcase⟩ := imem_request hians hlt hint hok hreq h
    rw [if_neg (by simpa using hfree)] at hcase
    obtain ⟨hr, q, hq⟩ := hcase
    obtain ⟨told, rfl⟩ := told_of_stat hr
    exact .inr ⟨told, rfl, hok', by rw [hq, Function.update_self]⟩
  imem_owed {p t r t'} h hreq hs := by
    obtain ⟨⟨flying, hok⟩, hslot⟩ := hs
    obtain ⟨hok', hcase⟩ := imem_request hians hlt hint hok hreq h
    have hbusy : (t.instRqs i).reg.busy = true := by rw [show (t.instRqs i).reg = _ from hslot]
    rw [if_pos hbusy] at hcase
    exact ⟨false, hcase.1, hok', by rw [hcase.2]; exact hslot⟩
  ctrl h := by cases h

end Requests

end SimtRiscv64

end Gran
