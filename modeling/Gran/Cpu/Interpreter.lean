import Gran.Codec
import Gran.Cpu.SimpleRiscv64

/-!
# The sequential interpreter

The core with memories that answer at once. An instruction is fetched, executed by the functions of
the source, and its data request, if it makes one, is applied and its answer written back before the
next instruction. `finalizeDls_answer` says that the answer to a request of an instruction can
always be written back, and `finalizeDls_congr` that only its masked bytes matter.
-/

namespace Gran

/-- An instruction memory that is only read, and a data memory that applies requests one by one. A
request is answered with the given line. -/
structure Memories (M : Type) where
  imem : Packet → Line
  apply : M → Packet → M × Line

/-- The answer of a memory to a request. -/
def answer (p : Packet) (line : Line) : Packet :=
  { setFlags (response p) PACKET_DONE with data := line }

/-- The state of the interpreter: the core and the data memory, with the data requests made and the
instructions run so far, newest first. -/
structure Seq (M : Type) where
  core : Core
  mem : M
  accepted : List Packet
  trace : List Ran

variable {M : Type}

/-- The instruction word at the program counter. -/
def Seq.insn (m : Memories M) (s : Seq M) : Option (BitVec 32) := do
  let pkt ← s.core.fetch
  packetConvu32 (answer pkt (m.imem pkt))

/-- One instruction. -/
def Seq.step (m : Memories M) (s : Seq M) : Option (Stat × Seq M) := do
  let insn ← s.insn m
  let trace := ⟨insn, s.core.regs, s.core.pc⟩ :: s.trace
  match ← s.core.execute insn with
  | .ret ret core => pure (ret, { s with core, trace })
  | .request ld =>
      let (mem, line) := m.apply s.mem ld.pkt
      let core : Core := { s.core with pc := s.core.pc + 4 }
      let core ← core.finalizeDls { ld with pkt := answer ld.pkt line }
      pure (.OK, { core, mem, accepted := ld.pkt :: s.accepted, trace })

/-- The state after `k` instructions, of which only the last may have stopped the run. -/
def Seq.run (m : Memories M) (s : Seq M) : Nat → Option (Stat × Seq M)
  | 0 => some (.OK, s)
  | k + 1 => do
      let (ret, s) ← run m s k
      guard (ret = .OK)
      s.step m

/-- The interpreter before the first instruction. -/
def Seq.init (core : Core) (mem : M) : Seq M := ⟨core, mem, [], []⟩

/-! ## Requests of instructions -/

/-- The access sizes of instructions. -/
def sizes : List Nat := [1, 2, 4, 8]

/-- The mask of an access of `size` bytes at an offset in its line. -/
def maskAt (size diff : Nat) : Word :=
  let mask : Word := (1 <<< size) - 1
  mask <<< diff

/-- Accesses are one to eight bytes wide. -/
theorem size_le {size : Nat} (h : size ∈ sizes) : 1 ≤ size ∧ size ≤ 8 := by
  simp only [sizes, List.mem_cons, List.not_mem_nil, or_false] at h
  omega

/-- The low bits of a mask. -/
theorem getLsbD_low {size : Nat} (h : size ∈ sizes) :
    ∀ i < 64, ((1 <<< size) - 1 : Word).getLsbD i = decide (i < size) :=
  fun i _ => BitVec.getLsbD_one_shiftLeft_sub_one (by have := size_le h; omega) i

/-- What the conversions read off a mask that `packet_mask` let pass. -/
theorem maskAt_facts (diff : Fin 64) (size : Nat) (hsize : size ∈ sizes)
    (hfits : (diff : Nat) = 0 ∨
      (let mask : Word := (1 <<< size) - 1; mask >>> (64 - (diff : Nat))) = 0) :
    ffsll (maskAt size diff) = diff + 1 ∧ (diff : Nat) + size ≤ 64 ∧
      (maskAt size diff >>> (diff : Nat) &&& 0xff).toNat = 2 ^ size - 1 ∧
      ∀ i < size, (maskAt size diff).getLsbD (diff + i) = true := by
  obtain ⟨hpos, hle⟩ := size_le hsize
  have hline := (shift_fits (getLsbD_low hsize) (by omega) diff.isLt).1 hfits
  have hmask : MasksBytes diff size (maskAt size diff) := masksBytes_shiftLeft (getLsbD_low hsize)
  refine ⟨hmask.ffsll hpos hline, hline, hmask.pattern hle hline, fun i hi => ?_⟩
  rw [hmask _ (by omega)]
  exact decide_eq_true (by omega)

/-- The mask of an access of `size` bytes that stays in its line. -/
def IsAccess (size : Nat) (mask : Word) : Prop :=
  size ∈ sizes ∧ ∃ diff, mask = maskAt size diff ∧ ffsll mask = diff + 1 ∧ diff + size ≤ 64 ∧
    (mask >>> diff &&& 0xff).toNat = 2 ^ size - 1 ∧ ∀ i < size, mask.getLsbD (diff + i) = true

/-- A request that a core makes at an address of its own. -/
structure IsRequest (src : Word) (size : Nat) (flags : BitVec 32) (pkt : Packet) : Prop where
  src : pkt.src = src
  aligned : packetAlign pkt.dst = pkt.dst
  flags : pkt.flags = flags
  access : IsAccess size pkt.mask

/-- A request that `create_packet` made for the sizes of instructions. -/
structure IsCreated (base addr : Word) (size : Nat) (bytes : Nat → BitVec 8)
    (access : BitVec 32) (pkt : Packet) : Prop where
  src : pkt.src = base
  dst : pkt.dst = packetAlign addr
  flags : pkt.flags = access
  mask : pkt.mask = maskAt size (addr.toNat % 64)
  fits : addr.toNat % 64 = 0 ∨
    (let mask : Word := (1 <<< size) - 1; mask >>> (64 - addr.toNat % 64)) = 0
  data : isSet pkt PACKET_WRITE = true → ∀ i : Fin 64,
    addr.toNat % 64 ≤ i → i < addr.toNat % 64 + size → pkt.data i = bytes (i - addr.toNat % 64)

/-- What `create_packet` makes. -/
theorem createPacket_created {src dst : Word} {size : Nat} (hsize : size ∈ sizes)
    {bytes : Nat → BitVec 8} {flags : BitVec 32} {pkt : Packet}
    (h : createPacket src dst (BitVec.ofNat 64 size) bytes flags = some pkt) :
    IsCreated src dst size bytes flags pkt := by
  obtain ⟨-, hle⟩ := size_le hsize
  have hlit : (BitVec.ofNat 64 size).toNat = size := Nat.mod_eq_of_lt (by omega)
  have hne : BitVec.ofNat 64 size ≠ 64 := by
    intro h
    have hsame : size = 64 := hlit.symm.trans (congrArg BitVec.toNat h)
    omega
  have hdiff : (dst - packetAlign dst).toNat = dst.toNat % 64 := by
    rw [packetAlign_diff, toNat_and_63]
  have hcreated := createPacket_cases h
  have hmask := hcreated.mask
  simp only [packetMask, hlit, hne, if_false, hdiff, Option.ite_none_right_eq_some,
    Option.some.injEq] at hmask
  obtain ⟨-, hfits, hmask⟩ := hmask
  have hzero (h : dst - packetAlign dst = 0) : dst.toNat % 64 = 0 := by
    rw [← hdiff, h]
    rfl
  have hdata := hcreated.data
  rw [hlit] at hdata
  exact ⟨hcreated.src, hcreated.dst, hcreated.flags, hmask.symm, hfits.imp_left hzero, hdata⟩

/-- `create_packet` for the sizes of instructions. -/
theorem createPacket_spec {src dst : Word} {size : Nat} (hsize : size ∈ sizes)
    {bytes : Nat → BitVec 8} {flags : BitVec 32} {pkt : Packet}
    (h : createPacket src dst (BitVec.ofNat 64 size) bytes flags = some pkt) :
    IsRequest src size flags pkt := by
  have hpkt := createPacket_created hsize h
  have hlt : dst.toNat % 64 < 64 := Nat.mod_lt _ (by decide)
  have haligned : packetAlign pkt.dst = pkt.dst := by rw [hpkt.dst, packetAlign_idem]
  exact ⟨hpkt.src, haligned, hpkt.flags, hsize, _, hpkt.mask,
    by rw [hpkt.mask]; exact maskAt_facts ⟨_, hlt⟩ size hsize hpkt.fits⟩

/-! ## Reading a reply -/

namespace IsAccess

variable {size : Nat} {pkt pkt' : Packet}

/-- The size of an access is read off its mask. -/
theorem convsize (h : IsAccess size pkt.mask) : packetConvsize pkt = some size := by
  obtain ⟨hsize, diff, -, hffs, -, hpattern, -⟩ := h
  simp only [packetConvsize, hffs, Nat.add_sub_cancel, Nat.add_eq_zero_iff, one_ne_zero, and_false,
    if_false, hpattern]
  simp only [sizes, List.mem_cons, List.not_mem_nil, or_false] at hsize
  rcases hsize with rfl | rfl | rfl | rfl <;> rfl

/-- The value of an access is read off the packet. -/
theorem conv (h : IsAccess size pkt.mask) : ∃ v, packetConv size pkt = some v := by
  obtain ⟨-, diff, -, hffs, hle, -, -⟩ := h
  exact ⟨_, by simp [packetConv, hffs, hle]; rfl⟩

/-- A conversion reads masked bytes only. -/
theorem conv_congr (h : IsAccess size pkt.mask) (hmask : pkt'.mask = pkt.mask)
    (hdata : ∀ i : Fin 64, pkt.mask.getLsbD i = true → pkt'.data i = pkt.data i) :
    packetConv size pkt' = packetConv size pkt := by
  obtain ⟨-, diff, -, hffs, hle, -, hbits⟩ := h
  simp only [packetConv, hmask, hffs, Nat.add_sub_cancel]
  congr 2
  apply leWord_congr
  intro i hi
  have hlt : diff + i < 64 := by omega
  simp only [Packet.byte, hlt, dif_pos]
  exact hdata _ (hbits i hi)

end IsAccess

namespace Core

@[simp] theorem setReg_rcv (c : Core) (i : BitVec 5) (v : Word) : (c.setReg i v).rcv = c.rcv := by
  unfold setReg; split <;> rfl

@[simp] theorem setReg_pc (c : Core) (i : BitVec 5) (v : Word) : (c.setReg i v).pc = c.pc := by
  unfold setReg; split <;> rfl

/-- A reply to a load is written back. -/
theorem finalizeLd_some {c : Core} {ld : Ldst} {size : Nat} (h : IsAccess size ld.pkt.mask) :
    ∃ v, c.finalizeLd ld = some (c.setReg ld.reg v) := by
  obtain ⟨v, hv⟩ := h.conv
  have hsize := h.1
  simp only [finalizeLd, h.convsize]
  simp only [sizes, List.mem_cons, List.not_mem_nil, or_false] at hsize
  rcases hsize with rfl | rfl | rfl | rfl <;> cases ld.u <;>
    simp [packetConvu8, packetConvi8, packetConvu16, packetConvi16, packetConvu32, packetConvi32,
      packetConvu64, hv]

/-- What is written back only depends on the masked bytes. -/
theorem finalizeLd_congr {c : Core} {ld : Ldst} {pkt : Packet} {size : Nat}
    (h : IsAccess size ld.pkt.mask) (hmask : pkt.mask = ld.pkt.mask)
    (hdata : ∀ i : Fin 64, ld.pkt.mask.getLsbD i = true → pkt.data i = ld.pkt.data i) :
    c.finalizeLd { ld with pkt } = c.finalizeLd ld := by
  have hconv := h.conv_congr hmask hdata
  have hsize := h.1
  have haccess : IsAccess size pkt.mask := hmask ▸ h
  simp only [finalizeLd, h.convsize, haccess.convsize]
  simp only [sizes, List.mem_cons, List.not_mem_nil, or_false] at hsize
  rcases hsize with rfl | rfl | rfl | rfl <;> cases ld.u <;>
    simp [packetConvu8, packetConvi8, packetConvu16, packetConvi16, packetConvu32, packetConvi32,
      packetConvu64, hconv]

/-- A load writes one register. -/
theorem finalizeLd_eq {c core : Core} {ld : Ldst} (h : c.finalizeLd ld = some core) :
    ∃ v, core = c.setReg ld.reg v := by
  simp only [finalizeLd, Option.bind_eq_bind, Option.bind_eq_some_iff, Option.pure_def] at h
  obtain ⟨size, -, h⟩ := h
  split at h <;> (try split at h) <;> obtain ⟨v, -, h⟩ := Option.bind_eq_some_iff.1 h <;>
    exact ⟨v, (Option.some.inj h).symm⟩

/-- Writing back a reply changes registers only. -/
theorem finalizeDls_pc {c core : Core} {ld : Ldst} (h : c.finalizeDls ld = some core) :
    core.rcv = c.rcv ∧ core.pc = c.pc := by
  unfold finalizeDls at h
  split at h
  · obtain ⟨v, rfl⟩ := finalizeLd_eq h
    exact ⟨setReg_rcv .., setReg_pc ..⟩
  · cases h
    exact ⟨rfl, rfl⟩

end Core

/-! ## Answers -/

/-- `pkt` carries what a core reads of an answer to the request `p`: the mask and, of a read, the
masked bytes of `line`. -/
structure IsAnswer (p : Packet) (line : Line) (pkt : Packet) : Prop where
  dst : pkt.dst = p.src
  mask : pkt.mask = p.mask
  read : isSet pkt PACKET_READ = isSet p PACKET_READ
  error : isSet pkt PACKET_ERROR = false
  data : isSet p PACKET_READ = true → ∀ i : Fin 64, p.mask.getLsbD i = true → pkt.data i = line i

/-- The flags of the requests of a core. -/
def IsAccessFlags (flags : BitVec 32) : Prop := flags = PACKET_READ ∨ flags = PACKET_WRITE

/-- An access is no error report. -/
theorem IsAccessFlags.error {p : Packet} (h : IsAccessFlags p.flags) :
    isSet p PACKET_ERROR = false := by
  rcases h with h | h <;> rw [isSet, h] <;> rfl

/-- A line answers an access. -/
theorem answer_isAnswer {p : Packet} (h : IsAccessFlags p.flags) (line : Line) :
    IsAnswer p line (answer p line) where
  dst := rfl
  mask := rfl
  read := by rcases h with h | h <;> simp only [isSet, answer, setFlags, response, h] <;> rfl
  error := by rcases h with h | h <;> simp only [isSet, answer, setFlags, response, h] <;> rfl
  data := fun _ _ _ => rfl

namespace Core

variable {c : Core} {ld : Ldst} {p pkt : Packet} {line : Line} {size : Nat}

/-- A core writes back the same from any answer. -/
theorem finalizeDls_answer (hflags : IsAccessFlags p.flags) (haccess : IsAccess size p.mask)
    (hans : IsAnswer p line pkt) :
    c.finalizeDls { ld with pkt } = c.finalizeDls { ld with pkt := answer p line } := by
  have hread := (answer_isAnswer hflags line).read
  simp only [finalizeDls, hans.read, hread]
  split
  case isTrue hset =>
    have haccess' : IsAccess size ({ ld with pkt := answer p line } : Ldst).pkt.mask := haccess
    exact finalizeLd_congr haccess' hans.mask (hans.data hset)
  case isFalse => rfl

/-- The answer to a request can be written back. -/
theorem finalizeDls_some (haccess : IsAccess size p.mask) :
    ∃ core, c.finalizeDls { ld with pkt := answer p line } = some core := by
  unfold finalizeDls
  split
  · have haccess' : IsAccess size ({ ld with pkt := answer p line } : Ldst).pkt.mask := haccess
    obtain ⟨v, hv⟩ := finalizeLd_some (c := c) haccess'
    exact ⟨_, hv⟩
  · exact ⟨_, rfl⟩

/-- A core reads the same instruction word from any answer. -/
theorem convu32_answer (hflags : p.flags = PACKET_READ) (haccess : IsAccess 4 p.mask)
    (hans : IsAnswer p line pkt) : packetConvu32 pkt = packetConvu32 (answer p line) := by
  have hread : isSet p PACKET_READ = true := by rw [isSet, hflags]; rfl
  have haccess' : IsAccess 4 (answer p line).mask := haccess
  have hconv := haccess'.conv_congr hans.mask (hans.data hread)
  rw [packetConvu32, packetConvu32, hconv]

/-! ## Outcomes -/

/-- A fetch reads four bytes from the port for instructions. -/
theorem fetch_spec (h : c.fetch = some pkt) : IsRequest (c.rcv + 64) 4 PACKET_READ pkt :=
  createPacket_spec (by decide) h

/-- A data request of a core. -/
structure IsDataRequest (rcv : Word) (pkt : Packet) : Prop where
  src : pkt.src = rcv
  aligned : packetAlign pkt.dst = pkt.dst
  flags : IsAccessFlags pkt.flags
  access : ∃ size, IsAccess size pkt.mask

/-- What every outcome keeps: a core its base address, and a request is one of this core. -/
def Outcome.Sound (rcv : Word) : Outcome → Prop
  | .ret _ core => core.rcv = rcv
  | .request ld => IsDataRequest rcv ld.pkt ∧ ld.state = .SENT

/-- Writing back a register makes no request. -/
theorem writeback_sound (rd : BitVec 5) (dst : Word) : (c.writeback rd dst).Sound c.rcv :=
  setReg_rcv ..

/-- An OP-IMM instruction makes no request. -/
theorem opImm_sound (insn : BitVec 32) : (c.opImm insn).Sound c.rcv := by
  unfold opImm
  dsimp only
  split <;> first | exact writeback_sound .. | exact rfl | (split <;> exact writeback_sound ..)

/-- An OP instruction makes no request. -/
theorem op_sound (insn : BitVec 32) : (c.op insn).Sound c.rcv := by
  unfold op
  dsimp only
  split <;> first | exact writeback_sound .. | exact rfl | (split <;> exact writeback_sound ..)

/-- A branch makes no request. -/
theorem branch_sound (insn : BitVec 32) : (c.branch insn).Sound c.rcv := by
  unfold branch
  dsimp only
  split <;> exact rfl

/-- A load makes a read request. -/
theorem load_sound {insn : BitVec 32} {o : Outcome} (h : c.load insn = some o) :
    o.Sound c.rcv := by
  have hread {dst : Word} {size : Nat} {rd : BitVec 5} {u : Bool} (hsize : size ∈ sizes)
      (h : (createPacket c.rcv dst (BitVec.ofNat 64 size) (fun _ => 0) PACKET_READ).bind
        (fun pkt => some (Outcome.request ⟨pkt, .SENT, rd, u⟩)) = some o) : o.Sound c.rcv := by
    obtain ⟨pkt, hpkt, ho⟩ := Option.bind_eq_some_iff.1 h
    cases ho
    have hreq := createPacket_spec hsize hpkt
    exact ⟨⟨hreq.src, hreq.aligned, .inl hreq.flags, _, hreq.access⟩, rfl⟩
  unfold load at h
  dsimp only at h
  split at h
  case h_1 => exact hread (by decide) h
  case h_2 => exact hread (by decide) h
  case h_3 => exact hread (by decide) h
  case h_4 => exact hread (by decide) h
  case h_5 => exact hread (by decide) h
  case h_6 => exact hread (by decide) h
  case h_7 => exact hread (by decide) h
  case h_8 =>
    obtain rfl := Option.some.inj h
    exact rfl

/-- A store makes a write request. -/
theorem store_sound {insn : BitVec 32} {o : Outcome} (h : c.store insn = some o) :
    o.Sound c.rcv := by
  have hwrite {dst : Word} {size : Nat} {bytes : Nat → BitVec 8} (hsize : size ∈ sizes)
      (h : (createPacket c.rcv dst (BitVec.ofNat 64 size) bytes PACKET_WRITE).bind
        (fun pkt => some (Outcome.request ⟨pkt, .SENT, 0, false⟩)) = some o) : o.Sound c.rcv := by
    obtain ⟨pkt, hpkt, ho⟩ := Option.bind_eq_some_iff.1 h
    cases ho
    have hreq := createPacket_spec hsize hpkt
    exact ⟨⟨hreq.src, hreq.aligned, .inr hreq.flags, _, hreq.access⟩, rfl⟩
  unfold store at h
  dsimp only at h
  split at h
  case h_1 => exact hwrite (by decide) h
  case h_2 => exact hwrite (by decide) h
  case h_3 => exact hwrite (by decide) h
  case h_4 => exact hwrite (by decide) h
  case h_5 =>
    obtain rfl := Option.some.inj h
    exact rfl

/-- Every instruction makes at most one well-formed request. -/
theorem execute_sound {insn : BitVec 32} {o : Outcome} (h : c.execute insn = some o) :
    o.Sound c.rcv := by
  unfold execute at h
  split at h
  case h_9 => exact load_sound h
  case h_10 => exact store_sound h
  all_goals rw [← Option.some.inj h]
  case h_1 => exact opImm_sound insn
  case h_2 => exact opImm_sound insn
  case h_3 => exact writeback_sound ..
  case h_4 => exact writeback_sound ..
  case h_5 => exact op_sound insn
  case h_6 => simp only [jal, Outcome.Sound, setReg_rcv]
  case h_7 => simp only [jalr, Outcome.Sound, setReg_rcv]
  case h_8 => exact branch_sound insn
  all_goals exact rfl

end Core

/-! ## Runs of the interpreter -/

namespace Seq

variable {m : Memories M} {s t : Seq M} {ret : Stat}

/-- An instruction is logged with what it saw. -/
theorem step_trace (h : s.step m = some (ret, t)) :
    ∃ insn, s.insn m = some insn ∧ t.trace = ⟨insn, s.core.regs, s.core.pc⟩ :: s.trace := by
  obtain ⟨insn, hinsn, h⟩ := Option.bind_eq_some_iff.1 h
  obtain ⟨o, -, h⟩ := Option.bind_eq_some_iff.1 h
  refine ⟨insn, hinsn, ?_⟩
  cases o with
  | ret r core =>
      cases h
      rfl
  | request ld =>
      obtain ⟨core, -, h⟩ := Option.bind_eq_some_iff.1 h
      cases h
      rfl

/-- A run of one more step. -/
theorem run_succ {k : Nat} (h : s.run m k = some (.OK, t)) : s.run m (k + 1) = t.step m := by
  simp only [run, h, Option.bind_eq_bind, Option.bind_some, guard_true, Option.pure_def]

variable (m) in
/-- Entry `j` of a log is what the interpreter sees after `j` instructions. -/
def Sees (s : Seq M) (log : List Ran) : Prop :=
  ∀ j r, log.reverse[j]? = some r → ∃ u, s.run m j = some (.OK, u) ∧
    u.insn m = some r.insn ∧ u.core.regs = r.regs ∧ u.core.pc = r.pc

/-- The log of a run of `k` instructions has `k` entries, each of a state of the interpreter. -/
theorem run_trace (hs : s.trace = []) {k : Nat} (h : s.run m k = some (ret, t)) :
    t.trace.length = k ∧ s.Sees m t.trace := by
  induction k generalizing ret t with
  | zero =>
      cases h
      simp [hs, Sees]
  | succ k ih =>
      simp only [run, Option.bind_eq_bind, Option.bind_eq_some_iff, Option.guard_eq_some'] at h
      obtain ⟨⟨ret', u⟩, hrun, -, hret, hstep⟩ := h
      obtain rfl : ret' = .OK := hret
      obtain ⟨hlen, hlog⟩ := ih hrun
      obtain ⟨insn, hinsn, htrace⟩ := step_trace hstep
      refine ⟨by rw [htrace, List.length_cons, hlen], fun j r hj => ?_⟩
      rw [htrace, List.reverse_cons] at hj
      by_cases hlt : j < u.trace.reverse.length
      · rw [List.getElem?_append_left hlt] at hj
        exact hlog j r hj
      · rw [List.getElem?_append_right (Nat.le_of_not_lt hlt), List.length_reverse, hlen] at hj
        have hlen' : u.trace.reverse.length = k := by rw [List.length_reverse, hlen]
        have hjk : j = k := by
          by_contra hne
          rw [List.getElem?_eq_none (show 1 ≤ j - k by omega)] at hj
          cases hj
        subst hjk
        simp only [Nat.sub_self, List.getElem?_cons_zero, Option.some.injEq] at hj
        subst hj
        exact ⟨u, hrun, hinsn, rfl, rfl⟩

/-- Two logs of what one interpreter sees agree on what both contain. -/
theorem Sees.unique {log log' : List Ran} (h : s.Sees m log) (h' : s.Sees m log') {j : Nat}
    {r r' : Ran} (hr : log.reverse[j]? = some r) (hr' : log'.reverse[j]? = some r') : r = r' := by
  obtain ⟨u, hrun, hinsn, hregs, hpc⟩ := h j r hr
  obtain ⟨u', hrun', hinsn', hregs', hpc'⟩ := h' j r' hr'
  cases hrun.symm.trans hrun'
  have hword : r.insn = r'.insn := Option.some.inj (hinsn.symm.trans hinsn')
  cases r
  cases r'
  simp_all

end Seq

end Gran
