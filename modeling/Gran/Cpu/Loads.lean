import Gran.Cpu.Isa
import Gran.Mem.SimpleMem
import Mathlib.Logic.Relation

/-!
# Loads

The way of a load through the core: it is issued, the core waits, the reply is received and written
back. `load_iff` says exactly when the register gets what the architecture loads: `LB` is not
sign-extended, and `LW` and `LWU` are extended the other way round.
-/

namespace Gran

open Relation
open Rv64i (Instr Width)

/-! ## Values in a line -/

/-- The addressed bytes of a line, as a little-endian number. -/
def lineWord (line : Line) (addr : Word) (size : Nat) : Word :=
  leWord (fun i => if h : addr.toNat % 64 + i < 64 then line ⟨_, h⟩ else 0) size

/-- It has no other bits. -/
theorem lineWord_high (line : Line) (addr : Word) (size : Nat) {j : Nat} (hj : 8 * size ≤ j) :
    (lineWord line addr size).getLsbD j = false := by
  by_cases hlt : j < 64
  · have hge : decide (j < 8 * size) = false := decide_eq_false (by omega)
    rw [lineWord, getLsbD_leWord _ _ _ hlt, hge, Bool.false_and]
  · exact BitVec.getLsbD_of_ge _ _ (by omega)

namespace Rv64i.Width

variable (w : Width)

/-- Widths are sizes of accesses. -/
theorem bytes_mem_sizes : w.bytes ∈ sizes := by
  cases w <;> decide

/-- A load and a store see the low bytes of a value only. -/
theorem extend_congr {signed : Bool} {v v' : Word}
    (h : ∀ j < 8 * w.bytes, v.getLsbD j = v'.getLsbD j) :
    w.extend signed v = w.extend signed v' := by
  have hlow : v.setWidth (8 * w.bytes) = v'.setWidth (8 * w.bytes) := by
    apply BitVec.eq_of_getLsbD_eq
    intro j hj
    simp only [BitVec.getLsbD_setWidth, h j hj]
  simp only [extend, hlow]

/-- The sign of a value of this width. -/
def sign (v : Word) : Bool := v.getLsbD (8 * w.bytes - 1)

end Rv64i.Width

/-- The loads that the core extends the wrong way: `LB`, `LW` and `LWU`. -/
def Rv64i.Width.Misextended (w : Width) (signed : Bool) : Prop :=
  w = .byte ∧ signed = true ∨ w = .word

/-- What `finalize_ld` makes of the bytes of a reply. -/
def extended (size : Nat) (u : Bool) (v : Word) : Word :=
  match size with
  | 1 => if u then (v.truncate 8).zeroExtend 64 else v
  | 2 => if u then (v.truncate 16).zeroExtend 64 else (v.truncate 16).signExtend 64
  | 4 => if u then (v.truncate 32).signExtend 64 else (v.truncate 32).zeroExtend 64
  | _ => v

/-- The core extends as the architecture does, the loads apart that it extends the wrong way. -/
theorem extended_iff (w : Width) (signed : Bool) {v : Word}
    (hv : ∀ j, 8 * w.bytes ≤ j → v.getLsbD j = false) :
    extended w.bytes (!signed) v = w.extend signed v ↔
      (w.Misextended signed → w.sign v = false) := by
  have hzero {k : Nat} (hk : 8 * w.bytes = k) : (v.setWidth k).setWidth 64 = v := by
    apply BitVec.eq_of_getLsbD_eq
    intro j hj
    rw [BitVec.getLsbD_setWidth, BitVec.getLsbD_setWidth]
    by_cases hlt : j < k
    · simp [hj, hlt]
    · simp [hlt, hv j (by omega)]
  have hsign {k : Nat} (h0 : 0 < k) (hk : k < 64) :
      (v.setWidth k).signExtend 64 = (v.setWidth k).setWidth 64 ↔ v.getLsbD (k - 1) = false := by
    have hlt : k - 1 < k := by omega
    rw [BitVec.signExtend_eq_setWidth_iff _ hk, BitVec.getLsbD_setWidth, decide_eq_true hlt,
      Bool.true_and]
  cases w with
  | byte =>
      have hbyte := hsign (k := 8) (by omega) (by omega)
      rw [show (v.setWidth 8).setWidth 64 = v from hzero rfl] at hbyte
      cases signed with
      | true =>
          show v = (v.setWidth 8).signExtend 64 ↔ (_ → v.getLsbD 7 = false)
          rw [eq_comm, hbyte]
          simp [Width.Misextended]
      | false => simp [extended, Width.bytes, Width.extend, Width.Misextended]
  | half => cases signed <;> simp [extended, Width.bytes, Width.extend, Width.Misextended]
  | word =>
      have hword := hsign (k := 32) (by omega) (by omega)
      cases signed with
      | true =>
          show (v.setWidth 32).setWidth 64 = (v.setWidth 32).signExtend 64 ↔
            (_ → v.getLsbD 31 = false)
          rw [eq_comm, hword]
          simp [Width.Misextended]
      | false =>
          show (v.setWidth 32).signExtend 64 = (v.setWidth 32).setWidth 64 ↔
            (_ → v.getLsbD 31 = false)
          rw [hword]
          simp [Width.Misextended]
  | double => cases signed <;> simp [extended, Width.bytes, Width.extend, Width.Misextended]

namespace Core

variable {c : Core} {ld : Ldst} {size : Nat}

/-- What `finalize_ld` writes back. -/
theorem finalizeLd_eq_extended {v : Word} (haccess : IsAccess size ld.pkt.mask)
    (hv : packetConv size ld.pkt = some v) :
    c.finalizeLd ld = some (c.setReg ld.reg (extended size ld.u v)) := by
  have hsize := haccess.1
  simp only [finalizeLd, haccess.convsize]
  simp only [sizes, List.mem_cons, List.not_mem_nil, or_false] at hsize
  rcases hsize with rfl | rfl | rfl | rfl <;> cases ld.u <;>
    simp [packetConvu8, packetConvi8, packetConvu16, packetConvi16, packetConvu32, packetConvi32,
      packetConvu64, hv, extended]

/-! ## Requests of loads and stores -/

/-- A conversion of a reply reads the addressed bytes. -/
theorem packetConv_lineWord {base addr : Word} {bytes : Nat → BitVec 8} {flags : BitVec 32}
    {p pkt : Packet} (hsize : size ∈ sizes) (hp : IsCreated base addr size bytes flags p)
    (hmask : pkt.mask = p.mask) :
    packetConv size pkt = some (lineWord pkt.data addr size) := by
  have hlt : addr.toNat % 64 < 64 := Nat.mod_lt _ (by decide)
  obtain ⟨hffs, hle, -, -⟩ := maskAt_facts ⟨_, hlt⟩ size hsize hp.fits
  rw [packetConv, hmask, hp.mask, hffs, if_neg (by omega)]
  rfl

/-- The masked bytes of a reply are the addressed ones. -/
theorem lineWord_congr {base addr : Word} {bytes : Nat → BitVec 8} {flags : BitVec 32}
    {p : Packet} {line line' : Line} (hsize : size ∈ sizes)
    (hp : IsCreated base addr size bytes flags p)
    (h : ∀ i : Fin 64, p.mask.getLsbD i = true → line i = line' i) :
    lineWord line addr size = lineWord line' addr size := by
  have hlt : addr.toNat % 64 < 64 := Nat.mod_lt _ (by decide)
  obtain ⟨-, hle, -, hbits⟩ := maskAt_facts ⟨_, hlt⟩ size hsize hp.fits
  have hle' : addr.toNat % 64 + size ≤ 64 := hle
  apply leWord_congr
  intro i hi
  have hin : addr.toNat % 64 + i < 64 := by omega
  rw [dif_pos hin, dif_pos hin]
  exact h _ (by rw [hp.mask]; exact hbits i hi)

/-- The mask of a created packet is one of an access. -/
theorem isAccess_created {base addr : Word} {bytes : Nat → BitVec 8} {flags : BitVec 32}
    {p : Packet} (hsize : size ∈ sizes) (hp : IsCreated base addr size bytes flags p) :
    IsAccess size p.mask := by
  have hlt : addr.toNat % 64 < 64 := Nat.mod_lt _ (by decide)
  rw [hp.mask]
  exact ⟨hsize, _, rfl, maskAt_facts ⟨_, hlt⟩ size hsize hp.fits⟩

/-- The request of a load. -/
structure IsLoad (c : Core) (w : Width) (signed : Bool) (rd rs1 : BitVec 5) (imm : Word)
    (ld : Ldst) : Prop where
  pkt : IsCreated c.rcv (c.getReg rs1 + imm) w.bytes (fun _ => 0) PACKET_READ ld.pkt
  state : ld.state = .SENT
  reg : ld.reg = rd
  u : ld.u = !signed

/-- Executing a load makes a packet of its width. -/
theorem execute_load {insn : BitVec 32} {w : Width} {signed : Bool} {rd rs1 : BitVec 5}
    {imm : Word} (hdec : Rv64i.decode insn = some (.load w signed rd rs1 imm)) :
    c.execute insn = (createPacket c.rcv (c.getReg rs1 + imm) (BitVec.ofNat 64 w.bytes)
      (fun _ => 0) PACKET_READ).bind fun pkt => some (.request ⟨pkt, .SENT, rd, !signed⟩) := by
  have hop : (Insn.op insn).toNat = 0b0000011 := Rv64i.decode_opcode hdec
  have hop' : (insn.extractLsb' 0 7).toNat = 0b0000011 := hop
  simp only [execute, hop, load, Insn.itypeImm_eq, Insn.rd_eq, Insn.rs1_eq, Insn.funct3_eq]
  simp only [Rv64i.decode, hop'] at hdec
  unfold Rv64i.decodeLoad at hdec
  dsimp only at hdec
  generalize (Rv64i.funct3 insn).toNat = funct3 at hdec ⊢
  split at hdec <;> cases hdec <;> rfl

/-- Executing a load makes a read of its bytes. -/
theorem load_created {insn : BitVec 32} {w : Width} {signed : Bool} {rd rs1 : BitVec 5}
    {imm : Word} {o : Outcome} (hdec : Rv64i.decode insn = some (.load w signed rd rs1 imm))
    (h : c.execute insn = some o) : ∃ ld, o = .request ld ∧ c.IsLoad w signed rd rs1 imm ld := by
  rw [execute_load hdec] at h
  obtain ⟨pkt, hpkt, ho⟩ := Option.bind_eq_some_iff.1 h
  cases ho
  exact ⟨_, rfl, createPacket_created w.bytes_mem_sizes hpkt, rfl, rfl, rfl⟩

/-- A load inside of a line is issued. -/
theorem load_isSome {insn : BitVec 32} {w : Width} {signed : Bool} {rd rs1 : BitVec 5}
    {imm : Word} (hdec : Rv64i.decode insn = some (.load w signed rd rs1 imm))
    (halign : packetAlign c.rcv = c.rcv)
    (hline : (c.getReg rs1 + imm).toNat % 64 + w.bytes ≤ 64) :
    ∃ ld, c.execute insn = some (.request ld) ∧ c.IsLoad w signed rd rs1 imm ld := by
  obtain ⟨-, hle⟩ := size_le w.bytes_mem_sizes
  have hlit : (BitVec.ofNat 64 w.bytes).toNat = w.bytes := Nat.mod_eq_of_lt (by omega)
  have hsize : BitVec.ofNat 64 w.bytes ≤ 64 := by
    rw [BitVec.le_def, hlit]
    exact hle.trans (by decide)
  have hmask := (packetMask_isSome hsize).2 (hlit.symm ▸ hline)
  obtain ⟨pkt, hpkt⟩ := createPacket_isSome halign hmask (fun _ => 0) PACKET_READ
  have hex : c.execute insn = some (.request ⟨pkt, .SENT, rd, !signed⟩) := by
    rw [execute_load hdec, hpkt]
    rfl
  exact ⟨_, hex, createPacket_created w.bytes_mem_sizes hpkt, rfl, rfl, rfl⟩

/-- Executing a store makes a packet of the low bytes of its register. -/
theorem execute_store {insn : BitVec 32} {w : Width} {rs1 rs2 : BitVec 5} {imm : Word}
    (hdec : Rv64i.decode insn = some (.store w rs1 rs2 imm)) :
    c.execute insn = (createPacket c.rcv (c.getReg rs1 + imm) (BitVec.ofNat 64 w.bytes)
      (fun i => (c.getReg rs2 >>> (8 * i)).truncate 8) PACKET_WRITE).bind
        fun pkt => some (.request ⟨pkt, .SENT, 0, false⟩) := by
  have hop : (Insn.op insn).toNat = 0b0100011 := Rv64i.decode_opcode hdec
  have hop' : (insn.extractLsb' 0 7).toNat = 0b0100011 := hop
  simp only [execute, hop, store, Insn.stypeImm_eq, Insn.rs1_eq, Insn.rs2_eq, Insn.funct3_eq]
  simp only [Rv64i.decode, hop'] at hdec
  unfold Rv64i.decodeStore at hdec
  dsimp only at hdec
  generalize (Rv64i.funct3 insn).toNat = funct3 at hdec ⊢
  split at hdec <;> cases hdec <;> rfl

/-- Executing a store makes a write of the low bytes of its register. -/
theorem store_created {insn : BitVec 32} {w : Width} {rs1 rs2 : BitVec 5} {imm : Word}
    (hdec : Rv64i.decode insn = some (.store w rs1 rs2 imm))
    (h : c.execute insn = some (.request ld)) :
    IsCreated c.rcv (c.getReg rs1 + imm) w.bytes
      (fun i => (c.getReg rs2 >>> (8 * i)).truncate 8) PACKET_WRITE ld.pkt := by
  rw [execute_store hdec] at h
  obtain ⟨pkt, hpkt, ho⟩ := Option.bind_eq_some_iff.1 h
  cases ho
  exact createPacket_created w.bytes_mem_sizes hpkt

end Core

namespace Cpu

variable {C W : Type} {ports : CpuPorts C W} {c c' : Cpu C} {w w' : W}

/-! ## Waiting for the reply -/

/-- The data transfer and the registers are left alone. -/
structure Quiet (c c' : Cpu C) : Prop where
  core : c'.toCore = c.toCore
  pkt : c'.dls.pkt = c.dls.pkt
  reg : c'.dls.reg = c.dls.reg
  u : c'.dls.u = c.dls.u
  busy : c.dls.state ≠ .IDLE → c'.dls.state ≠ .IDLE
  done : c.dls.state = .DONE → c'.dls.state = .DONE

/-- Doing nothing is quiet. -/
theorem Quiet.refl (c : Cpu C) : Quiet c c := ⟨rfl, rfl, rfl, rfl, id, id⟩

/-- Quiet steps follow one another. -/
theorem Quiet.trans {c'' : Cpu C} (h : Quiet c c') (h' : Quiet c' c'') : Quiet c c'' :=
  ⟨h'.core.trans h.core, h'.pkt.trans h.pkt, h'.reg.trans h.reg, h'.u.trans h.u,
    fun hne => h'.busy (h.busy hne), fun hdone => h'.done (h.done hdone)⟩

/-- What can happen to a core while it waits for the reply to a data request, and while it does not
look at a reply that came: it is clocked, it receives something else, or something happens
elsewhere. -/
inductive WaitStep (ports : CpuPorts C W) : Cpu C × W → Cpu C × W → Prop where
  | clock {c c' : Cpu C} {w w' : W} {ret : Stat} (hquiet : c.dls.state ≠ .DONE ∨ c.sleep = true)
      (h : simpleRiscv64Clock ports c w = some (ret, c', w')) : WaitStep ports (c, w) (c', w')
  | receive {c c' : Cpu C} {w w' : W} {ret : Stat} (sender : C) (pkt : Packet)
      (hdst : pkt.dst ≠ c.rcv)
      (h : simpleRiscv64Receive ports sender pkt c w = some (ret, c', w')) :
      WaitStep ports (c, w) (c', w')
  | elsewhere (c : Cpu C) (w w' : W) : WaitStep ports (c, w) (c, w')

/-- The control port leaves the rest of the core alone. -/
theorem clockCtrl_quiet {go : Bool} (h : clockCtrl ports c w = some (go, c', w')) :
    ∃ cls, c' = { c with cls } := by
  unfold clockCtrl at h
  split at h
  case isFalse =>
    cases h
    exact ⟨c.cls, rfl⟩
  case isTrue =>
    simp only [Option.bind_eq_bind, Option.bind_eq_some_iff, Option.pure_def] at h
    obtain ⟨-, -, ctrl, -, ⟨r, w₁⟩, -, h⟩ := h
    split at h
    case isTrue =>
      cases h
      exact ⟨c.cls, rfl⟩
    case isFalse =>
      cases h
      exact ⟨_, rfl⟩

/-- A request that was not answered is presented again or waited for. -/
theorem clockData_quiet {go : Bool} (hidle : c.dls.state ≠ .IDLE) (hdone : c.dls.state ≠ .DONE)
    (h : clockData ports c w = some (go, c', w')) : go = false ∧ Quiet c c' := by
  unfold clockData at h
  split at h
  case h_1 hstate => exact absurd hstate hidle
  case h_2 hstate =>
    simp only [Option.bind_eq_bind, Option.bind_eq_some_iff, Option.pure_def] at h
    obtain ⟨-, -, ⟨r, w₁⟩, -, h⟩ := h
    split at h
    case isTrue =>
      cases h
      exact ⟨rfl, Quiet.refl c⟩
    case isFalse =>
      cases h
      exact ⟨rfl, rfl, rfl, rfl, rfl, fun _ => by simp, fun h => absurd h hdone⟩
  case h_3 hstate =>
    simp only [Option.bind_eq_bind, Option.bind_eq_some_iff, Option.pure_def] at h
    obtain ⟨-, -, h⟩ := h
    cases h
    exact ⟨rfl, Quiet.refl c⟩
  case h_4 hstate => exact absurd hstate hdone

/-- A clock of a core that waits for its load, or sleeps, is quiet. -/
theorem clock_quiet {ret : Stat} (hidle : c.dls.state ≠ .IDLE)
    (hquiet : c.dls.state ≠ .DONE ∨ c.sleep = true)
    (h : simpleRiscv64Clock ports c w = some (ret, c', w')) : Quiet c c' := by
  simp only [simpleRiscv64Clock, Option.bind_eq_bind, Option.bind_eq_some_iff, Option.pure_def] at h
  obtain ⟨⟨go, c₁, w₁⟩, hctrl, h⟩ := h
  obtain ⟨cls, rfl⟩ := clockCtrl_quiet hctrl
  have hcls : Quiet c { c with cls } := ⟨rfl, rfl, rfl, rfl, id, id⟩
  split at h
  case isTrue =>
    cases h
    exact hcls
  case isFalse =>
    split at h
    case isTrue =>
      cases h
      exact hcls
    case isFalse hawake =>
      have hdone := hquiet.resolve_right hawake
      obtain ⟨⟨go', c₂, w₂⟩, hdata, h⟩ := Option.bind_eq_some_iff.1 h
      obtain ⟨rfl, hquiet₂⟩ := clockData_quiet (c := { c with cls }) hidle hdone hdata
      cases h
      exact hcls.trans hquiet₂

/-- Receiving anything but a reply to a data request. -/
theorem receive_quiet {ret : Stat} {sender : C} {pkt : Packet} (hdst : pkt.dst ≠ c.rcv)
    (h : simpleRiscv64Receive ports sender pkt c w = some (ret, c', w')) : Quiet c c' := by
  rw [simpleRiscv64Receive, if_neg hdst] at h
  split at h
  case isTrue =>
    cases h
    exact ⟨rfl, rfl, rfl, rfl, id, id⟩
  case isFalse =>
    split at h
    case isTrue =>
      simp only [Option.bind_eq_bind, Option.bind_eq_some_iff, Option.pure_def] at h
      obtain ⟨-, -, h⟩ := h
      split at h
      case isTrue =>
        cases h
        exact Quiet.refl c
      case isFalse =>
        obtain ⟨v, -, h⟩ := Option.bind_eq_some_iff.1 h
        split at h
        case isTrue =>
          cases h
          exact Quiet.refl c
        case isFalse =>
          obtain ⟨⟨r, w₁⟩, -, h⟩ := Option.bind_eq_some_iff.1 h
          dsimp only at h
          split at h <;> cases h <;> exact ⟨rfl, rfl, rfl, rfl, id, id⟩
    case isFalse =>
      cases h
      exact Quiet.refl c

/-- A step of a core that waits is quiet. -/
theorem WaitStep.quiet {s s' : Cpu C × W} (h : WaitStep ports s s')
    (hidle : s.1.dls.state ≠ .IDLE) : Quiet s.1 s'.1 := by
  cases h with
  | clock hquiet h => exact clock_quiet hidle hquiet h
  | receive sender pkt hdst h => exact receive_quiet hdst h
  | elsewhere c w w' => exact Quiet.refl c

/-- A core that waits stays the same. -/
theorem wait_quiet {s s' : Cpu C × W} (h : ReflTransGen (WaitStep ports) s s')
    (hidle : s.1.dls.state ≠ .IDLE) : Quiet s.1 s'.1 := by
  induction h with
  | refl => exact Quiet.refl s.1
  | tail _ hstep ih => exact ih.trans (hstep.quiet (ih.busy hidle))

/-! ## The way of a load -/

/-- Sending a fetch only changes the fetch. -/
theorem clockSend_quiet {ret : Stat} (h : clockSend ports c w = some (ret, c', w')) :
    ∃ ils, c' = { c with ils } := by
  unfold clockSend at h
  split at h
  · obtain ⟨⟨r, w₁⟩, -, h⟩ := Option.bind_eq_some_iff.1 h
    dsimp only at h
    split_ifs at h <;> cases h <;> exact ⟨_, rfl⟩
  · cases h
    exact ⟨c.ils, rfl⟩

/-- The core asks for the data of a load and goes on. -/
structure Issued (c : Cpu C) (ld : Ldst) (c' : Cpu C) : Prop where
  core : c'.toCore = { c.toCore with pc := c.pc + 4 }
  pkt : c'.dls.pkt = ld.pkt
  reg : c'.dls.reg = ld.reg
  u : c'.dls.u = ld.u
  busy : c'.dls.state ≠ .IDLE

/-- Issuing a load leaves the rest of the core alone. -/
theorem issue_issued {ld : Ldst} {ret : Stat} (hstate : ld.state = .SENT)
    (h : issue ports ld c w = some (ret, c', w')) : Issued c ld c' := by
  obtain ⟨⟨r, w₁⟩, -, h⟩ := Option.bind_eq_some_iff.1 h
  dsimp only at h
  split at h
  case isTrue =>
    cases h
    exact ⟨rfl, rfl, rfl, rfl, by simp⟩
  case isFalse =>
    cases h
    exact ⟨rfl, rfl, rfl, rfl, by simp [hstate]⟩

/-- The clock at which a load is run. -/
theorem clockRun_load {insn : BitVec 32} {wd : Width} {signed : Bool} {rd rs1 : BitVec 5}
    {imm : Word} {ret : Stat} (hdec : Rv64i.decode insn = some (.load wd signed rd rs1 imm))
    (hils : c.ils.state = .DONE) (hinsn : packetConvu32 c.ils.pkt = some insn)
    (h : clockRun ports c w = some (ret, c', w')) :
    ∃ ld, c.toCore.execute insn = some (.request ld) ∧
      c.toCore.IsLoad wd signed rd rs1 imm ld ∧ Issued c ld c' := by
  simp only [clockRun, hils, if_true, Option.bind_eq_bind, Option.bind_eq_some_iff,
    Option.pure_def, hinsn] at h
  obtain ⟨-, -, word, hword, ⟨r, c₁, w₁⟩, hrun, h⟩ := h
  obtain rfl := Option.some.inj hword
  simp only [run, Option.bind_eq_bind, Option.bind_eq_some_iff, Option.pure_def] at hrun
  obtain ⟨o, ho, hrun⟩ := hrun
  obtain ⟨ld, rfl, hload⟩ := Core.load_created hdec ho
  have hissued := issue_issued hload.state hrun
  refine ⟨ld, ho, hload, ?_⟩
  split at h
  case isTrue =>
    cases h
    exact ⟨hissued.core, hissued.pkt, hissued.reg, hissued.u, hissued.busy⟩
  case isFalse =>
    -- the next instruction is fetched
    obtain ⟨pkt, -, h⟩ := Option.bind_eq_some_iff.1 h
    obtain ⟨ils, rfl⟩ := clockSend_quiet h
    exact ⟨hissued.core, hissued.pkt, hissued.reg, hissued.u, hissued.busy⟩

/-- A load whose reply carries `line`: it is run, the core waits, the reply comes, and a clock
writes it back. -/
inductive Loads (ports : CpuPorts C W) (insn : BitVec 32) (line : Line) (c : Cpu C) (w : W) :
    Cpu C → Prop where
  | intro {ret ret' : Stat} {go : Bool} {c₁ c₂ c₃ c₄ c₅ : Cpu C} {w₁ w₂ w₃ w₄ w₅ : W}
      {sender : C} {reply : Packet} (hils : c.ils.state = .DONE)
      (hinsn : packetConvu32 c.ils.pkt = some insn)
      (hrun : clockRun ports c w = some (ret, c₁, w₁))
      (hwait : ReflTransGen (WaitStep ports) (c₁, w₁) (c₂, w₂))
      (hans : IsAnswer c₁.dls.pkt line reply)
      (hreceive : simpleRiscv64Receive ports sender reply c₂ w₂ = some (ret', c₃, w₃))
      (hlate : ReflTransGen (WaitStep ports) (c₃, w₃) (c₄, w₄))
      (hfinal : clockData ports c₄ w₄ = some (go, c₅, w₅)) : Loads ports insn line c w c₅

/-- What a load writes back. -/
theorem Loads.arch_eq {insn : BitVec 32} {line : Line} {wd : Width} {signed : Bool}
    {rd rs1 : BitVec 5} {imm : Word}
    (hdec : Rv64i.decode insn = some (.load wd signed rd rs1 imm))
    (h : Loads ports insn line c w c') :
    c'.toCore.arch = (c.toCore.arch.write rd (extended wd.bytes (!signed)
      (lineWord line (c.toCore.getReg rs1 + imm) wd.bytes))).next := by
  cases h with
  | @intro ret ret' go c₁ c₂ c₃ c₄ _ w₁ w₂ w₃ w₄ w₅ sender reply hils hinsn hrun hwait hans
      hreceive hlate hfinal =>
      obtain ⟨ld, -, hload, hissued⟩ := clockRun_load hdec hils hinsn hrun
      have hwaited := wait_quiet hwait hissued.busy
      have hcore₂ : c₂.toCore = { c.toCore with pc := c.pc + 4 } := hwaited.core.trans hissued.core
      -- the reply is for the port of the data requests
      have hdst : reply.dst = c₂.rcv := by
        rw [hans.dst, hissued.pkt, hload.pkt.src, hcore₂]
      rw [simpleRiscv64Receive, if_pos hdst] at hreceive
      cases hreceive
      have hlate' := wait_quiet hlate (show LdstState.DONE ≠ .IDLE by decide)
      have hstate : c₄.dls.state = .DONE := hlate'.done rfl
      have hcore₄ : c₄.toCore = { c.toCore with pc := c.pc + 4 } := hlate'.core.trans hcore₂
      have hreply : c₄.dls.pkt = reply := hlate'.pkt
      have hreg : c₄.dls.reg = rd :=
        (hlate'.reg.trans hwaited.reg).trans (hissued.reg.trans hload.reg)
      have hu : c₄.dls.u = !signed := (hlate'.u.trans hwaited.u).trans (hissued.u.trans hload.u)
      have hmask : reply.mask = ld.pkt.mask := hans.mask.trans (congrArg Packet.mask hissued.pkt)
      have hflags : isSet ld.pkt PACKET_READ = true := by rw [isSet, hload.pkt.flags]; rfl
      have hread : isSet reply PACKET_READ = true := by rw [hans.read, hissued.pkt, hflags]
      have hline : lineWord reply.data (c.getReg rs1 + imm) wd.bytes =
          lineWord line (c.getReg rs1 + imm) wd.bytes := by
        refine Core.lineWord_congr wd.bytes_mem_sizes hload.pkt fun i hi => ?_
        rw [← hissued.pkt] at hi hflags
        exact hans.data hflags i hi
      have haccess : IsAccess wd.bytes c₄.dls.pkt.mask := by
        rw [hreply, hmask]
        exact Core.isAccess_created wd.bytes_mem_sizes hload.pkt
      have hconv : packetConv wd.bytes c₄.dls.pkt =
          some (lineWord line (c.getReg rs1 + imm) wd.bytes) := by
        rw [hreply, Core.packetConv_lineWord wd.bytes_mem_sizes hload.pkt hmask, hline]
      simp only [clockData, hstate, Core.finalizeDls, hreply, hread, if_true,
        Option.bind_eq_bind, Option.bind_eq_some_iff, Option.pure_def] at hfinal
      obtain ⟨-, -, core, hcore, hfinal⟩ := hfinal
      rw [Core.finalizeLd_eq_extended haccess hconv, hu, hreg] at hcore
      cases hcore
      cases hfinal
      show (c₄.toCore.setReg rd _).arch = _
      rw [Core.arch_setReg, hcore₄, ← Rv64i.Arch.write_next]
      rfl

end Cpu

/-! ## Reading back a store -/

/-- The line that a memory answers the request of a load with, after a store of the same width at
the same address that nothing has overwritten. -/
inductive StoredLine (C : Type) (w : Width) (addr v : Word) (request : Packet) : Line → Prop where
  | intro {c : Core} {insn : BitVec 32} {rs1 rs2 : BitVec 5} {imm : Word} {ld : Ldst}
      (hdec : Rv64i.decode insn = some (.store w rs1 rs2 imm)) (haddr : c.getReg rs1 + imm = addr)
      (hvalue : c.getReg rs2 = v) (hstore : c.execute insn = some (.request ld))
      {mem mem₁ mem₂ mem₃ : SimpleMem C} {sender sender' : C}
      (hwrite : mem.receive sender ld.pkt = some (.OK, mem₁)) (hsize : mem₂.size = mem₁.size)
      (hbuf : mem₂.buf = mem₁.buf) (hread : mem₂.receive sender' request = some (.OK, mem₃)) :
      StoredLine C w addr v request mem₃.pkt.data

/-- The addressed bytes are those of the value. -/
theorem StoredLine.lineWord_eq {C : Type} {w : Width} {addr v base : Word} {request : Packet}
    {line : Line} {bytes : Nat → BitVec 8}
    (hreq : IsCreated base addr w.bytes bytes PACKET_READ request)
    (h : StoredLine C w addr v request line) :
    lineWord line addr w.bytes = leWord (fun i => (v >>> (8 * i)).truncate 8) w.bytes := by
  cases h with
  | @intro c insn rs1 rs2 imm ld hdec haddr hvalue hstore mem mem₁ mem₂ mem₃ sender sender' hwrite
      hsize hbuf hread =>
      obtain ⟨hbusy, -⟩ | ⟨-, -, rfl⟩ := SimpleMem.receive_cases hwrite
      · cases hbusy
      obtain ⟨hbusy, -⟩ | ⟨-, -, rfl⟩ := SimpleMem.receive_cases hread
      · cases hbusy
      subst haddr hvalue
      have hst := Core.store_created hdec hstore
      have hlt : (c.getReg rs1 + imm).toNat % 64 < 64 := Nat.mod_lt _ (by decide)
      obtain ⟨-, hle, -, hbits⟩ := maskAt_facts ⟨_, hlt⟩ w.bytes w.bytes_mem_sizes hst.fits
      have hle' : (c.getReg rs1 + imm).toNat % 64 + w.bytes ≤ 64 := hle
      have hreadFlag : isSet request PACKET_READ = true := by rw [isSet, hreq.flags]; rfl
      have hstoreFlag : isSet ld.pkt PACKET_READ = false := by rw [isSet, hst.flags]; rfl
      have hwriteFlag : isSet ld.pkt PACKET_WRITE = true := by rw [isSet, hst.flags]; rfl
      apply leWord_congr
      intro i hi
      have hin : (c.getReg rs1 + imm).toNat % 64 + i < 64 := by omega
      have hbit := hbits i hi
      have hmaskReq : request.mask.getLsbD ((c.getReg rs1 + imm).toNat % 64 + i) = true := by
        rw [hreq.mask]
        exact hbit
      have hmaskSt : ld.pkt.mask.getLsbD ((c.getReg rs1 + imm).toNat % 64 + i) = true := by
        rw [hst.mask]
        exact hbit
      have hdata := hst.data hwriteFlag ⟨_, hin⟩ (Nat.le_add_right ..) (by simp only; omega)
      rw [dif_pos hin]
      simp only [SimpleMem.taken, SimpleMem.replyTo, hreadFlag, if_true, setFlags_data,
        response_data, checkedCopyto, hmaskReq, hbuf, hsize, hreq.dst]
      simp only [SimpleMem.stored, hstoreFlag, Bool.false_eq_true, if_false, hst.dst,
        Nat.le_add_right, if_true, Nat.add_sub_cancel_left, checkedCopyfrom, hin, dif_pos,
        hmaskSt, hdata]

/-! ## What a load leaves in its register -/

namespace Cpu

variable {C W : Type} {ports : CpuPorts C W} {c c' : Cpu C} {w : W}

/-- A load leaves in its register what the architecture loads, and changes nothing else, exactly
when it writes `x0`, is extended the right way, or loads a value whose sign is clear; and so for a
value that was stored at its address. -/
theorem load_iff {insn : BitVec 32} {line : Line} {wd : Width} {signed : Bool}
    {rd rs1 : BitVec 5} {imm : Word}
    (hdec : Rv64i.decode insn = some (.load wd signed rd rs1 imm))
    (h : Loads ports insn line c w c') :
    (c'.toCore.arch = (c.toCore.arch.write rd (wd.extend signed
        (lineWord line (c.toCore.getReg rs1 + imm) wd.bytes))).next ↔
      rd = 0 ∨ (wd.Misextended signed →
        wd.sign (lineWord line (c.toCore.getReg rs1 + imm) wd.bytes) = false)) ∧
    ∀ ld v, c.toCore.execute insn = some (.request ld) →
      StoredLine C wd (c.toCore.getReg rs1 + imm) v ld.pkt line →
      (c'.toCore.arch = (c.toCore.arch.write rd (wd.extend signed v)).next ↔
        rd = 0 ∨ (wd.Misextended signed → wd.sign v = false)) := by
  have hall : c'.toCore.arch = (c.toCore.arch.write rd (wd.extend signed
        (lineWord line (c.toCore.getReg rs1 + imm) wd.bytes))).next ↔
      rd = 0 ∨ (wd.Misextended signed →
        wd.sign (lineWord line (c.toCore.getReg rs1 + imm) wd.bytes) = false) := by
    rw [h.arch_eq hdec, Rv64i.Arch.next_inj, Rv64i.Arch.write_inj,
      extended_iff wd signed fun j => lineWord_high line _ _]
  refine ⟨hall, fun ld v hex hstored => ?_⟩
  obtain ⟨_, ho, hload⟩ := Core.load_created hdec hex
  cases ho
  have hbit (j : Nat) (hj : j < 8 * wd.bytes) :
      (lineWord line (c.toCore.getReg rs1 + imm) wd.bytes).getLsbD j = v.getLsbD j := by
    have hj64 : j < 64 := by cases wd <;> simp only [Width.bytes] at hj <;> omega
    rw [hstored.lineWord_eq hload.pkt, getLsbD_leWord_bytes v _ j hj64, decide_eq_true hj,
      Bool.true_and]
  have hsign : wd.sign (lineWord line (c.toCore.getReg rs1 + imm) wd.bytes) = wd.sign v :=
    hbit _ (by cases wd <;> simp only [Width.bytes] <;> omega)
  rw [← wd.extend_congr hbit, hall, hsign]

/-! ## Loads happen -/

/-- A core whose requests are taken at once. -/
structure Takes (ports : CpuPorts C W) : Prop where
  imem : ∀ p w, ∃ w', ports.imem p w = some (.OK, w')
  dmem : ∀ p w, ∃ w', ports.dmem p w = some (.OK, w')

/-- A load inside of a line is run, and its reply is written back. -/
theorem loads_isSome (hports : Takes ports) {insn : BitVec 32} {wd : Width} {signed : Bool}
    {rd rs1 : BitVec 5} {imm : Word}
    (hdec : Rv64i.decode insn = some (.load wd signed rd rs1 imm))
    (hils : c.ils.state = .DONE) (hinsn : packetConvu32 c.ils.pkt = some insn)
    (herror : isSet c.dls.pkt PACKET_ERROR = false) (halign : packetAlign c.rcv = c.rcv)
    (hline : (c.toCore.getReg rs1 + imm).toNat % 64 + wd.bytes ≤ 64)
    (hfetch : (({ c.toCore with pc := c.pc + 4 } : Core).fetch).isSome) (sender : C)
    (line : Line) :
    ∃ c', Loads ports insn line c w c' := by
  obtain ⟨ld, hex, hload⟩ := Core.load_isSome hdec halign hline
  obtain ⟨⟨ret, c₁, w₁⟩, hrun⟩ : ∃ r, clockRun ports c w = some r := by
    obtain ⟨pkt, hpkt⟩ := Option.isSome_iff_exists.1 hfetch
    obtain ⟨w₁, hdmem⟩ := hports.dmem ld.pkt w
    obtain ⟨w₂, himem⟩ := hports.imem pkt w₁
    simp only [clockRun, hils, if_true, hinsn, herror, Bool.not_false, guard_true,
      Option.bind_eq_bind, Option.bind_some, Option.pure_def, run, hex, issue, hdmem,
      reduceCtorEq, if_false, ne_eq, not_true_eq_false, hpkt, clockSend, himem]
    exact ⟨_, rfl⟩
  obtain ⟨ld', hex', hload', hissued⟩ := clockRun_load hdec hils hinsn hrun
  have hflags : IsAccessFlags c₁.dls.pkt.flags := .inl (by rw [hissued.pkt, hload'.pkt.flags])
  have hans := answer_isAnswer hflags line
  have hdst : (answer c₁.dls.pkt line).dst = c₁.rcv := by
    rw [hans.dst, hissued.pkt, hload'.pkt.src, hissued.core]
  have haccess : IsAccess wd.bytes c₁.dls.pkt.mask := by
    rw [hissued.pkt]
    exact Core.isAccess_created wd.bytes_mem_sizes hload'.pkt
  obtain ⟨core, hcore⟩ := @Core.finalizeDls_some c₁.toCore { c₁.dls with state := .DONE }
    c₁.dls.pkt line wd.bytes haccess
  have hreceive : simpleRiscv64Receive ports sender (answer c₁.dls.pkt line) c₁ w₁ =
      some (.OK, { c₁ with dls := { c₁.dls with pkt := answer c₁.dls.pkt line, state := .DONE } },
        w₁) := if_pos hdst
  have hfinal : ∃ r, clockData ports
      { c₁ with dls := { c₁.dls with pkt := answer c₁.dls.pkt line, state := .DONE } } w₁ =
        some r := by
    simp only [clockData, hans.error, Bool.not_false, guard_true, Option.bind_eq_bind,
      Option.bind_some, Option.pure_def, hcore]
    exact ⟨_, rfl⟩
  obtain ⟨⟨go, c₂, w₂⟩, hfinal⟩ := hfinal
  exact ⟨c₂, .intro hils hinsn hrun .refl hans hreceive .refl hfinal⟩

/-- A core that has fetched `lb x1, 0(x0)`. -/
def lbCore : Cpu Unit :=
  { rcv := 0, regs := fun _ => 0, pc := 0, dls := .idle
    ils := ⟨⟨64, 0, 0xf, 0, fun i => if (i : Nat) = 0 then 0x83 else 0, PACKET_READ⟩, .DONE, 0,
      false⟩
    cls := .idle, ctrl := none, sleep := false, trace := [] }

/-- Memories that take every request. -/
def takingPorts : CpuPorts Unit Unit :=
  ⟨fun _ w => some (.OK, w), fun _ w => some (.OK, w), fun _ _ w => some (.OK, w)⟩

/-- The core of the example runs its load. -/
theorem loads_lb (line : Line) : ∃ c', Loads takingPorts 0x00000083 line lbCore () c' :=
  loads_isSome ⟨fun _ w => ⟨w, rfl⟩, fun _ w => ⟨w, rfl⟩⟩
    (show Rv64i.decode 0x00000083 = some (.load .byte true 1 0 0) by decide) rfl (by decide)
    (by decide) (by decide) (by decide) (by decide) () line

/-- A core that is about to run `sb x1, 0(x0)` on the value 0x7f. -/
def sbCore : Core := ⟨0, fun r => if r = 1 then 0x7f else 0, 0⟩

/-- A memory of one line that got the byte of `sbCore` answers a read of it. -/
theorem storedLine_sb {base addr : Word} {bytes : Nat → BitVec 8} {request : Packet}
    (hreq : IsCreated base 0 Width.byte.bytes bytes PACKET_READ request) (haddr : addr = 0) :
    ∃ line, StoredLine Unit .byte addr 0x7f request line := by
  subst haddr
  have hdec : Rv64i.decode 0x00100023 = some (.store .byte 0 1 0) := by decide
  obtain ⟨o, ho⟩ : ∃ o, sbCore.execute 0x00100023 = some o :=
    Option.isSome_iff_exists.1 (by decide +kernel)
  obtain ⟨ld, rfl⟩ : ∃ ld, o = .request ld := by
    rw [Core.execute_store hdec] at ho
    obtain ⟨pkt, -, ho⟩ := Option.bind_eq_some_iff.1 ho
    cases ho
    exact ⟨_, rfl⟩
  have hst := Core.store_created hdec ho
  have hfits : ∀ pkt : Packet, pkt.dst = packetAlign 0 → SimpleMem.Fits 64 (pkt.dst % 64) pkt := by
    intro pkt hdst i _
    have hzero : (packetAlign 0 % 64 : Word).toNat = 0 := by decide
    rw [hdst, hzero, Nat.zero_add]
    exact i.isLt
  have hsize : (64 : Word) ≠ 0 := by decide
  let mem : SimpleMem Unit := createSimpleMem 64 fun _ => 0
  have hwrite : mem.receive () ld.pkt = some (.OK, mem.taken () ld.pkt) :=
    SimpleMem.receive_accepts rfl ⟨hsize, .inr (by rw [isSet, hst.flags]; rfl),
      hfits _ hst.dst⟩
  let mem₂ : SimpleMem Unit := { mem.taken () ld.pkt with busy := false }
  have hread : mem₂.receive () request = some (.OK, mem₂.taken () request) :=
    SimpleMem.receive_accepts rfl ⟨hsize, .inl (by rw [isSet, hreq.flags]; rfl),
      hfits _ hreq.dst⟩
  have hsame : mem₂.size = (mem.taken () ld.pkt).size ∧ mem₂.buf = (mem.taken () ld.pkt).buf :=
    ⟨rfl, rfl⟩
  exact ⟨_, .intro hdec rfl rfl ho hwrite hsame.1 hsame.2 hread⟩

/-- `load_iff` for `lb` of a byte with its sign clear, which `sb` stored. -/
theorem load_iff_lb : ∃ (c' : Cpu Unit) (ld : Ldst) (line : Line),
    Loads takingPorts 0x00000083 line lbCore () c' ∧
    lbCore.toCore.execute 0x00000083 = some (.request ld) ∧
    StoredLine Unit .byte (lbCore.toCore.getReg 0 + 0) 0x7f ld.pkt line ∧
    (c'.toCore.arch = (lbCore.toCore.arch.write 1 (Width.byte.extend true
        (lineWord line (lbCore.toCore.getReg 0 + 0) 1))).next ↔
      (1 : BitVec 5) = 0 ∨ (Width.byte.Misextended true →
        Width.byte.sign (lineWord line (lbCore.toCore.getReg 0 + 0) 1) = false)) ∧
    c'.toCore.arch = (lbCore.toCore.arch.write 1 (Width.byte.extend true 0x7f)).next := by
  have hdec : Rv64i.decode 0x00000083 = some (.load .byte true 1 0 0) := by decide
  obtain ⟨ld, hex, hload⟩ := Core.load_isSome (c := lbCore.toCore) hdec (by decide) (by decide)
  obtain ⟨line, hstored⟩ := storedLine_sb hload.pkt (show lbCore.toCore.getReg 0 + 0 = 0 from rfl)
  obtain ⟨c', h⟩ := loads_lb line
  obtain ⟨hline, hstore⟩ := load_iff hdec h
  exact ⟨c', ld, line, h, hex, hstored, hline,
    (hstore ld _ hex hstored).2 (.inr fun _ => by decide)⟩

/-- `lb` of the byte 0x80 leaves 0x80. -/
theorem load_lb_sign :
    ¬ ∀ (c' : Cpu Unit) (line : Line), Loads takingPorts 0x00000083 line lbCore () c' →
      c'.toCore.arch = (lbCore.toCore.arch.write 1 (Width.byte.extend true
        (lineWord line 0 1))).next := by
  intro h
  obtain ⟨c', hloads⟩ := loads_lb fun _ => 0x80
  have hdec : Rv64i.decode 0x00000083 = some (.load .byte true 1 0 0) := by decide
  have harch := (h c' _ hloads).symm.trans (hloads.arch_eq hdec)
  have hvalue := Rv64i.Arch.write_inj.1 (Rv64i.Arch.next_inj.1 harch)
  revert hvalue
  decide

end Cpu

end Gran
