import Gran.Cpu.ControlFlow
import Gran.Cpu.Loads
import Gran.Cpu.System
import Gran.Cpu.WordArithmetic
import Gran.Foundations.Hart

/-!
# Programs on a core with its memories

Whole programs of RV64I. `seq_follows_iff` says exactly when the interpreter of the core goes
through the states of a hart of the architecture: when every instruction meets the condition under
which the core executes it as the architecture does. `simpleRiscv64_program` then says that the
simulation runs such a program to its end.
-/

namespace Gran

open Rv64i (Arch Instr Code Hart loadBytes storeBytes)

/-! ## Memory -/

/-- The place of an address in a memory. -/
def place (size addr : Word) : Nat := addr.toNat % size.toNat

/-- The instruction word that lies at an address. -/
def wordAt (isize : Word) (program : Nat → BitVec 8) (pc : Word) : BitVec 32 :=
  (loadBytes (place isize) program pc 4).truncate 32

/-- An access stays in its line. -/
def StaysInLine (addr : Word) (n : Nat) : Prop := addr.toNat % 64 + n ≤ 64

instance (addr : Word) (n : Nat) : Decidable (StaysInLine addr n) :=
  inferInstanceAs (Decidable (_ ≤ _))

section

variable {size addr : Word} {n : Nat} {buf : Nat → BitVec 8}

/-- The bytes of an access in a line lie one behind the other. -/
theorem place_add (hlines : WholeLines size) (hin : StaysInLine addr n) {i : Nat} (hi : i < n) :
    place size (addr + BitVec.ofNat 64 i) =
      (packetAlign addr % size).toNat + (addr.toNat % 64 + i) := by
  unfold StaysInLine at hin
  have hdvd := packetAlign_dvd (packetAlign_idem addr)
  have halign := toNat_packetAlign addr
  have hlt : addr.toNat % 64 + i < 64 := by omega
  have hnowrap : (addr + BitVec.ofNat 64 i).toNat =
      (packetAlign addr).toNat + (addr.toNat % 64 + i) := by
    rw [BitVec.toNat_add, BitVec.toNat_ofNat, Nat.mod_eq_of_lt (show i < 2 ^ 64 by omega)]
    have := (packetAlign addr).isLt
    omega
  have hline := SimpleMem.line_mod hlines.1 hlines.2 (packetAlign_idem addr) ⟨_, hlt⟩
  rw [place, hnowrap, BitVec.toNat_umod]
  exact hline

/-- What a request reads is what the architecture loads. -/
theorem lineWord_lineOf (hlines : WholeLines size) (hin : StaysInLine addr n) :
    lineWord (lineOf size buf (packetAlign addr)) addr n = loadBytes (place size) buf addr n := by
  have hbyte : ∀ i < n, (if h : addr.toNat % 64 + i < 64 then
      lineOf size buf (packetAlign addr) ⟨_, h⟩ else 0) =
        buf (place size (addr + BitVec.ofNat 64 i)) := by
    intro i hi
    have hlt : addr.toNat % 64 + i < 64 := by
      unfold StaysInLine at hin
      omega
    rw [dif_pos hlt, place_add hlines hin hi, lineOf]
  rw [lineWord, leWord_congr hbyte]
  clear hbyte hin
  induction n with
  | zero => rfl
  | succ n ih => rw [leWord, loadBytes, ih]

/-- What a request writes is what the architecture stores. -/
theorem stored_storeBytes (hlines : WholeLines size) (hsize : n ∈ sizes) (hin : StaysInLine addr n)
    {base v : Word} {p : Packet}
    (hp : IsCreated base addr n (fun i => (v >>> (8 * i)).truncate 8) PACKET_WRITE p) :
    (createSimpleMem size buf : SimpleMem Unit).stored p =
      storeBytes (place size) buf addr v n := by
  have hread : isSet p PACKET_READ = false := by rw [isSet, hp.flags]; rfl
  have hwrite : isSet p PACKET_WRITE = true := by rw [isSet, hp.flags]; rfl
  have hmask : MasksBytes (addr.toNat % 64) n p.mask := by
    rw [hp.mask]
    exact masksBytes_shiftLeft (getLsbD_low hsize)
  funext a
  have hline : addr.toNat % 64 + n ≤ 64 := hin
  simp only [SimpleMem.stored, hread, Bool.false_eq_true, if_false, createSimpleMem, hp.dst]
  by_cases hhit : ∃ i < n, a = place size (addr + BitVec.ofNat 64 i)
  · obtain ⟨i, hi, rfl⟩ := hhit
    rw [Rv64i.storeBytes_self (fun i hi j hj h => by
      rw [place_add hlines hin hi, place_add hlines hin hj] at h; omega) hi,
      place_add hlines hin hi]
    have hlt : addr.toNat % 64 + i < 64 := by omega
    have hbit : p.mask.getLsbD (addr.toNat % 64 + i) = true := by
      rw [hmask _ hlt]
      exact decide_eq_true (by omega)
    have hdata := hp.data hwrite ⟨_, hlt⟩ (Nat.le_add_right ..) (by simp only; omega)
    rw [if_pos (Nat.le_add_right ..), Nat.add_sub_cancel_left, checkedCopyfrom, dif_pos hlt,
      if_pos hbit, hdata]
    simp only [Nat.add_sub_cancel_left]
  · rw [Rv64i.storeBytes_of_ne fun i hi h => hhit ⟨i, hi, h⟩]
    split
    case isFalse => rfl
    case isTrue hle =>
      -- no byte of the mask lies here
      have hmiss : ∀ h : a - (packetAlign addr % size).toNat < 64,
          p.mask.getLsbD (a - (packetAlign addr % size).toNat) = false := by
        intro h
        rw [hmask _ h]
        refine decide_eq_false fun hbetween => hhit
          ⟨a - (packetAlign addr % size).toNat - addr.toNat % 64, by omega, ?_⟩
        rw [place_add hlines hin (by omega)]
        omega
      rw [checkedCopyfrom]
      split
      case isTrue h => rw [hmiss h, if_neg Bool.false_ne_true, Nat.add_sub_cancel' hle]
      case isFalse => rw [Nat.add_sub_cancel' hle]

end

/-! ## Instructions that make no data request -/

/-- The immediate of a U-type instruction is the architecture's. -/
theorem Insn.utypeImm_eq (i : BitVec 32) : utypeImm i = Rv64i.immU i := by
  rw [utypeImm, Rv64i.immU]
  congr 1
  apply BitVec.eq_of_getLsbD_eq
  intro j hj
  simp only [field, BitVec.getLsbD_shiftLeft, BitVec.getLsbD_setWidth, BitVec.getLsbD_append,
    BitVec.getLsbD_extractLsb', BitVec.getLsbD_zero]
  grind

namespace Core

variable {c c' : Core} {insn : BitVec 32} {i : Instr}

/-- The condition under which a core executes an instruction that makes no data request as the
architecture does. -/
def Executes (c : Core) (insn : BitVec 32) : Instr → Prop
  | .opImm f rd rs1 imm => c.ComputesResult (.opImm f rd rs1 imm)
  | .op f rd rs1 rs2 => c.ComputesResult (.op f rd rs1 rs2)
  | .opImmW f rd rs1 imm => c.WordSizedResult (.opImmW f rd rs1 imm)
  | .load .. | .store .. => False
  | i => c.ReachesTarget insn i

/-- An OP-IMM instruction follows the architecture if its result does. -/
theorem opImm_executes (hop : (Insn.op insn).toNat = 0b0010011)
    (hdec : Rv64i.decode insn = some i) : c.Follows insn ↔ c.ComputesResult i := by
  have hdec' : Rv64i.decodeOpImm insn = some i := by
    have hop' : (insn.extractLsb' 0 7).toNat = 0b0010011 := hop
    simpa only [Rv64i.decode, hop'] using hdec
  have hex : c.execute insn = some (c.opImm insn) := by simp only [execute, hop]
  obtain ⟨f, imm, v, rfl, hv, hiff⟩ := opImm_spec (c := c) hdec'
  rw [hv] at hex
  rw [follows_writeback_iff hdec hex rfl, ComputesResult, ← hiff]
  rfl

/-- An OP instruction follows the architecture if its result does. -/
theorem op_executes (hop : (Insn.op insn).toNat = 0b0110011)
    (hdec : Rv64i.decode insn = some i) : c.Follows insn ↔ c.ComputesResult i := by
  have hdec' : Rv64i.decodeOp insn = some i := by
    have hop' : (insn.extractLsb' 0 7).toNat = 0b0110011 := hop
    simpa only [Rv64i.decode, hop'] using hdec
  have hex : c.execute insn = some (c.op insn) := by simp only [execute, hop]
  obtain ⟨f, v, rfl, hv, hiff⟩ := op_spec (c := c) hdec'
  rw [hv] at hex
  rw [follows_writeback_iff hdec hex rfl, ComputesResult, ← hiff]
  rfl

/-- When an instruction follows the architecture, by its kind. -/
theorem follows_iff_executes (hdec : Rv64i.decode insn = some i) :
    c.Follows insn ↔ c.Executes insn i := by
  have hop : (Insn.op insn).toNat = i.opcode := Rv64i.decode_opcode hdec
  cases i with
  | jal => exact jal_iff hop hdec
  | jalr => exact jalr_iff hop hdec
  | branch => exact branch_iff hop hdec
  | miscMem => exact miscMem_iff hop hdec
  | opImm => exact opImm_executes hop hdec
  | op => exact op_executes hop hdec
  | opImmW => exact follows_word_iff hop hdec
  | load => simp [Follows, hdec, Instr.exec, Executes]
  | store => simp [Follows, hdec, Instr.exec, Executes]

/-- The condition is about what programs see. -/
theorem executes_congr (h : c.arch = c'.arch) : c.Executes insn i ↔ c'.Executes insn i := by
  have hreg : c.getReg = c'.getReg := congrArg Arch.x h
  have hpc : c.pc = c'.pc := congrArg Arch.pc h
  cases i <;> simp only [Executes, ComputesResult, WordSizedResult, ReachesTarget, hreg, hpc]

/-- An OP-IMM instruction returns. -/
theorem opImm_ret (insn : BitVec 32) : ∃ r c', c.opImm insn = .ret r c' := by
  unfold opImm
  dsimp only
  split <;> first | exact ⟨_, _, rfl⟩ | (split <;> exact ⟨_, _, rfl⟩)

/-- An OP instruction returns. -/
theorem op_ret (insn : BitVec 32) : ∃ r c', c.op insn = .ret r c' := by
  unfold op
  dsimp only
  split <;> first | exact ⟨_, _, rfl⟩ | (split <;> exact ⟨_, _, rfl⟩)

/-- A branch returns. -/
theorem branch_ret (insn : BitVec 32) : ∃ r c', c.branch insn = .ret r c' := by
  unfold branch
  dsimp only
  split <;> exact ⟨_, _, rfl⟩

/-- Only loads and stores make requests. -/
theorem execute_ret {a a' : Arch} (hdec : Rv64i.decode insn = some i) (hexec : i.exec a = some a') :
    ∃ r c', c.execute insn = some (.ret r c') := by
  have hop : (Insn.op insn).toNat = i.opcode := Rv64i.decode_opcode hdec
  cases i with
  | jal =>
      have hex : c.execute insn = some (c.jal insn) := by simp only [execute, hop, Instr.opcode]
      exact ⟨_, _, hex⟩
  | jalr =>
      have hex : c.execute insn = some (c.jalr insn) := by simp only [execute, hop, Instr.opcode]
      exact ⟨_, _, hex⟩
  | miscMem =>
      have hex : c.execute insn = some (.ret .OK c) := by simp only [execute, hop, Instr.opcode]
      exact ⟨_, _, hex⟩
  | branch =>
      obtain ⟨r, c', h⟩ := branch_ret (c := c) insn
      exact ⟨r, c', by simp only [execute, hop, Instr.opcode, h]⟩
  | opImm =>
      obtain ⟨r, c', h⟩ := opImm_ret (c := c) insn
      exact ⟨r, c', by simp only [execute, hop, Instr.opcode, h]⟩
  | op =>
      obtain ⟨r, c', h⟩ := op_ret (c := c) insn
      exact ⟨r, c', by simp only [execute, hop, Instr.opcode, h]⟩
  | opImmW =>
      obtain ⟨r, c', h⟩ := opImm_ret (c := c) insn
      exact ⟨r, c', by simp only [execute, hop, Instr.opcode, opImm32, h]⟩
  | load => cases hexec
  | store => cases hexec

end Core

/-! ## One instruction -/

/-- A core in a state of the architecture. -/
def Rv64i.Arch.core (a : Arch) : Core := ⟨0, a.x, a.pc⟩

/-- The condition under which an instruction does on a core what it does on a hart: a load or a
store stays in its line, and a load is extended the right way or loads a value whose sign is
clear. -/
def Conforms (dsize : Word) (h : Hart Nat) (insn : BitVec 32) : Code → Prop
  | .lui .. | .auipc .. => True
  | .instr (.load w signed rd rs1 imm) =>
      StaysInLine (h.arch.x rs1 + imm) w.bytes ∧ (rd = 0 ∨ (w.Misextended signed →
        w.sign (loadBytes (place dsize) h.mem (h.arch.x rs1 + imm) w.bytes) = false))
  | .instr (.store w rs1 _ imm) => StaysInLine (h.arch.x rs1 + imm) w.bytes
  | .instr i => h.arch.core.Executes insn i

/-- The interpreter is in the state of a hart. -/
structure Matches (t : Seq (Nat → BitVec 8)) (h : Hart Nat) : Prop where
  arch : t.core.arch = h.arch
  mem : t.mem = h.mem

section

variable {isize dsize : Word} {program : Nat → BitVec 8} {t t' : Seq (Nat → BitVec 8)}
  {h h' : Hart Nat} {insn : BitVec 32} {ret : Stat}

/-- A fetch inside of a line reads the word that lies at the program counter. -/
theorem insn_eq (hilines : WholeLines isize) (halign : packetAlign t.core.rcv = t.core.rcv)
    (hin : StaysInLine t.core.pc 4) :
    t.insn (simMemories isize dsize program) = some (wordAt isize program t.core.pc) := by
  have hbase : packetAlign (t.core.rcv + 64) = t.core.rcv + 64 := by
    have hdvd := packetAlign_dvd halign
    have hmod := toNat_packetAlign (t.core.rcv + 64)
    have hadd : (t.core.rcv + 64).toNat = (t.core.rcv.toNat + 64) % 2 ^ 64 := BitVec.toNat_add ..
    apply BitVec.eq_of_toNat_eq
    omega
  have hmask := (packetMask_isSome (show (4 : Word) ≤ 64 by decide)).2 hin
  obtain ⟨pkt, hpkt⟩ := createPacket_isSome hbase hmask (fun _ => 0) PACKET_READ
  have hfetch : t.core.fetch = some pkt := hpkt
  have hcreated := createPacket_created (show 4 ∈ sizes by decide) hpkt
  have hconv : packetConv 4 (answer pkt ((simMemories isize dsize program).imem pkt)) = some _ :=
    Core.packetConv_lineWord (by decide) hcreated rfl
  simp only [Seq.insn, hfetch, Option.bind_eq_bind, Option.bind_some, packetConvu32, hconv,
    Option.map_some, wordAt]
  rw [← lineWord_lineOf hilines hin, ← hcreated.dst]
  rfl

/-- No instruction word is fetched across a line. -/
theorem insn_none {m : Memories (Nat → BitVec 8)} (hin : ¬ StaysInLine t.core.pc 4) :
    t.insn m = none := by
  have hfetch : t.core.fetch = none := by
    rw [Option.eq_none_iff_forall_not_mem]
    intro pkt hpkt
    have hmask := (createPacket_cases hpkt).mask
    exact hin ((packetMask_isSome (show (4 : Word) ≤ 64 by decide)).1 (by rw [hmask]; rfl))
  rw [Seq.insn, hfetch]
  rfl

/-- An instruction that makes no request. -/
theorem step_ret_iff (hinsn : t.insn (simMemories isize dsize program) = some insn) {r : Stat}
    {c' : Core} (hex : t.core.execute insn = some (.ret r c')) :
    (∃ t', t.step (simMemories isize dsize program) = some (.OK, t') ∧ Matches t' h') ↔
      r = .OK ∧ c'.arch = h'.arch ∧ t.mem = h'.mem := by
  simp only [Seq.step, hinsn, hex, Option.bind_eq_bind, Option.bind_some, Option.pure_def,
    Option.some.injEq, Prod.mk.injEq]
  constructor
  · rintro ⟨t', ⟨rfl, rfl⟩, hm⟩
    exact ⟨rfl, hm.arch, hm.mem⟩
  · rintro ⟨rfl, harch, hmem⟩
    exact ⟨_, ⟨rfl, rfl⟩, harch, hmem⟩

/-- An instruction that makes a request. -/
theorem step_request {m : Memories (Nat → BitVec 8)} (hinsn : t.insn m = some insn) {ld : Ldst}
    (hex : t.core.execute insn = some (.request ld)) {core : Core}
    (hfinal : Core.finalizeDls { t.core with pc := t.core.pc + 4 }
      { ld with pkt := answer ld.pkt (m.apply t.mem ld.pkt).2 } = some core) :
    ∃ t', t.step m = some (.OK, t') ∧ t'.mem = (m.apply t.mem ld.pkt).1 ∧ t'.core = core := by
  refine ⟨⟨core, (m.apply t.mem ld.pkt).1, ld.pkt :: t.accepted,
    ⟨insn, t.core.regs, t.core.pc⟩ :: t.trace⟩, ?_, rfl, rfl⟩
  simp only [Seq.step, hinsn, hex, Option.bind_eq_bind, Option.bind_some, hfinal, Option.pure_def]

/-- No access of an instruction leaves its line. -/
theorem createPacket_none {src dst : Word} {n : Nat} (hsize : n ∈ sizes)
    (hin : ¬ StaysInLine dst n) (bytes : Nat → BitVec 8) (flags : BitVec 32) :
    createPacket src dst (BitVec.ofNat 64 n) bytes flags = none := by
  obtain ⟨-, hle⟩ := size_le hsize
  have hlit : (BitVec.ofNat 64 n).toNat = n := Nat.mod_eq_of_lt (by omega)
  have hle' : BitVec.ofNat 64 n ≤ 64 := by
    rw [BitVec.le_def, hlit]
    exact hle.trans (by decide)
  rw [Option.eq_none_iff_forall_not_mem]
  intro pkt hpkt
  have hmask := (createPacket_cases hpkt).mask
  have hfits := (packetMask_isSome hle').1 (by rw [hmask]; rfl)
  rw [hlit] at hfits
  exact hin hfits

/-- An instruction that fails an assertion. -/
theorem step_none (hinsn : t.insn (simMemories isize dsize program) = some insn)
    (hex : t.core.execute insn = none) : t.step (simMemories isize dsize program) = none := by
  simp only [Seq.step, hinsn, hex, Option.bind_eq_bind, Option.bind_some, Option.bind_none]

variable {w : Rv64i.Width} {signed : Bool} {rd rs1 rs2 : BitVec 5} {imm : Word}

/-- A load reads the bytes that the architecture loads. -/
theorem step_load (hdlines : WholeLines dsize) (halign : packetAlign t.core.rcv = t.core.rcv)
    (hinsn : t.insn (simMemories isize dsize program) = some insn)
    (hdec : Rv64i.decode insn = some (.load w signed rd rs1 imm))
    (hin : StaysInLine (t.core.getReg rs1 + imm) w.bytes) :
    ∃ t', t.step (simMemories isize dsize program) = some (.OK, t') ∧ t'.mem = t.mem ∧
      t'.core.arch = (t.core.arch.write rd (extended w.bytes (!signed)
        (loadBytes (place dsize) t.mem (t.core.getReg rs1 + imm) w.bytes))).next := by
  obtain ⟨ld, hex, hload⟩ := Core.load_isSome hdec halign hin
  have haccess := Core.isAccess_created w.bytes_mem_sizes hload.pkt
  have hread : isSet ld.pkt PACKET_READ = true := by rw [isSet, hload.pkt.flags]; rfl
  have hflags : IsAccessFlags ld.pkt.flags := .inl hload.pkt.flags
  let line := lineOf dsize t.mem ld.pkt.dst
  let reply : Ldst := { ld with pkt := answer ld.pkt line }
  have hset : isSet reply.pkt PACKET_READ = true := ((answer_isAnswer hflags line).read).trans hread
  have hconv : packetConv w.bytes reply.pkt =
      some (loadBytes (place dsize) t.mem (t.core.getReg rs1 + imm) w.bytes) := by
    have hmask : reply.pkt.mask = ld.pkt.mask := rfl
    rw [Core.packetConv_lineWord w.bytes_mem_sizes hload.pkt hmask, ← lineWord_lineOf hdlines hin,
      ← hload.pkt.dst]
    rfl
  have haccess' : IsAccess w.bytes reply.pkt.mask := haccess
  have hfinal : Core.finalizeDls { t.core with pc := t.core.pc + 4 } reply = some
      (Core.setReg { t.core with pc := t.core.pc + 4 } rd (extended w.bytes (!signed)
        (loadBytes (place dsize) t.mem (t.core.getReg rs1 + imm) w.bytes))) := by
    rw [Core.finalizeDls, if_pos hset, Core.finalizeLd_eq_extended haccess' hconv]
    show some (Core.setReg _ ld.reg (extended w.bytes ld.u _)) = _
    rw [hload.reg, hload.u]
  have hstored : ((simMemories isize dsize program).apply t.mem ld.pkt).1 = t.mem :=
    SimpleMem.stored_read hload.pkt.flags
  obtain ⟨t', hstep, hmem, hcore⟩ := step_request hinsn hex hfinal
  refine ⟨t', hstep, hmem.trans hstored, ?_⟩
  rw [hcore, Core.arch_setReg, ← Rv64i.Arch.write_next]
  rfl

/-- A store writes the bytes that the architecture stores. -/
theorem step_store (hdlines : WholeLines dsize) (halign : packetAlign t.core.rcv = t.core.rcv)
    (hinsn : t.insn (simMemories isize dsize program) = some insn)
    (hdec : Rv64i.decode insn = some (.store w rs1 rs2 imm))
    (hin : StaysInLine (t.core.getReg rs1 + imm) w.bytes) :
    ∃ t', t.step (simMemories isize dsize program) = some (.OK, t') ∧
      t'.mem = storeBytes (place dsize) t.mem (t.core.getReg rs1 + imm) (t.core.getReg rs2)
        w.bytes ∧ t'.core.arch = t.core.arch.next := by
  obtain ⟨-, hle⟩ := size_le w.bytes_mem_sizes
  have hlit : (BitVec.ofNat 64 w.bytes).toNat = w.bytes := Nat.mod_eq_of_lt (by omega)
  have hle' : BitVec.ofNat 64 w.bytes ≤ 64 := by
    rw [BitVec.le_def, hlit]
    exact hle.trans (by decide)
  have hmask := (packetMask_isSome hle').2 (hlit.symm ▸ hin)
  obtain ⟨pkt, hpkt⟩ := createPacket_isSome halign hmask
    (fun i => (t.core.getReg rs2 >>> (8 * i)).truncate 8) PACKET_WRITE
  have hcreated := createPacket_created w.bytes_mem_sizes hpkt
  have hex : t.core.execute insn = some (.request ⟨pkt, .SENT, 0, false⟩) := by
    rw [Core.execute_store hdec, hpkt]
    rfl
  have hread : isSet (answer pkt (lineOf dsize t.mem pkt.dst)) PACKET_READ = false := by
    rw [(answer_isAnswer (.inr hcreated.flags) _).read, isSet, hcreated.flags]
    rfl
  have hfinal : Core.finalizeDls { t.core with pc := t.core.pc + 4 }
      ⟨answer pkt (lineOf dsize t.mem pkt.dst), .SENT, 0, false⟩ =
        some { t.core with pc := t.core.pc + 4 } := by
    rw [Core.finalizeDls, if_neg (by rw [hread]; exact Bool.false_ne_true)]
  obtain ⟨t', hstep, hmem, hcore⟩ := step_request hinsn hex hfinal
  refine ⟨t', hstep, hmem.trans ?_, ?_⟩
  · exact stored_storeBytes hdlines w.bytes_mem_sizes hin hcreated
  · rw [hcore]
    rfl

/-- An instruction that only writes a register. -/
theorem step_writeback (hm : Matches t h)
    (hinsn : t.insn (simMemories isize dsize program) = some insn) {v : Word}
    (hex : t.core.execute insn = some (t.core.writeback rd v)) :
    ∃ t', t.step (simMemories isize dsize program) = some (.OK, t') ∧
      Matches t' { h with arch := (h.arch.write rd v).next } := by
  obtain ⟨c', hc', harch⟩ := Core.writeback_arch (c := t.core) rd v
  rw [hc'] at hex
  exact (step_ret_iff hinsn hex).2 ⟨rfl, by rw [harch, hm.arch], hm.mem⟩

/-- An instruction of `decode` that makes no request. -/
theorem step_instr_iff (hm : Matches t h) {i : Instr} {a : Arch}
    (hinsn : t.insn (simMemories isize dsize program) = some insn)
    (hdec : Rv64i.decode insn = some i) (hexec : i.exec h.arch = some a) :
    (∃ t', t.step (simMemories isize dsize program) = some (.OK, t') ∧
      Matches t' { h with arch := a }) ↔ h.arch.core.Executes insn i := by
  have hsame : t.core.arch = h.arch.core.arch := by
    rw [hm.arch]
    show h.arch = (⟨h.arch.core.getReg, h.arch.pc⟩ : Arch)
    have hreg : h.arch.x = h.arch.core.getReg := by
      funext j
      rw [← hm.arch]
      show t.core.getReg j = if j = 0 then 0 else t.core.getReg j
      split
      case isTrue hj => rw [hj, Core.getReg_zero]
      case isFalse => rfl
    rw [← hreg]
  obtain ⟨r, c', hex⟩ := Core.execute_ret (c := t.core) hdec hexec
  rw [step_ret_iff hinsn hex, ← Core.executes_congr hsame, ← Core.follows_iff_executes hdec]
  simp only [Core.Follows, hex, hdec, Option.bind_some, hm.arch, hexec, Option.some.injEq,
    Core.Outcome.ret.injEq]
  constructor
  · rintro ⟨rfl, harch, -⟩
    exact ⟨c', ⟨rfl, rfl⟩, harch.symm⟩
  · rintro ⟨_, ⟨rfl, rfl⟩, harch⟩
    exact ⟨rfl, harch.symm, hm.mem⟩

/-- One instruction takes the interpreter to the state that it takes the hart to exactly when it
conforms. -/
theorem step_code_iff (hdlines : WholeLines dsize) (halign : packetAlign t.core.rcv = t.core.rcv)
    (hm : Matches t h) (hinsn : t.insn (simMemories isize dsize program) = some insn) {code : Code}
    (hdec : Rv64i.decodeCode insn = some code) (hexec : h.exec (place dsize) code = some h') :
    (∃ t', t.step (simMemories isize dsize program) = some (.OK, t') ∧ Matches t' h') ↔
      Conforms dsize h insn code := by
  have hreg : t.core.getReg = h.arch.x := congrArg Arch.x hm.arch
  have hpc : t.core.pc = h.arch.pc := congrArg Arch.pc hm.arch
  unfold Rv64i.decodeCode at hdec
  split at hdec
  case h_1 hop =>
    cases hdec
    cases hexec
    have hop' : (Insn.op insn).toNat = 0b0110111 := hop
    have hex : t.core.execute insn = some (t.core.writeback (Rv64i.rd insn) (Rv64i.immU insn)) := by
      simp only [Core.execute, hop', Core.lui, Insn.utypeImm_eq, Insn.rd_eq]
    exact iff_of_true (step_writeback hm hinsn hex) trivial
  case h_2 hop =>
    cases hdec
    cases hexec
    have hop' : (Insn.op insn).toNat = 0b0010111 := hop
    have hex : t.core.execute insn =
        some (t.core.writeback (Rv64i.rd insn) (h.arch.pc + Rv64i.immU insn)) := by
      simp only [Core.execute, hop', Core.auipc, Insn.utypeImm_eq, Insn.rd_eq, hpc]
    exact iff_of_true (step_writeback hm hinsn hex) trivial
  case h_3 =>
    obtain ⟨i, hi, rfl⟩ := Option.map_eq_some_iff.1 hdec
    have hregister : (i.exec h.arch).map (fun arch => ({ h with arch } : Hart Nat)) = some h' →
        ((∃ t', t.step (simMemories isize dsize program) = some (.OK, t') ∧ Matches t' h') ↔
          h.arch.core.Executes insn i) := by
      intro hmap
      obtain ⟨a, ha, rfl⟩ := Option.map_eq_some_iff.1 hmap
      exact step_instr_iff hm hinsn hi ha
    cases i with
    | load w signed rd rs1 imm =>
        cases hexec
        rw [Conforms, ← hreg, ← hm.mem]
        by_cases hin : StaysInLine (t.core.getReg rs1 + imm) w.bytes
        · obtain ⟨t', hstep, hmem, harch⟩ := step_load hdlines halign hinsn hi hin
          have hhigh (j : Nat) (hj : 8 * w.bytes ≤ j) : (loadBytes (place dsize) t.mem
              (t.core.getReg rs1 + imm) w.bytes).getLsbD j = false := by
            rw [← lineWord_lineOf hdlines hin]
            exact lineWord_high _ _ _ hj
          rw [and_iff_right hin, ← extended_iff w signed hhigh,
            ← Rv64i.Arch.write_inj (a := t.core.arch), ← Rv64i.Arch.next_inj, ← harch, hstep]
          constructor
          · rintro ⟨_, hsame, hm'⟩
            cases hsame
            rw [hm'.arch, hm.arch]
          · intro hsame
            exact ⟨t', rfl, by rw [hsame, hm.arch], hmem⟩
        · have hnone : t.core.execute insn = none := by
            rw [Core.execute_load hi, createPacket_none w.bytes_mem_sizes hin]
            rfl
          rw [step_none hinsn hnone]
          simp [hin]
    | store w rs1 rs2 imm =>
        cases hexec
        rw [Conforms, ← hreg]
        by_cases hin : StaysInLine (t.core.getReg rs1 + imm) w.bytes
        · obtain ⟨t', hstep, hmem, harch⟩ := step_store hdlines halign hinsn hi hin
          refine iff_of_true ⟨t', hstep, ?_, ?_⟩ hin
          · rw [harch, hm.arch]
          · rw [hmem, hm.mem]
        · have hnone : t.core.execute insn = none := by
            rw [Core.execute_store hi, createPacket_none w.bytes_mem_sizes hin]
            rfl
          rw [step_none hinsn hnone]
          simp [hin]
    | jal | jalr | branch | opImm | op | opImmW | miscMem =>
        exact hregister hexec

/-- The instruction at the program counter of a hart conforms, and is fetched within a line. -/
def ConformsAt (isize dsize : Word) (program : Nat → BitVec 8) (h : Hart Nat) : Prop :=
  StaysInLine h.arch.pc 4 ∧ ∀ code, Rv64i.decodeCode (wordAt isize program h.arch.pc) = some code →
    Conforms dsize h (wordAt isize program h.arch.pc) code

/-- A step of the hart is one of the interpreter exactly when its instruction conforms. -/
theorem step_iff (hilines : WholeLines isize) (hdlines : WholeLines dsize)
    (halign : packetAlign t.core.rcv = t.core.rcv) (hm : Matches t h)
    (hstep : h.step (place dsize) (wordAt isize program) = some h') :
    (∃ t', t.step (simMemories isize dsize program) = some (.OK, t') ∧ Matches t' h') ↔
      ConformsAt isize dsize program h := by
  have hpc : t.core.pc = h.arch.pc := congrArg Arch.pc hm.arch
  obtain ⟨code, hdec, hexec⟩ := Option.bind_eq_some_iff.1 hstep
  by_cases hin : StaysInLine h.arch.pc 4
  · have hinsn : t.insn (simMemories isize dsize program) =
        some (wordAt isize program h.arch.pc) := by
      rw [← hpc]
      exact insn_eq hilines halign (by rw [hpc]; exact hin)
    rw [step_code_iff hdlines halign hm hinsn hdec hexec, ConformsAt, and_iff_right hin]
    constructor
    · intro hconf code' hdec'
      obtain rfl := Option.some.inj (hdec.symm.trans hdec')
      exact hconf
    · exact fun hconf => hconf code hdec
  · have hnone : t.step (simMemories isize dsize program) = none := by
      rw [Seq.step, insn_none (by rw [hpc]; exact hin)]
      rfl
    rw [hnone]
    simp [ConformsAt, hin]

/-- The address of a core does not change. -/
theorem step_rcv {m : Memories (Nat → BitVec 8)} (hstep : t.step m = some (ret, t')) :
    t'.core.rcv = t.core.rcv := by
  obtain ⟨insn, -, hstep⟩ := Option.bind_eq_some_iff.1 hstep
  obtain ⟨o, ho, hstep⟩ := Option.bind_eq_some_iff.1 hstep
  have hsound := Core.execute_sound ho
  cases o with
  | ret r core =>
      cases hstep
      exact hsound
  | request ld =>
      obtain ⟨core, hfinal, hstep⟩ := Option.bind_eq_some_iff.1 hstep
      cases hstep
      exact (Core.finalizeDls_pc hfinal).1

/-- A run leaves the receive address alone. -/
theorem run_rcv {m : Memories (Nat → BitVec 8)} {start : Seq (Nat → BitVec 8)} {k : Nat}
    (hrun : start.run m k = some (ret, t)) : t.core.rcv = start.core.rcv := by
  induction k generalizing ret t with
  | zero =>
      cases hrun
      rfl
  | succ k ih =>
      obtain ⟨⟨r, u⟩, hk, hrun⟩ := Option.bind_eq_some_iff.1 hrun
      obtain ⟨_, -, hstep⟩ := Option.bind_eq_some_iff.1 hrun
      exact (step_rcv hstep).trans (ih hk)

end

/-! ## Whole programs -/

section

variable {isize dsize : Word} {program : Nat → BitVec 8} {start : Seq (Nat → BitVec 8)}
  {first : Hart Nat}

/-- As long as every instruction conforms, the interpreter goes through the states of the hart. -/
theorem seq_follows (hilines : WholeLines isize) (hdlines : WholeLines dsize)
    (halign : packetAlign start.core.rcv = start.core.rcv) (hm : Matches start first) {j : Nat}
    (hrun : (first.run (place dsize) (wordAt isize program) j).isSome)
    (hconf : ∀ i < j, ∀ h, first.run (place dsize) (wordAt isize program) i = some h →
      ConformsAt isize dsize program h) :
    ∃ t h, start.run (simMemories isize dsize program) j = some (.OK, t) ∧
      first.run (place dsize) (wordAt isize program) j = some h ∧ Matches t h := by
  induction j with
  | zero => exact ⟨start, first, rfl, rfl, hm⟩
  | succ j ih =>
      obtain ⟨h', hrun'⟩ := Option.isSome_iff_exists.1 hrun
      obtain ⟨h, hj, hstep⟩ := Option.bind_eq_some_iff.1 hrun'
      obtain ⟨t, _, ht, hj', hmatch⟩ := ih (by rw [hj]; rfl) fun i hi => hconf i (by omega)
      obtain rfl := Option.some.inj (hj.symm.trans hj')
      have halign' : packetAlign t.core.rcv = t.core.rcv := by rw [run_rcv ht, halign]
      obtain ⟨t', hstep', hmatch'⟩ :=
        (step_iff hilines hdlines halign' hmatch hstep).2 (hconf j (by omega) h hj)
      exact ⟨t', h', (Seq.run_succ ht).trans hstep', hrun', hmatch'⟩

/-- The interpreter of a core goes through the states of a hart exactly as long as every instruction
of the program conforms. -/
theorem seq_follows_iff (hilines : WholeLines isize) (hdlines : WholeLines dsize)
    (halign : packetAlign start.core.rcv = start.core.rcv) (hm : Matches start first) {n : Nat}
    (hrun : (first.run (place dsize) (wordAt isize program) n).isSome) :
    (∀ j ≤ n, ∃ t h, start.run (simMemories isize dsize program) j = some (.OK, t) ∧
        first.run (place dsize) (wordAt isize program) j = some h ∧ Matches t h) ↔
      ∀ j < n, ∀ h, first.run (place dsize) (wordAt isize program) j = some h →
        ConformsAt isize dsize program h := by
  constructor
  · intro hall j hj h hh
    obtain ⟨t, _, ht, hh', hmatch⟩ := hall j (by omega)
    obtain rfl := Option.some.inj (hh.symm.trans hh')
    obtain ⟨t', h', ht', hrun', hmatch'⟩ := hall (j + 1) (by omega)
    have hstep : h.step (place dsize) (wordAt isize program) = some h' := by
      obtain ⟨_, hh', hstep⟩ := Option.bind_eq_some_iff.1 hrun'
      obtain rfl := Option.some.inj (hh.symm.trans hh')
      exact hstep
    have halign' : packetAlign t.core.rcv = t.core.rcv := by rw [run_rcv ht, halign]
    exact (step_iff hilines hdlines halign' hmatch hstep).1
      ⟨t', (Seq.run_succ ht).symm.trans ht', hmatch'⟩
  · intro hconf j hj
    exact seq_follows hilines hdlines halign hm (Hart.run_isSome hrun hj)
      fun i hi => hconf i (by omega)

/-- The opcode of the instructions that stop a core, SYSTEM. -/
def IsSystem (insn : BitVec 32) : Prop := (Insn.op insn).toNat = 0b1110011

instance (insn : BitVec 32) : Decidable (IsSystem insn) := inferInstanceAs (Decidable (_ = _))

/-- A core stops at a SYSTEM instruction. -/
theorem step_system {t : Seq (Nat → BitVec 8)} {h : Hart Nat} (hilines : WholeLines isize)
    (halign : packetAlign t.core.rcv = t.core.rcv) (hm : Matches t h)
    (hin : StaysInLine h.arch.pc 4) (hsystem : IsSystem (wordAt isize program h.arch.pc)) :
    ∃ t', t.step (simMemories isize dsize program) = some (.DONE, t') ∧ t'.core = t.core ∧
      t'.mem = t.mem := by
  have hpc : t.core.pc = h.arch.pc := congrArg Arch.pc hm.arch
  have hop : (Insn.op (wordAt isize program h.arch.pc)).toNat = 0b1110011 := hsystem
  have hinsn : t.insn (simMemories isize dsize program) =
      some (wordAt isize program h.arch.pc) := by
    rw [← hpc]
    exact insn_eq hilines halign (by rw [hpc]; exact hin)
  have hex : t.core.execute (wordAt isize program h.arch.pc) = some (.ret .DONE t.core) := by
    simp only [Core.execute, hop]
  refine ⟨⟨t.core, t.mem, t.accepted,
    ⟨wordAt isize program h.arch.pc, t.core.regs, t.core.pc⟩ :: t.trace⟩, ?_, rfl, rfl⟩
  simp only [Seq.step, hinsn, hex, Option.bind_eq_bind, Option.bind_some, Option.pure_def]

/-- The address that a core can be created with is one of a line. -/
theorem create_aligned {C : Type} {rcv pc : Word} {regs : BitVec 5 → Word} {cpu : Cpu C}
    (hcreate : Cpu.create rcv pc regs = some cpu) : packetAlign rcv = rcv := by
  obtain ⟨pkt, hpkt, -⟩ := Option.bind_eq_some_iff.1 hcreate
  simp only [Core.fetch, createPacket, Option.bind_eq_bind, Option.bind_eq_some_iff,
    Option.guard_eq_some'] at hpkt
  obtain ⟨-, -, -, hbase, -⟩ := hpkt
  have hdvd := packetAlign_dvd hbase
  have hadd : (rcv + 64).toNat = (rcv.toNat + 64) % 2 ^ 64 := BitVec.toNat_add ..
  have halign := toNat_packetAlign rcv
  apply BitVec.eq_of_toNat_eq
  omega

namespace Machine

/-- A program of RV64I that a hart of the architecture runs for `n` instructions up to a SYSTEM
instruction, each of which conforms, is run by `root_run` to its end, in `n + 2` ticks: it returns
`OK`, and the registers, the program counter and the data are those of the hart. -/
theorem simpleRiscv64_program (hilines : WholeLines isize) (hdlines : WholeLines dsize)
    {rcv pc : Word} {regs : BitVec 5 → Word} {buf : Nat → BitVec 8} {rv64 : Cpu MemName}
    (hcreate : Cpu.create rcv pc regs = some rv64) {components : List Part}
    (hcore : components.count .rv64 = 1) (himem : .imem ∈ components) (hdmem : .dmem ∈ components)
    (period : Word) {n : Nat} {last : Hart Nat}
    (hrun : Hart.run (place dsize) (wordAt isize program)
      ⟨(⟨rcv, regs, pc⟩ : Core).arch, buf⟩ n = some last)
    (hconf : ∀ j < n, ∀ h, Hart.run (place dsize) (wordAt isize program)
      ⟨(⟨rcv, regs, pc⟩ : Core).arch, buf⟩ j = some h → ConformsAt isize dsize program h)
    (hin : StaysInLine last.arch.pc 4)
    (hsystem : IsSystem (wordAt isize program last.arch.pc)) :
    ∃ (log : List (TickRecord 0)) (l : RootLoop 0 Part (Option Machine)) (s : Machine),
      RootRun (clockOrAbort clock) (createdDomains (fun _ => period) fun _ => components)
        (some (init isize dsize program buf rv64)) log l ∧
      log.length = n + 2 ∧ l.ret ≠ .OK ∧ l.returned = .OK ∧ l.world = some s ∧
      s.rv64.toCore.arch = last.arch ∧ s.mems.dmem.buf = last.mem := by
  have halign := create_aligned hcreate
  have hm : Matches (.init ⟨rcv, regs, pc⟩ buf) ⟨(⟨rcv, regs, pc⟩ : Core).arch, buf⟩ := ⟨rfl, rfl⟩
  obtain ⟨t, h, ht, hrun', hmatch⟩ :=
    seq_follows hilines hdlines halign hm (by rw [hrun]; rfl) hconf
  obtain rfl := Option.some.inj (hrun.symm.trans hrun')
  have halign' : packetAlign t.core.rcv = t.core.rcv := by rw [run_rcv ht]; exact halign
  obtain ⟨t', hstep, hsame, hmem⟩ := step_system hilines halign' hmatch hin hsystem
  obtain ⟨before, after, rfl, hround⟩ := Round.of_count hcore himem hdmem
  have hinit : Inv hilines hdlines program rcv [] (init isize dsize program buf rv64)
      (.init ⟨rcv, regs, pc⟩ buf) := init_inv hcreate
  obtain ⟨s, hticks, hagrees, -⟩ :=
    hinit.ticks hround ((Seq.run_succ ht).trans hstep) (by simp)
  obtain ⟨log, l, hroot, hlen, hret, hworld, -⟩ := rootRun_ticks period hticks
  refine ⟨log, l, s, hroot, hlen, by simp [hret], by simp [RootLoop.returned, hret], hworld, ?_, ?_⟩
  · rw [hagrees.core (by simp), hsame, hmatch.arch]
  · rw [hagrees.buf, hmem, hmatch.mem]

end Machine

end

namespace Machine

/-! ## The program of the test -/

/-- `simple_sum` of `tests/simple_riscv64/sim.c`, the loop of `s.asm`, in a memory of zeros. -/
def simpleSum : Nat → BitVec 8 := fun i =>
  [0x13, 0x05, 0x00, 0x00, 0xb7, 0x45, 0x0f, 0x00, 0x93, 0x85, 0x05, 0x24, 0x13, 0x06, 0x00, 0x00,
    0x63, 0x08, 0xb5, 0x00, 0x33, 0x06, 0xa6, 0x00, 0x13, 0x05, 0x15, 0x00, 0x6f, 0xf0, 0x5f, 0xff,
    0x73, 0x00, 0x10, 0x00].getD i 0

/-- The instructions before the last one. -/
def sumCode : List Code :=
  [.instr (.opImm .add 10 0 0), .lui 11 0xf4000, .instr (.opImm .add 11 11 576),
    .instr (.opImm .add 12 0 0), .instr (.branch .eq 10 11 16), .instr (.op .add 12 12 10),
    .instr (.opImm .add 10 10 1), .instr (.jal 0 (-12))]

/-- What the words of the test program decode to. -/
theorem decode_simpleSum (i : Fin 8) :
    Rv64i.decodeCode (wordAt 4096 simpleSum (BitVec.ofNat 64 (4 * i))) = sumCode[i]? := by
  revert i
  decide +kernel

/-- They conform in every state. -/
theorem conforms_simpleSum (i : Fin 8) {code : Code} (hcode : sumCode[i]? = some code)
    (h : Hart Nat) :
    Conforms 4096 h (wordAt 4096 simpleSum (BitVec.ofNat 64 (4 * i))) code := by
  match i, hcode with
  | 0, rfl => exact .inr (.inr fun hf => by simp at hf)
  | 1, rfl => trivial
  | 2, rfl => exact .inr (.inr fun hf => by simp at hf)
  | 3, rfl => exact .inr (.inr fun hf => by simp at hf)
  | 4, rfl =>
      have hword : wordAt 4096 simpleSum 16 = 0x00b50863 := by decide +kernel
      intro _
      show (wordAt 4096 simpleSum 16).getLsbD 31 = (wordAt 4096 simpleSum 16).getLsbD 7
      rw [hword]
      rfl
  | 5, rfl => exact .inr fun hf => by simp at hf
  | 6, rfl => exact .inr (.inr fun hf => by simp at hf)
  | 7, rfl =>
      have hword : wordAt 4096 simpleSum 28 = 0xff5ff06f := by decide +kernel
      show (wordAt 4096 simpleSum 28).getLsbD 31 = (wordAt 4096 simpleSum 28).getLsbD 19
      rw [hword]
      rfl

/-- A hart at an instruction of the program, with the index, the top and the sum in its
registers. -/
structure SumAt (i : Fin 9) (index top sum : Word) (h : Hart Nat) : Prop where
  pc : h.arch.pc = BitVec.ofNat 64 (4 * i)
  index : h.arch.x 10#5 = index
  top : h.arch.x 11#5 = top
  sum : h.arch.x 12#5 = sum

/-- The hart that starts the program. -/
def sumStart : Hart Nat := ⟨(⟨4096, fun _ => 0, 0⟩ : Core).arch, fun _ => 0⟩

/-- After `n` instructions the hart is `h`, and every instruction was one of the program. -/
structure SumRun (n : Nat) (h : Hart Nat) : Prop where
  run : sumStart.run (place 4096) (wordAt 4096 simpleSum) n = some h
  within : ∀ j < n, ∀ h', sumStart.run (place 4096) (wordAt 4096 simpleSum) j = some h' →
    ∃ i : Fin 8, h'.arch.pc = BitVec.ofNat 64 (4 * i)

variable {index top sum : Word} {h : Hart Nat} {n : Nat}

/-- One instruction of the program. -/
theorem SumRun.succ (hrun : SumRun n h) (i : Fin 8) {j : Fin 9} {index' top' sum' : Word}
    (hat : SumAt i.castSucc index top sum h)
    (hstep : ∃ h', sumCode[i]?.bind (h.exec (place 4096)) = some h' ∧
      SumAt j index' top' sum' h') :
    ∃ h', SumRun (n + 1) h' ∧ SumAt j index' top' sum' h' := by
  obtain ⟨h', hstep, hat'⟩ := hstep
  have hpc : h.arch.pc = BitVec.ofNat 64 (4 * i) := hat.pc
  refine ⟨h', ⟨?_, fun j hj h₁ hj' => ?_⟩, hat'⟩
  · rw [Hart.run, hrun.run, Option.bind_some, Hart.step, hpc, decode_simpleSum, hstep]
  · rcases Nat.lt_succ_iff_lt_or_eq.1 hj with hlt | rfl
    · exact hrun.within j hlt h₁ hj'
    · obtain rfl := Option.some.inj (hrun.run.symm.trans hj')
      exact ⟨i, hpc⟩

/-- What instruction `i` does to the index, the top and the sum. -/
def SumStep (i : Fin 8) (j : Fin 9) (index top sum index' sum' : Word) : Prop :=
  ∀ h, SumAt i.castSucc index top sum h →
    ∃ h', sumCode[i]?.bind (h.exec (place 4096)) = some h' ∧ SumAt j index' top sum' h'

/-- The test of the loop goes on to its body. -/
theorem step_beq (hne : index ≠ top) : SumStep 4 5 index top sum index sum := by
  intro h hat
  refine ⟨_, rfl, ?_, ?_, ?_, ?_⟩ <;>
    simp [Rv64i.Arch.goto, Rv64i.Cond.holds, hat.pc, hat.index, hat.top, hat.sum, hne]

/-- The test of the loop leaves it at the top. -/
theorem step_done : SumStep 4 8 top top sum top sum := by
  intro h hat
  refine ⟨_, rfl, ?_, ?_, ?_, ?_⟩ <;>
    simp [Rv64i.Arch.goto, Rv64i.Cond.holds, hat.pc, hat.index, hat.top, hat.sum]

/-- The sum gets the index. -/
theorem step_add : SumStep 5 6 index top sum index (sum + index) := by
  intro h hat
  refine ⟨_, rfl, ?_, ?_, ?_, ?_⟩ <;>
    simp [Rv64i.Arch.next, Rv64i.Arch.goto, Rv64i.Arch.write, Rv64i.Alu.eval, hat.pc, hat.index,
      hat.top, hat.sum]

/-- The index goes up. -/
theorem step_addi : SumStep 6 7 index top sum (index + 1) sum := by
  intro h hat
  refine ⟨_, rfl, ?_, ?_, ?_, ?_⟩ <;>
    simp [Rv64i.Arch.next, Rv64i.Arch.goto, Rv64i.Arch.write, Rv64i.Alu.eval, hat.pc, hat.index,
      hat.top, hat.sum]

/-- The loop starts over. -/
theorem step_jal : SumStep 7 4 index top sum index sum := by
  intro h hat
  refine ⟨_, rfl, ?_, ?_, ?_, ?_⟩ <;>
    simp [Rv64i.Arch.goto, Rv64i.Arch.write, hat.pc, hat.index, hat.top, hat.sum]

/-- The four instructions of a pass. -/
theorem SumRun.pass (hrun : SumRun n h) (hat : SumAt 4 index top sum h) (hne : index ≠ top) :
    ∃ h', SumRun (n + 4) h' ∧ SumAt 4 (index + 1) top (sum + index) h' := by
  obtain ⟨h₁, r₁, a₁⟩ := hrun.succ 4 hat (step_beq hne h hat)
  obtain ⟨h₂, r₂, a₂⟩ := r₁.succ 5 a₁ (step_add h₁ a₁)
  obtain ⟨h₃, r₃, a₃⟩ := r₂.succ 6 a₂ (step_addi h₂ a₂)
  exact r₃.succ 7 a₃ (step_jal h₃ a₃)

/-- The start of the program and `i` passes. -/
theorem sumRun_loop {i : Nat} (hi : i ≤ 1000000) : ∃ h, SumRun (4 * i + 4) h ∧
    SumAt 4 (BitVec.ofNat 64 i) 1000000 (BitVec.ofNat 64 (i * (i - 1) / 2)) h := by
  induction i with
  | zero =>
      refine ⟨_, ⟨rfl, fun j hj h' hrun => ?_⟩, rfl, rfl, rfl, rfl⟩
      match j, hj with
      | 0, _ | 1, _ | 2, _ | 3, _ =>
          cases hrun
          first | exact ⟨0, rfl⟩ | exact ⟨1, rfl⟩ | exact ⟨2, rfl⟩ | exact ⟨3, rfl⟩
  | succ i ih =>
      obtain ⟨h, hrun, hat⟩ := ih (by omega)
      have hne : BitVec.ofNat 64 i ≠ 1000000 := by
        intro hsame
        have := congrArg BitVec.toNat hsame
        have htop : (1000000 : Word).toNat = 1000000 := rfl
        rw [BitVec.toNat_ofNat, htop] at this
        omega
      obtain ⟨h', hrun', hat'⟩ := hrun.pass hat hne
      refine ⟨h', hrun', ?_⟩
      have hindex : BitVec.ofNat 64 i + 1 = BitVec.ofNat 64 (i + 1) := (BitVec.ofNat_add i 1).symm
      have hsum : BitVec.ofNat 64 (i * (i - 1) / 2) + BitVec.ofNat 64 i =
          BitVec.ofNat 64 ((i + 1) * (i + 1 - 1) / 2) := by
        rw [← BitVec.ofNat_add]
        congr 1
        cases i with
        | zero => rfl
        | succ i =>
            simp only [Nat.add_sub_cancel]
            rw [show (i + 1 + 1) * (i + 1) = (i + 1) * i + (i + 1) * 2 by ring,
              Nat.add_mul_div_right _ _ (by decide)]
      rw [← hindex, ← hsum]
      exact hat'

/-- The program up to its last instruction. -/
theorem sumRun_end : ∃ h, SumRun 4000005 h ∧
    SumAt 8 1000000 1000000 (BitVec.ofNat 64 (1000000 * 999999 / 2)) h := by
  obtain ⟨h, hrun, hat⟩ := sumRun_loop (i := 1000000) (by omega)
  exact hrun.succ 4 hat (step_done h hat)

/-- Every instruction that the test program meets conforms. -/
theorem SumRun.conforms (hrun : SumRun n h) {j : Nat} (hj : j < n) {h' : Hart Nat}
    (hj' : sumStart.run (place 4096) (wordAt 4096 simpleSum) j = some h') :
    ConformsAt 4096 4096 simpleSum h' := by
  obtain ⟨i, hpc⟩ := hrun.within j hj h' hj'
  have hin : ∀ i : Fin 8, StaysInLine (BitVec.ofNat 64 (4 * i)) 4 := by decide
  refine ⟨hpc ▸ hin i, fun code hdec => ?_⟩
  rw [hpc] at hdec ⊢
  exact conforms_simpleSum i ((decode_simpleSum i).symm.trans hdec) h'

/-- The interpreter goes through the states of the program up to the one that stops it. -/
theorem seq_follows_iff_sum : ∃ t h,
    (Seq.init ⟨4096, fun _ => 0, 0⟩ fun _ => 0).run (simMemories 4096 4096 simpleSum) 4000005 =
      some (.OK, t) ∧
    sumStart.run (place 4096) (wordAt 4096 simpleSum) 4000005 = some h ∧ Matches t h := by
  obtain ⟨h, hrun, -⟩ := sumRun_end
  exact (seq_follows_iff (by decide) (by decide) (by decide) ⟨rfl, rfl⟩
    (by rw [hrun.run]; rfl)).2 (fun j hj h' hj' => hrun.conforms hj hj') _ (Nat.le_refl _)

/-- The simulation of the test returns `OK` after 4000007 ticks, with the sum of the numbers below a
million in `a2`. -/
theorem simpleRiscv64_program_sum : ∃ (rv64 : Cpu MemName) (log : List (TickRecord 0))
    (l : RootLoop 0 Part (Option Machine)) (s : Machine),
      Cpu.create 4096 0 (fun _ => 0) = some rv64 ∧
      RootRun (clockOrAbort clock)
        (createdDomains (fun _ => 1000000) fun _ => [.rv64, .imem, .dmem])
        (some (init 4096 4096 simpleSum (fun _ => 0) rv64)) log l ∧
      log.length = 4000007 ∧ l.returned = .OK ∧ l.world = some s ∧
      s.rv64.toCore.getReg 12 = 499999500000 := by
  obtain ⟨h, hrun, hat⟩ := sumRun_end
  have hpc : h.arch.pc = 32 := hat.pc
  have hcore : [Part.rv64, .imem, .dmem].count .rv64 = 1 := rfl
  obtain ⟨log, l, s, hroot, hlen, -, hret, hworld, harch, -⟩ := simpleRiscv64_program (by decide)
    (by decide) (show Cpu.create 4096 0 (fun _ => 0) = some _ from rfl) hcore (by simp) (by simp)
    1000000 hrun.run (fun j hj h' hj' => hrun.conforms hj hj') (by rw [hpc]; decide)
    (by rw [hpc]; decide +kernel)
  refine ⟨_, log, l, s, rfl, hroot, hlen, hret, hworld, ?_⟩
  have hreg : s.rv64.toCore.getReg = h.arch.x := congrArg Arch.x harch
  rw [hreg]
  exact hat.sum

end Machine

end Gran
