import Gran.Clock.OneDomain
import Gran.Codec
import Gran.Mem.SimpleMem

/-!
# A traffic generator on a memory

The simulation of `tests/simple_mem/no_bus.c`: the traffic generator of `traffic_gen.c` writes a
byte, reads it back, checks it and goes on to the next one. `trafficGen_schedule` says that its
assertions never fail, however the two components are clocked, and that it writes the bytes it says
and no others; `trafficGen_rootRun` that `root_run` ends after five ticks a byte and one more.
-/

namespace Gran

/-- `struct traffic_gen`, less the component it sends to. `stop` is `end`. -/
structure TrafficGen where
  pkt : Packet
  rcv : Word
  addr : Word
  stop : Word
  counter : Nat

/-- `create_traffic_gen`. -/
def createTrafficGen (start size : Word) : TrafficGen := ⟨.zero, 0, start, start + size, 0⟩

namespace TrafficGen

/-- `traffic_gen_receive`. -/
def receive (tg : TrafficGen) (pkt : Packet) : Stat × TrafficGen := (.OK, { tg with pkt })

/-- `traffic_gen_clock`; a failed assertion is `none`. -/
def clock {W : Type} (SEND : Packet → W → Option (Stat × W)) (tg : TrafficGen) (w : W) :
    Option (Stat × TrafficGen × W) :=
  if tg.addr = tg.stop then some (.DONE, tg, w)
  else match tg.counter with
    | 0 => do
        let pkt ← createPacket tg.rcv tg.addr 1 (fun _ => 13) PACKET_WRITE
        let (r, w) ← SEND pkt w
        guard (r = .OK)
        pure (.OK, { tg with pkt, counter := 1 }, w)
    | 1 => some (.OK, if isSet tg.pkt PACKET_DONE then { tg with counter := 2 } else tg, w)
    | 2 => do
        let pkt ← createPacket 0 tg.addr 1 (fun _ => 0) PACKET_READ
        let (r, w) ← SEND pkt w
        guard (r = .OK)
        pure (.OK, { tg with pkt, counter := 3 }, w)
    | 3 => some (.OK, if isSet tg.pkt PACKET_DONE then { tg with counter := 4 } else tg, w)
    | 4 => do
        let c ← packetConvu8 tg.pkt
        guard (c = 13)
        pure (.OK, { tg with counter := 0, addr := tg.addr + 1 }, w)
    | _ => some (.OK, tg, w)

end TrafficGen

/-! ## Accesses of one byte -/

/-- A request of the byte at an address. -/
structure IsByte (addr : Word) (flags : BitVec 32) (pkt : Packet) : Prop where
  dst : pkt.dst = packetAlign addr
  mask : MasksBytes (addr.toNat % 64) 1 pkt.mask
  flags : pkt.flags = flags

/-- The place of an address in its line. -/
def inLine (addr : Word) : Fin 64 := ⟨addr.toNat % 64, Nat.mod_lt _ (Nat.zero_lt_succ 63)⟩

theorem createPacket_byte (addr : Word) (bytes : Nat → BitVec 8) (flags : BitVec 32) :
    ∃ pkt, createPacket 0 addr 1 bytes flags = some pkt ∧ IsByte addr flags pkt ∧
      (isSet pkt PACKET_WRITE = true → pkt.data (inLine addr) = bytes 0) := by
  have hlt : addr.toNat % 64 < 64 := Nat.mod_lt _ (by omega)
  have hone : (1 : Word).toNat = 1 := rfl
  have hsrc : packetAlign (0 : Word) = 0 := rfl
  have hle : (1 : Word) ≤ 64 := BitVec.le_def.2 (by rw [hone]; exact Nat.one_le_ofNat)
  obtain ⟨pkt, hpkt, hdst, hmask, -⟩ := createPacket_eq hsrc hle (by omega) bytes flags
  have hcreated := createPacket_cases hpkt
  refine ⟨pkt, hpkt, ⟨hdst, hmask, hcreated.flags⟩, fun hwrite => ?_⟩
  have hdata := hcreated.data hwrite (inLine addr) (Nat.le_refl _) (by simp only [inLine]; omega)
  rw [hdata]
  simp [inLine]

namespace SimpleMem

variable {C : Type} {mem : SimpleMem C} {sender : C} {addr : Word} {pkt : Packet}
  {flags : BitVec 32}

/-- The line of an address inside of the memory begins where the address says. -/
theorem offset_eq (hin : addr.toNat < mem.size.toNat) (h : IsByte addr flags pkt) :
    (pkt.dst % mem.size).toNat + addr.toNat % 64 = addr.toNat := by
  have halign := toNat_packetAlign addr
  rw [h.dst, BitVec.toNat_umod, Nat.mod_eq_of_lt (by omega)]
  exact halign

theorem mask_byte (h : IsByte addr flags pkt) {i : Nat} (hi : i < 64) :
    pkt.mask.getLsbD i = decide (i = addr.toNat % 64) := by
  rw [h.mask i hi]
  exact decide_eq_decide.2 (by omega)

/-- A free memory takes a request of a byte that it has. -/
theorem receive_byte (hfree : mem.busy = false) (hin : addr.toNat < mem.size.toNat)
    (h : IsByte addr flags pkt) (hflags : flags = PACKET_READ ∨ flags = PACKET_WRITE) :
    mem.receive sender pkt = some (.OK, mem.taken sender pkt) := by
  refine receive_accepts hfree ⟨?_, ?_, fun i hi => ?_⟩
  · intro hzero
    rw [hzero] at hin
    exact absurd hin (Nat.not_lt_zero _)
  · obtain rfl | rfl := hflags
    · exact .inl (by rw [isSet, h.flags]; rfl)
    · exact .inr (by rw [isSet, h.flags]; rfl)
  · have hoffset := offset_eq hin h
    rw [mask_byte h i.isLt, decide_eq_true_iff] at hi
    omega

/-- Writing a byte changes that byte. -/
theorem stored_byte (hin : addr.toNat < mem.size.toNat) (h : IsByte addr PACKET_WRITE pkt) :
    mem.stored pkt = Function.update mem.buf addr.toNat (pkt.data (inLine addr)) := by
  have hoffset := offset_eq hin h
  have hread : isSet pkt PACKET_READ = false := by rw [isSet, h.flags]; rfl
  funext j
  simp only [stored, hread, Bool.false_eq_true, if_false, Function.update_apply, checkedCopyfrom]
  by_cases hj : j = addr.toNat
  · subst hj
    have hplace : addr.toNat - (pkt.dst % mem.size).toNat = addr.toNat % 64 := by omega
    have hlt : addr.toNat % 64 < 64 := Nat.mod_lt _ (by omega)
    rw [if_pos (by omega), if_pos rfl, dif_pos (by omega)]
    simp only [hplace, mask_byte h hlt, decide_true, if_true]
    rfl
  · rw [if_neg hj]
    split
    case isFalse => rfl
    case isTrue hle =>
      have hback : (pkt.dst % mem.size).toNat + (j - (pkt.dst % mem.size).toNat) = j := by omega
      split
      case isFalse => rw [hback]
      case isTrue hlt =>
        rw [mask_byte h hlt, decide_eq_false (by omega), hback]
        rfl

/-- The reply to a read of a byte is that byte. -/
theorem replyTo_byte (hin : addr.toNat < mem.size.toNat) (h : IsByte addr PACKET_READ pkt) :
    packetConvu8 (mem.replyTo pkt) = some (mem.buf addr.toNat) := by
  have hoffset := offset_eq hin h
  have hlt : addr.toNat % 64 < 64 := Nat.mod_lt _ (by omega)
  have hread : isSet pkt PACKET_READ = true := by rw [isSet, h.flags]; rfl
  have hmask : (mem.replyTo pkt).mask = pkt.mask := by
    simp only [replyTo, hread, if_true]
    rfl
  have hbyte : (mem.replyTo pkt).byte (addr.toNat % 64) = mem.buf addr.toNat := by
    rw [Packet.byte, dif_pos hlt]
    simp only [replyTo, hread, if_true, setFlags_data, response_data, checkedCopyto,
      mask_byte h hlt, decide_true, hoffset]
  rw [packetConvu8, packetConv, hmask, h.mask.ffsll (Nat.le_refl 1) hlt,
    if_neg (by omega), Nat.add_sub_cancel, Option.map_some]
  simp only [leWord, Nat.add_zero, Nat.mul_zero, BitVec.shiftLeft_zero, hbyte]
  simp

/-- A reply is marked as done. -/
theorem replyTo_done (mem : SimpleMem C) (pkt : Packet) :
    isSet (mem.replyTo pkt) PACKET_DONE = true := by
  have hset (flags : BitVec 32) : ((flags ||| PACKET_DONE) &&& PACKET_DONE != 0) = true := by
    have hbit : (flags ||| PACKET_DONE) &&& PACKET_DONE = PACKET_DONE := by
      ext i
      simp
      tauto
    rw [hbit]
    rfl
  exact hset _

end SimpleMem

/-! ## The simulation -/

/-- What `main` builds. -/
structure Stress where
  gen : TrafficGen
  mem : SimpleMem Unit

/-- The components of the simulation. -/
inductive StressPart where
  | gen | mem
deriving DecidableEq

namespace Stress

/-- The clock of a component. -/
def clock (p : StressPart) (s : Stress) : Option (Stat × Stress) :=
  match p with
  | .gen => do
      let (r, gen, mem) ← s.gen.clock (fun pkt mem => mem.receive () pkt) s.mem
      pure (r, ⟨gen, mem⟩)
  | .mem => do
      let (mem, gen) ← s.mem.clock (fun _ pkt gen => some (gen.receive pkt)) s.gen
      pure (.OK, ⟨gen, mem⟩)

/-- The simulation before its first clock. -/
def init (start size memSize : Word) (buf : Nat → BitVec 8) : Stress :=
  ⟨createTrafficGen start size, createSimpleMem memSize buf⟩

/-- A buffer with its first bytes from an address on written. -/
def written (buf : Nat → BitVec 8) (start n : Nat) : Nat → BitVec 8 := fun i =>
  if start ≤ i ∧ i < start + n then 13 else buf i

theorem written_zero (buf : Nat → BitVec 8) (start : Nat) : written buf start 0 = buf := by
  funext i
  rw [written, if_neg (by omega)]

theorem written_succ (buf : Nat → BitVec 8) (start n : Nat) :
    Function.update (written buf start n) (start + n) 13 = written buf start (n + 1) := by
  funext i
  simp only [Function.update_apply, written]
  by_cases hi : i = start + n
  · rw [if_pos hi, if_pos (by omega)]
  · rw [if_neg hi]
    by_cases hin : start ≤ i ∧ i < start + n
    · rw [if_pos hin, if_pos (by omega)]
    · rw [if_neg hin, if_neg (by omega)]

theorem written_last (buf : Nat → BitVec 8) (start n : Nat) :
    written buf start (n + 1) (start + n) = 13 := by
  rw [written, if_pos (by omega)]

/-- The generator is at byte `j`, and at step `c` of it: the memory is busy with its request, or
gave the answer, which for a read is the byte that was written. -/
structure Inv (start size memSize : Word) (buf : Nat → BitVec 8) (j c : Nat) (s : Stress) :
    Prop where
  addr : s.gen.addr.toNat = start.toNat + j
  stop : s.gen.stop.toNat = start.toNat + size.toNat
  rcv : s.gen.rcv = 0
  counter : s.gen.counter = c
  range : j < size.toNat ∧ c ≤ 4 ∨ j = size.toNat ∧ c = 0
  size : s.mem.size = memSize
  buf : s.mem.buf = written buf start.toNat (if c = 0 then j else j + 1)
  waits : s.mem.busy = true → (c = 1 ∨ c = 3) ∧ s.mem.send = some () ∧
    isSet s.mem.pkt PACKET_DONE = true ∧ isSet s.gen.pkt PACKET_DONE = false ∧
    (c = 3 → packetConvu8 s.mem.pkt = some 13)
  answered : s.mem.busy = false → (c = 1 ∨ c = 3 → isSet s.gen.pkt PACKET_DONE = true) ∧
    (c = 3 ∨ c = 4 → packetConvu8 s.gen.pkt = some 13)

variable {start size memSize : Word} {buf : Nat → BitVec 8} {j c k : Nat} {s : Stress}

/-- The memory is clocked. -/
theorem Inv.clock_mem (h : Inv start size memSize buf j c s) :
    ∃ s', clock .mem s = some (.OK, s') ∧ Inv start size memSize buf j c s' ∧
      s'.mem.busy = false := by
  cases hbusy : s.mem.busy with
  | false => exact ⟨s, by simp [clock, SimpleMem.clock, hbusy], h, hbusy⟩
  | true =>
      obtain ⟨hc, hsend, hdone, -, hread⟩ := h.waits hbusy
      refine ⟨⟨{ s.gen with pkt := s.mem.pkt }, { s.mem with busy := false }⟩, ?_,
        { h with
          waits := fun hbusy => by cases hbusy
          answered := fun _ => ⟨fun _ => hdone, fun hc' => hread (by omega)⟩ }, rfl⟩
      simp [clock, SimpleMem.clock, hbusy, hsend, TrafficGen.receive]

/-- The generator is clocked while the memory is busy. -/
theorem Inv.clock_waits (h : Inv start size memSize buf j c s) (hbusy : s.mem.busy = true) :
    clock .gen s = some (.OK, s) := by
  obtain ⟨hc, -, -, hpending, -⟩ := h.waits hbusy
  have hrange := h.range
  have hne : s.gen.addr ≠ s.gen.stop := by
    intro heq
    have haddr := h.addr
    rw [heq, h.stop] at haddr
    omega
  have hcounter := h.counter
  obtain rfl | rfl := hc <;>
    simp [clock, TrafficGen.clock, hne, hcounter, hpending]

/-- The generator is clocked after its last byte. -/
theorem Inv.clock_done (h : Inv start size memSize buf size.toNat c s) :
    clock .gen s = some (.DONE, s) := by
  have heq : s.gen.addr = s.gen.stop := BitVec.eq_of_toNat_eq (h.addr.trans h.stop.symm)
  simp [clock, TrafficGen.clock, heq]

/-- The generator has not come to its last byte. -/
theorem Inv.addr_ne (h : Inv start size memSize buf j c s) (hj : j < size.toNat) :
    s.gen.addr ≠ s.gen.stop := by
  intro heq
  have haddr := h.addr
  rw [heq, h.stop] at haddr
  omega

section

variable (hfits : start.toNat + size.toNat ≤ memSize.toNat)
include hfits

theorem Inv.addr_lt (h : Inv start size memSize buf j c s) (hj : j < size.toNat) :
    s.gen.addr.toNat < s.mem.size.toNat := by
  rw [h.addr, h.size]
  omega

/-- The generator writes its byte. -/
theorem Inv.clock_write (h : Inv start size memSize buf j 0 s) (hj : j < size.toNat)
    (hfree : s.mem.busy = false) :
    ∃ s', clock .gen s = some (.OK, s') ∧ Inv start size memSize buf j 1 s' := by
  have hin := h.addr_lt hfits hj
  obtain ⟨pkt, hcreate, hbyte, hdata⟩ :=
    createPacket_byte s.gen.addr (fun _ => 13) PACKET_WRITE
  have hwrite : isSet pkt PACKET_WRITE = true := by rw [isSet, hbyte.flags]; rfl
  have hpending : isSet pkt PACKET_DONE = false := by rw [isSet, hbyte.flags]; rfl
  have hreceive : s.mem.receive () pkt = some (.OK, s.mem.taken () pkt) :=
    SimpleMem.receive_byte hfree hin hbyte (.inr rfl)
  refine ⟨⟨{ s.gen with pkt, counter := 1 }, s.mem.taken () pkt⟩, ?_,
    { h with
      counter := rfl
      range := .inl ⟨hj, by omega⟩
      buf := ?_
      waits := fun _ => ⟨.inl rfl, rfl, SimpleMem.replyTo_done _ _, hpending, fun hc => by cases hc⟩
      answered := fun hbusy => by cases hbusy }⟩
  · simp only [clock, TrafficGen.clock, if_neg (h.addr_ne hj), h.counter, h.rcv, hcreate, hreceive,
      Option.bind_eq_bind, Option.bind_some, guard_true, Option.pure_def]
  · show s.mem.stored pkt = written buf start.toNat (j + 1)
    rw [SimpleMem.stored_byte hin hbyte, hdata hwrite, h.buf, h.addr]
    exact written_succ buf start.toNat j

/-- The generator reads its byte back. -/
theorem Inv.clock_read (h : Inv start size memSize buf j 2 s) (hj : j < size.toNat)
    (hfree : s.mem.busy = false) :
    ∃ s', clock .gen s = some (.OK, s') ∧ Inv start size memSize buf j 3 s' := by
  have hin := h.addr_lt hfits hj
  obtain ⟨pkt, hcreate, hbyte, -⟩ := createPacket_byte s.gen.addr (fun _ => 0) PACKET_READ
  have hread : isSet pkt PACKET_READ = true := by rw [isSet, hbyte.flags]; rfl
  have hpending : isSet pkt PACKET_DONE = false := by rw [isSet, hbyte.flags]; rfl
  have hreceive : s.mem.receive () pkt = some (.OK, s.mem.taken () pkt) :=
    SimpleMem.receive_byte hfree hin hbyte (.inl rfl)
  have hbuf : s.mem.buf = written buf start.toNat (j + 1) := h.buf
  refine ⟨⟨{ s.gen with pkt, counter := 3 }, s.mem.taken () pkt⟩, ?_,
    { h with
      counter := rfl
      range := .inl ⟨hj, by omega⟩
      buf := ?_
      waits := fun _ => ⟨.inr rfl, rfl, SimpleMem.replyTo_done _ _, hpending, fun _ => ?_⟩
      answered := fun hbusy => by cases hbusy }⟩
  · simp only [clock, TrafficGen.clock, if_neg (h.addr_ne hj), h.counter, hcreate, hreceive,
      Option.bind_eq_bind, Option.bind_some, guard_true, Option.pure_def]
  · show s.mem.stored pkt = written buf start.toNat (j + 1)
    rw [SimpleMem.stored, if_pos hread, hbuf]
  · show packetConvu8 (s.mem.replyTo pkt) = some 13
    rw [SimpleMem.replyTo_byte hin hbyte, hbuf, h.addr, written_last]

/-- The generator checks its byte, and goes on to the next one. -/
theorem Inv.clock_check (h : Inv start size memSize buf j 4 s) (hj : j < size.toNat)
    (hfree : s.mem.busy = false) :
    ∃ s', clock .gen s = some (.OK, s') ∧ Inv start size memSize buf (j + 1) 0 s' := by
  have hconv := (h.answered hfree).2 (.inr rfl)
  have haddr := h.addr
  have hlt := memSize.isLt
  refine ⟨⟨{ s.gen with counter := 0, addr := s.gen.addr + 1 }, s.mem⟩, ?_,
    { h with
      addr := ?_
      counter := rfl
      range := by omega
      waits := fun hbusy => by rw [hfree] at hbusy; cases hbusy
      answered := fun _ => ⟨fun hc => by omega, fun hc => by omega⟩ }⟩
  · simp [clock, TrafficGen.clock, h.addr_ne hj, h.counter, hconv, guard]
  · show (s.gen.addr + 1).toNat = start.toNat + (j + 1)
    rw [BitVec.toNat_add, haddr, show (1 : Word).toNat = 1 from rfl]
    omega

omit hfits in
/-- The generator has the answer to its request. -/
theorem Inv.clock_answered (h : Inv start size memSize buf j c s) (hc : c = 1 ∨ c = 3)
    (hj : j < size.toNat) (hfree : s.mem.busy = false) :
    ∃ s', clock .gen s = some (.OK, s') ∧ Inv start size memSize buf j (c + 1) s' := by
  have hdone := (h.answered hfree).1 hc
  have hread := (h.answered hfree).2
  have hbuf := h.buf
  have hcounter := h.counter
  refine ⟨⟨{ s.gen with counter := c + 1 }, s.mem⟩, ?_,
    { h with
      counter := rfl
      range := .inl ⟨hj, by omega⟩
      buf := by rwa [if_neg (by omega)] at hbuf ⊢
      waits := fun hbusy => by rw [hfree] at hbusy; cases hbusy
      answered := fun _ => ⟨fun hc' => by omega, fun hc' => hread (by omega)⟩ }⟩
  obtain rfl | rfl := hc <;>
    simp [clock, TrafficGen.clock, h.addr_ne hj, hcounter, hdone]

/-- The generator is clocked while the memory is free, and goes on. -/
theorem Inv.clock_goes (h : Inv start size memSize buf j c s) (hj : j < size.toNat)
    (hfree : s.mem.busy = false) :
    ∃ s' j' c', clock .gen s = some (.OK, s') ∧ Inv start size memSize buf j' c' s' ∧
      5 * j' + c' = 5 * j + c + 1 := by
  have hrange := h.range
  obtain rfl | hc | rfl | rfl : c = 0 ∨ (c = 1 ∨ c = 3) ∨ c = 2 ∨ c = 4 := by omega
  · obtain ⟨s', hclock, h'⟩ := h.clock_write hfits hj hfree
    exact ⟨s', _, _, hclock, h', rfl⟩
  · obtain ⟨s', hclock, h'⟩ := h.clock_answered hc hj hfree
    exact ⟨s', _, _, hclock, h', rfl⟩
  · obtain ⟨s', hclock, h'⟩ := h.clock_read hfits hj hfree
    exact ⟨s', _, _, hclock, h', rfl⟩
  · obtain ⟨s', hclock, h'⟩ := h.clock_check hfits hj hfree
    exact ⟨s', _, _, hclock, h', by omega⟩

end

theorem Inv.init (hfits : start.toNat + size.toNat ≤ memSize.toNat) :
    Inv start size memSize buf 0 0 (init start size memSize buf) where
  addr := rfl
  stop := by
    have hlt := memSize.isLt
    show (start + size).toNat = start.toNat + size.toNat
    rw [BitVec.toNat_add]
    omega
  rcv := rfl
  counter := rfl
  range := by omega
  size := rfl
  buf := (written_zero buf start.toNat).symm
  waits hbusy := by cases hbusy
  answered _ := ⟨fun hc => by omega, fun hc => by omega⟩

/-! ## Any schedule -/

/-- Components that are clocked one after the other. -/
theorem Inv.clockUntil (hfits : start.toNat + size.toNat ≤ memSize.toNat)
    (h : Inv start size memSize buf j c s) (schedule : List StressPart) :
    ∃ ret s' j' c', Gran.clockUntil clock schedule s = some (ret, s') ∧
      Inv start size memSize buf j' c' s' ∧ 5 * j' + c' ≤ 5 * j + c + schedule.count .gen ∧
      (ret = .OK ∨ ret = .DONE ∧ j' = size.toNat) := by
  induction schedule generalizing s j c with
  | nil => exact ⟨.OK, s, j, c, rfl, h, by simp, .inl rfl⟩
  | cons p schedule ih =>
      cases p with
      | mem =>
          obtain ⟨s₁, hclock, h₁, -⟩ := h.clock_mem
          obtain ⟨ret, s', j', c', hrun, h', hle, hend⟩ := ih h₁
          refine ⟨ret, s', j', c', by simp [Gran.clockUntil, hclock, hrun], h', ?_, hend⟩
          simpa using hle
      | gen =>
          rw [List.count_cons_self]
          have hrange := h.range
          by_cases hj : j < size.toNat
          · cases hbusy : s.mem.busy with
            | true =>
                have hclock := h.clock_waits hbusy
                obtain ⟨ret, s', j', c', hrun, h', hle, hend⟩ := ih h
                exact ⟨ret, s', j', c', by simp [Gran.clockUntil, hclock, hrun], h', by omega, hend⟩
            | false =>
                obtain ⟨s₁, j₁, c₁, hclock, h₁, hpos⟩ := h.clock_goes hfits hj hbusy
                obtain ⟨ret, s', j', c', hrun, h', hle, hend⟩ := ih h₁
                exact ⟨ret, s', j', c', by simp [Gran.clockUntil, hclock, hrun], h', by omega, hend⟩
          · obtain rfl : j = size.toNat := by omega
            exact ⟨.DONE, s, size.toNat, c, by simp [Gran.clockUntil, h.clock_done], h, by omega,
              .inr ⟨rfl, rfl⟩⟩

/-- However the generator and the memory are clocked, no assertion fails: after `j` bytes the memory
holds 13 in them, and at most in the next one, and is otherwise as it was, and the simulation ends
only after the last byte, with `DONE`. -/
theorem trafficGen_schedule (hfits : start.toNat + size.toNat ≤ memSize.toNat)
    (schedule : List StressPart) :
    ∃ ret s j n, Gran.clockUntil clock schedule (Stress.init start size memSize buf) =
        some (ret, s) ∧
      s.gen.addr.toNat = start.toNat + j ∧ s.mem.buf = written buf start.toNat n ∧
      j ≤ n ∧ n ≤ j + 1 ∧ n ≤ size.toNat ∧ 5 * j ≤ schedule.count .gen ∧
      (ret = .OK ∨ ret = .DONE ∧ j = size.toNat) := by
  have hinit : Inv start size memSize buf 0 0 (Stress.init start size memSize buf) := .init hfits
  obtain ⟨ret, s, j, c, hrun, h, hle, hend⟩ := hinit.clockUntil hfits schedule
  have hrange := h.range
  refine ⟨ret, s, j, if c = 0 then j else j + 1, hrun, h.addr, h.buf, ?_, ?_, ?_, by omega,
    hend⟩ <;>
    split <;> omega

/-- The generator is clocked far more often than the memory of the test. -/
theorem trafficGen_schedule_often : ∃ ret s j n,
    Gran.clockUntil clock [.gen, .gen, .gen, .mem, .gen, .gen, .gen, .mem, .gen, .gen, .gen]
      (Stress.init 0 100000 100000 fun _ => 0) = some (ret, s) ∧
    s.gen.addr.toNat = 0 + j ∧ s.mem.buf = written (fun _ => 0) 0 n ∧
    j ≤ n ∧ n ≤ j + 1 ∧ n ≤ 100000 ∧ 5 * j ≤ 9 ∧ (ret = .OK ∨ ret = .DONE ∧ j = 100000) :=
  trafficGen_schedule (by decide) _

/-! ## Ticks of a clock domain -/

/-- The memory is clocked, any number of times. -/
theorem Inv.clockAll (h : Inv start size memSize buf j c s) {ps : List StressPart}
    (hps : .gen ∉ ps) :
    ∃ s', Gran.clockAll clock ps s = some (List.replicate ps.length .OK, s') ∧
      Inv start size memSize buf j c s' ∧
      (ps ≠ [] ∨ s.mem.busy = false → s'.mem.busy = false) := by
  induction ps generalizing s with
  | nil => exact ⟨s, rfl, h, fun hfree => hfree.resolve_left (by simp)⟩
  | cons p ps ih =>
      cases p with
      | gen => simp at hps
      | mem =>
          obtain ⟨s₁, hclock, h₁, hfree⟩ := h.clock_mem
          obtain ⟨s₂, hall, h₂, hfree'⟩ := ih h₁ fun hin => hps (List.mem_cons_of_mem _ hin)
          exact ⟨s₂, clockAll_cons hclock hall, h₂, fun _ => hfree' (.inr hfree)⟩

section

variable {before after : List StressPart} (hbefore : .gen ∉ before) (hafter : .gen ∉ after)
  (hmem : before ≠ [] ∨ after ≠ [])
include hbefore hafter hmem

/-- A tick in which the generator goes on. The memory is free before it, unless it is clocked
before the generator only. -/
theorem Inv.tick (hfits : start.toNat + size.toNat ≤ memSize.toNat)
    (h : Inv start size memSize buf j c s) (hfree : after ≠ [] → s.mem.busy = false)
    (hj : j < size.toNat) :
    ∃ rs s' j' c', Gran.clockAll clock (before ++ .gen :: after) s = some (rs, s') ∧
      sticky .OK rs = .OK ∧ Inv start size memSize buf j' c' s' ∧ 5 * j' + c' = 5 * j + c + 1 ∧
      (after ≠ [] → s'.mem.busy = false) := by
  obtain ⟨s₁, hall₁, h₁, hfree₁⟩ := h.clockAll hbefore
  obtain ⟨s₂, j', c', hclock, h₂, hpos⟩ := h₁.clock_goes hfits hj (hfree₁ (hmem.imp_right hfree))
  obtain ⟨s₃, hall₃, h₃, hfree₃⟩ := h₂.clockAll hafter
  exact ⟨_, s₃, j', c', clockAll_append hall₁ (clockAll_cons hclock hall₃), sticky_one _ _ _, h₃,
    hpos, fun hne => hfree₃ (.inl hne)⟩

omit hmem in
/-- The tick after the last byte. -/
theorem Inv.last_tick (h : Inv start size memSize buf size.toNat c s) :
    ∃ rs s', Gran.clockAll clock (before ++ .gen :: after) s = some (rs, s') ∧
      sticky .OK rs = .DONE ∧ Inv start size memSize buf size.toNat c s' := by
  obtain ⟨s₁, hall₁, h₁, -⟩ := h.clockAll hbefore
  obtain ⟨s₂, hall₂, h₂, -⟩ := h₁.clockAll hafter
  exact ⟨_, s₂, clockAll_append hall₁ (clockAll_cons h₁.clock_done hall₂), sticky_one _ _ _, h₂⟩

/-- Every tick is a step of the generator, five for a byte. -/
theorem Inv.ticks (buf : Nat → BitVec 8) (hfits : start.toNat + size.toNat ≤ memSize.toNat)
    (hk : k ≤ 5 * size.toNat) :
    ∃ s j c, Gran.ticks clock (before ++ .gen :: after) (Stress.init start size memSize buf) k =
        some (.OK, s) ∧
      Inv start size memSize buf j c s ∧ 5 * j + c = k ∧ (after ≠ [] → s.mem.busy = false) := by
  induction k with
  | zero => exact ⟨_, 0, 0, rfl, .init hfits, rfl, fun _ => rfl⟩
  | succ k ih =>
      obtain ⟨s, j, c, hticks, h, hpos, hfree⟩ := ih (by omega)
      have hrange := h.range
      obtain ⟨rs, s', j', c', hall, hsticky, h', hpos', hfree'⟩ :=
        h.tick hbefore hafter hmem hfits hfree (by omega)
      refine ⟨s', j', c', ?_, h', by omega, hfree'⟩
      rw [Gran.ticks, hticks]
      simp [hall, hsticky]

end

/-- `root_run` on one clock domain that clocks the generator once in a tick, and the memory any
number of times and in any order around it, ends in the tick after five ticks a byte, and returns
`OK`: every byte was written, read back and found to be 13, and no other byte was changed. -/
theorem trafficGen_rootRun (hfits : start.toNat + size.toNat ≤ memSize.toNat)
    {components : List StressPart} (hgen : components.count .gen = 1) (hmem : .mem ∈ components)
    (period : Word) :
    ∃ (log : List (TickRecord 0)) (l : RootLoop 0 StressPart (Option Stress)) (s : Stress),
      RootRun (clockOrAbort clock) (createdDomains (fun _ => period) fun _ => components)
        (some (Stress.init start size memSize buf)) log l ∧
      log.length = 5 * size.toNat + 1 ∧ l.ret ≠ .OK ∧ l.returned = .OK ∧ l.world = some s ∧
      s.mem.buf = written buf start.toNat size.toNat := by
  obtain ⟨before, after, rfl, hbefore, hafter⟩ := split_of_count hgen
  have hsome : before ≠ [] ∨ after ≠ [] := by
    by_contra hnone
    rw [not_or, not_not, not_not] at hnone
    obtain ⟨rfl, rfl⟩ := hnone
    simp at hmem
  obtain ⟨s, j, c, hticks, h, hpos, -⟩ := Inv.ticks hbefore hafter hsome buf hfits
    (Nat.le_refl (5 * size.toNat))
  have hrange := h.range
  obtain ⟨rfl, rfl⟩ : j = size.toNat ∧ c = 0 := by omega
  obtain ⟨rs, s', hall, hsticky, h'⟩ := h.last_tick hbefore hafter
  have hlast : Gran.ticks clock (before ++ .gen :: after) (Stress.init start size memSize buf)
      (5 * size.toNat + 1) = some (.DONE, s') := by
    rw [Gran.ticks, hticks]
    simp [hall, hsticky]
  obtain ⟨log, l, hroot, hlen, hret, hworld, -⟩ := rootRun_ticks period hlast
  exact ⟨log, l, s', hroot, hlen, by simp [hret], by simp [RootLoop.returned, hret], hworld, h'.buf⟩

/-- The test ends after 500001 ticks. -/
theorem trafficGen_rootRun_test :
    ∃ (log : List (TickRecord 0)) (l : RootLoop 0 StressPart (Option Stress)) (s : Stress),
      RootRun (clockOrAbort clock) (createdDomains (fun _ => 1000000) fun _ => [.gen, .mem])
        (some (Stress.init 0 100000 100000 fun _ => 0)) log l ∧
      log.length = 500001 ∧ l.ret ≠ .OK ∧ l.returned = .OK ∧ l.world = some s ∧
      s.mem.buf = written (fun _ => 0) 0 100000 :=
  trafficGen_rootRun (by decide) (show [StressPart.gen, .mem].count .gen = 1 from rfl) (by simp) _

end Stress

end Gran
