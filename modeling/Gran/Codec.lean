import Gran.Packet
import Mathlib.Data.Nat.Digits.Defs

/-!
# The packet codec

`packet_mask` turns an address and a size into the mask of the bytes in their line, `create_packet`
puts the data under it, and the conversions read the address, the size and the data back.
`packet_codec` says that they fit together for every access that stays in its line, and that
`packet_mask` refuses every other one.
-/

namespace Gran

variable {addr size : Word} {mask : Word} {pkt : Packet}

/-! ## Masks -/

/-- The mask of the bytes from `diff` up to `diff + size` in a line. -/
def MasksBytes (diff size : Nat) (mask : Word) : Prop :=
  ∀ i < 64, mask.getLsbD i = decide (diff ≤ i ∧ i < diff + size)

section Low

variable {low : Word} {diff n : Nat} (hlow : ∀ i < 64, low.getLsbD i = decide (i < n))
include hlow

/-- No byte of an access is shifted out of the line exactly if the access stays in it. -/
theorem shift_fits (hn : n ≤ 64) (hdiff : diff < 64) :
    (diff = 0 ∨ low >>> (64 - diff) = 0) ↔ diff + n ≤ 64 := by
  constructor
  · rintro (h | h)
    · omega
    · -- the first bit that is shifted out of the line
      by_contra hover
      have hbit := congrArg (·.getLsbD 0) h
      simp only [BitVec.getLsbD_ushiftRight, Nat.add_zero] at hbit
      rw [hlow _ (by omega)] at hbit
      have hge : ¬ 64 - diff < n := of_decide_eq_false hbit
      omega
  · intro h
    rw [or_iff_not_imp_left]
    intro hne
    apply BitVec.eq_of_getLsbD_eq
    intro i hi
    have hclear : (0 : Word).getLsbD i = false := BitVec.getLsbD_zero
    rw [BitVec.getLsbD_ushiftRight, hclear]
    by_cases hi64 : 64 - diff + i < 64
    · rw [hlow _ hi64]
      exact decide_eq_false (by omega)
    · exact BitVec.getLsbD_of_ge _ _ (by omega)

theorem masksBytes_shiftLeft : MasksBytes diff n (low <<< diff) := by
  intro i hi
  rw [BitVec.getLsbD_shiftLeft, decide_eq_true hi, Bool.true_and]
  by_cases hbelow : i < diff
  · rw [decide_eq_true hbelow, decide_eq_false (by omega)]
    rfl
  · rw [decide_eq_false hbelow, hlow _ (by omega), Bool.not_false, Bool.true_and]
    exact decide_eq_decide.2 (by omega)

end Low

/-- `packet_mask` passes its assertions exactly on accesses that stay in their line, and has the
bits of their bytes. -/
theorem packetMask_eq (addr : Word) (hsize : size ≤ 64) :
    if addr.toNat % 64 + size.toNat ≤ 64
    then ∃ mask, packetMask addr size = some mask ∧ MasksBytes (addr.toNat % 64) size.toNat mask
    else packetMask addr size = none := by
  have hle : size.toNat ≤ 64 := BitVec.le_def.1 hsize
  have hlt : addr.toNat % 64 < 64 := Nat.mod_lt _ (by decide)
  have hdiff : (addr - packetAlign addr).toNat = addr.toNat % 64 := by
    rw [packetAlign_diff, toNat_and_63]
  have hzero : addr - packetAlign addr = 0 ↔ addr.toNat % 64 = 0 := by
    rw [← hdiff, ← BitVec.toNat_inj]
    rfl
  generalize hmask : (if size = 64 then (-1 : Word) else (1 <<< size.toNat) - 1) = low
  have hlow : ∀ i < 64, low.getLsbD i = decide (i < size.toNat) := by
    intro i hi
    rw [← hmask]
    split
    case isTrue h =>
      rw [h]
      exact BitVec.getLsbD_allOnes
    case isFalse h =>
      have hne : size.toNat ≠ 64 := fun he => h (BitVec.eq_of_toNat_eq he)
      exact BitVec.getLsbD_one_shiftLeft_sub_one (by omega) i
  simp only [packetMask, hsize, if_true, hmask, hdiff, hzero, shift_fits hlow hle hlt]
  split
  case isTrue => exact ⟨_, rfl, masksBytes_shiftLeft hlow⟩
  case isFalse => rfl

theorem packetMask_isSome (hsize : size ≤ 64) :
    (packetMask addr size).isSome = true ↔ addr.toNat % 64 + size.toNat ≤ 64 := by
  have h := packetMask_eq addr hsize
  split at h
  case isTrue hline =>
    obtain ⟨mask, hmask, -⟩ := h
    simp [hmask, hline]
  case isFalse hline => simp [h, hline]

/-- The bytes of a nonempty access lie in one line exactly if the last one is in the line of the
first. -/
theorem inLine_iff (hpos : 1 ≤ size.toNat) :
    (∀ i < size.toNat, (addr.toNat + i) / 64 = addr.toNat / 64) ↔
      addr.toNat % 64 + size.toNat ≤ 64 := by
  constructor
  · intro h
    have hlast := h (size.toNat - 1) (by omega)
    omega
  · intro h i hi
    omega

/-! ## Reading a mask -/

/-- The first set bit of a word. -/
theorem ffsll_eq {x : Word} {i : Nat} (hi : i < 64) (hbit : x.getLsbD i = true)
    (hbelow : ∀ j < i, x.getLsbD j = false) : ffsll x = i + 1 := by
  have hfind : (List.range 64).find? x.getLsbD = some i :=
    List.find?_range_eq_some.2 ⟨hbit, List.mem_range.2 hi, fun j hj => by simp [hbelow j hj]⟩
  rw [ffsll, hfind]

namespace MasksBytes

variable {diff n : Nat}

theorem ffsll (h : MasksBytes diff n mask) (hpos : 1 ≤ n) (hfit : diff + n ≤ 64) :
    ffsll mask = diff + 1 := by
  refine ffsll_eq (by omega) ?_ fun j hj => ?_
  · rw [h diff (by omega)]
    exact decide_eq_true (by omega)
  · rw [h j (by omega)]
    exact decide_eq_false (by omega)

/-- The bits that `packet_convsize` looks at. -/
theorem pattern (h : MasksBytes diff n mask) (hn : n ≤ 8) (hfit : diff + n ≤ 64) :
    (mask >>> diff &&& 0xff).toNat = 2 ^ n - 1 := by
  apply Nat.eq_of_testBit_eq
  intro i
  have hbyte : (0xff : Word) = (1#64 <<< 8) - 1#64 := by decide
  rw [BitVec.testBit_toNat, BitVec.getLsbD_and, BitVec.getLsbD_ushiftRight, hbyte,
    BitVec.getLsbD_one_shiftLeft_sub_one (by decide), Nat.testBit_two_pow_sub_one]
  by_cases hi : i < 8
  · by_cases hin : diff + i < 64
    · rw [h _ hin, decide_eq_true hi, Bool.and_true]
      exact decide_eq_decide.2 (by omega)
    · rw [BitVec.getLsbD_of_ge _ _ (by omega), Bool.false_and]
      exact (decide_eq_false (by omega)).symm
  · rw [decide_eq_false hi, Bool.and_false]
    exact (decide_eq_false (by omega)).symm

end MasksBytes

/-- `packet_convsize` returns the sizes that the conversions have. -/
theorem packetConvsize_eq {diff n : Nat} (hn : n ∈ [1, 2, 4, 8]) (h : MasksBytes diff n pkt.mask)
    (hfit : diff + n ≤ 64) : packetConvsize pkt = some n := by
  have hpos : 1 ≤ n ∧ n ≤ 8 := by
    simp only [List.mem_cons, List.not_mem_nil, or_false] at hn
    omega
  simp only [packetConvsize, h.ffsll hpos.1 hfit, Nat.add_sub_cancel, Nat.add_eq_zero_iff,
    one_ne_zero, and_false, if_false, h.pattern hpos.2 hfit]
  simp only [List.mem_cons, List.not_mem_nil, or_false] at hn
  rcases hn with rfl | rfl | rfl | rfl <;> rfl

/-! ## Little-endian values -/

/-- The number whose digits to the base 256 are `n` bytes, the lowest first. -/
def littleEndian (bytes : Nat → BitVec 8) (n : Nat) : Nat :=
  Nat.ofDigits 256 ((List.range n).map fun i => (bytes i).toNat)

variable {bytes : Nat → BitVec 8} {n : Nat}

theorem littleEndian_lt (bytes : Nat → BitVec 8) (n : Nat) :
    littleEndian bytes n < 2 ^ (8 * n) := by
  have hdigits : ∀ x ∈ (List.range n).map fun i => (bytes i).toNat, x < 256 := by
    intro x hx
    obtain ⟨i, -, rfl⟩ := List.mem_map.1 hx
    exact (bytes i).isLt
  have hlt := Nat.ofDigits_lt_base_pow_length (by decide) hdigits
  rw [List.length_map, List.length_range] at hlt
  rw [Nat.pow_mul]
  exact hlt

theorem littleEndian_succ (bytes : Nat → BitVec 8) (n : Nat) :
    littleEndian bytes (n + 1) = littleEndian bytes n + 256 ^ n * (bytes n).toNat := by
  simp [littleEndian, List.range_succ, Nat.ofDigits_append]

/-- The word that the conversions put together. -/
theorem toNat_leWord (bytes : Nat → BitVec 8) (hn : n ≤ 8) :
    (leWord bytes n).toNat = littleEndian bytes n := by
  induction n with
  | zero => rfl
  | succ n ih =>
      have hpow : 256 ^ n = 2 ^ (8 * n) := (Nat.pow_mul 2 8 n).symm
      have hlow : littleEndian bytes n < 2 ^ (8 * n) := littleEndian_lt bytes n
      have hbyte : ((bytes n).zeroExtend 64 <<< (8 * n)).toNat = 2 ^ (8 * n) * (bytes n).toNat := by
        have hlt : 2 ^ (8 * n) * (bytes n).toNat < 2 ^ (8 * n) * 2 ^ 8 :=
          Nat.mul_lt_mul_of_pos_left (bytes n).isLt (Nat.two_pow_pos _)
        have hle : 2 ^ (8 * n) * 2 ^ 8 ≤ 2 ^ 64 := by
          rw [← Nat.pow_add]
          exact Nat.pow_le_pow_right (by decide) (by omega)
        rw [BitVec.toNat_shiftLeft, BitVec.toNat_setWidth,
          Nat.mod_eq_of_lt ((bytes n).isLt.trans (by decide)), Nat.shiftLeft_eq, Nat.mul_comm]
        exact Nat.mod_eq_of_lt (hlt.trans_le hle)
      rw [leWord, BitVec.toNat_or, ih (by omega), hbyte, littleEndian_succ, hpow, Nat.or_comm,
        ← Nat.two_pow_add_eq_or_of_lt hlow, Nat.add_comm]

/-- The unsigned conversion of a width in bytes: `packet_convu8`, `packet_convu16`,
`packet_convu32` and `packet_convu64`. -/
def packetConvu (width : Nat) (pkt : Packet) : Option Nat :=
  match width with
  | 1 => (packetConvu8 pkt).map BitVec.toNat
  | 2 => (packetConvu16 pkt).map BitVec.toNat
  | 4 => (packetConvu32 pkt).map BitVec.toNat
  | 8 => (packetConvu64 pkt).map BitVec.toNat
  | _ => none

/-- An unsigned conversion returns the value of the masked bytes. -/
theorem packetConvu_eq {diff : Nat} (hn : n ∈ [1, 2, 4, 8]) (h : MasksBytes diff n pkt.mask)
    (hfit : diff + n ≤ 64) (hdata : ∀ i < n, pkt.byte (diff + i) = bytes i) :
    packetConvu n pkt = some (littleEndian bytes n) := by
  have hpos : 1 ≤ n ∧ n ≤ 8 := by
    simp only [List.mem_cons, List.not_mem_nil, or_false] at hn
    omega
  have hconv : packetConv n pkt = some (leWord bytes n) := by
    rw [packetConv, h.ffsll hpos.1 hfit, if_neg (by omega), Nat.add_sub_cancel]
    exact congrArg some (leWord_congr hdata)
  have hvalue := toNat_leWord bytes hpos.2
  have hlt := littleEndian_lt bytes n
  simp only [List.mem_cons, List.not_mem_nil, or_false] at hn
  rcases hn with rfl | rfl | rfl | rfl <;>
    simp only [packetConvu, packetConvu8, packetConvu16, packetConvu32, packetConvu64, hconv,
      Option.map_some, BitVec.toNat_setWidth, hvalue]
  all_goals exact congrArg some (Nat.mod_eq_of_lt hlt)

/-! ## Requests -/

/-- The bytes of an access lie in one line. -/
def InLine (addr size : Word) : Prop :=
  ∀ i < size.toNat, (addr.toNat + i) / 64 = addr.toNat / 64

instance (addr size : Word) : Decidable (InLine addr size) :=
  inferInstanceAs (Decidable (∀ i < _, _))

/-- A request of an access that stays in its line. -/
theorem createPacket_eq {src : Word} (hsrc : packetAlign src = src) (hsize : size ≤ 64)
    (hline : addr.toNat % 64 + size.toNat ≤ 64) (bytes : Nat → BitVec 8) (flags : BitVec 32) :
    ∃ pkt, createPacket src addr size bytes flags = some pkt ∧ pkt.dst = packetAlign addr ∧
      MasksBytes (addr.toNat % 64) size.toNat pkt.mask ∧
      (isSet { Packet.zero with flags } PACKET_WRITE = true → ∀ i : Fin 64,
        addr.toNat % 64 ≤ i → i < addr.toNat % 64 + size.toNat →
          pkt.data i = bytes (i - addr.toNat % 64)) := by
  have hmask := packetMask_eq addr hsize
  rw [if_pos hline] at hmask
  obtain ⟨mask, hmask, hbits⟩ := hmask
  obtain ⟨pkt, hpkt⟩ := createPacket_isSome hsrc (by rw [hmask]; rfl) bytes flags
  have hcreated := createPacket_cases hpkt
  obtain rfl : mask = pkt.mask := Option.some.inj (hmask.symm.trans hcreated.mask)
  refine ⟨pkt, hpkt, hcreated.dst, hbits, fun hwrite => hcreated.data ?_⟩
  rwa [isSet, hcreated.flags]

/-- A write and a read of one access fit together: the mask of the write has the bits of the bytes
accessed, its first byte is at the address, copying it over a line replaces those bytes by the data,
and of a read that is filled from that line the conversions return the size and the data. -/
structure RoundTrips (addr size : Word) (bytes : Nat → BitVec 8) (write read : Packet) : Prop where
  mask : ∀ i < 64, write.mask.getLsbD i = true ↔
    addr.toNat ≤ (packetAlign addr).toNat + i ∧
      (packetAlign addr).toNat + i < addr.toNat + size.toNat
  convto : packetConvto write = addr
  copyfrom : ∀ (line : Nat → BitVec 8) (i : Nat), checkedCopyfrom write line i =
    if addr.toNat ≤ (packetAlign addr).toNat + i ∧
      (packetAlign addr).toNat + i < addr.toNat + size.toNat
    then bytes ((packetAlign addr).toNat + i - addr.toNat) else line i
  conv : size.toNat ∈ [1, 2, 4, 8] → ∀ line : Nat → BitVec 8,
    packetConvsize (checkedCopyto read (checkedCopyfrom write line)) = some size.toNat ∧
    packetConvu size.toNat (checkedCopyto read (checkedCopyfrom write line)) =
      some (littleEndian bytes size.toNat)

/-- The line of an address begins at a multiple of its width. -/
theorem toNat_packetAlign (addr : Word) :
    (packetAlign addr).toNat + addr.toNat % 64 = addr.toNat := by
  have hle : (addr &&& 63).toNat ≤ addr.toNat := by
    rw [toNat_and_63]
    exact Nat.mod_le _ _
  have halign : packetAlign addr = addr - (addr &&& 63) := by
    rw [← packetAlign_diff]
    bv_omega
  rw [halign, BitVec.toNat_sub_of_le (BitVec.le_def.2 hle), toNat_and_63]
  exact Nat.sub_add_cancel (Nat.mod_le _ _)

theorem roundTrips {write read : Packet} (hpos : 1 ≤ size.toNat)
    (hline : addr.toNat % 64 + size.toNat ≤ 64) (hdst : write.dst = packetAlign addr)
    (hwrite : MasksBytes (addr.toNat % 64) size.toNat write.mask)
    (hdata : ∀ i : Fin 64, addr.toNat % 64 ≤ i → i < addr.toNat % 64 + size.toNat →
      write.data i = bytes (i - addr.toNat % 64))
    (hread : MasksBytes (addr.toNat % 64) size.toNat read.mask) :
    RoundTrips addr size bytes write read := by
  have halign := toNat_packetAlign addr
  have hcopy : ∀ (line : Nat → BitVec 8) (i : Nat), checkedCopyfrom write line i =
      if addr.toNat % 64 ≤ i ∧ i < addr.toNat % 64 + size.toNat
      then bytes (i - addr.toNat % 64) else line i := by
    intro line i
    unfold checkedCopyfrom
    by_cases hi : i < 64
    · rw [dif_pos hi, hwrite i hi]
      by_cases hin : addr.toNat % 64 ≤ i ∧ i < addr.toNat % 64 + size.toNat
      · rw [if_pos (decide_eq_true hin), if_pos hin]
        exact hdata ⟨i, hi⟩ hin.1 hin.2
      · rw [if_neg hin, decide_eq_false hin]
        rfl
    · rw [dif_neg hi, if_neg (by omega)]
  refine ⟨fun i hi => ?_, ?_, fun line i => ?_, fun hn line => ⟨?_, ?_⟩⟩
  · rw [hwrite i hi, decide_eq_true_iff]
    omega
  · rw [packetConvto, hwrite.ffsll hpos hline, if_neg (Nat.succ_ne_zero _), hdst,
      Nat.add_sub_cancel]
    apply BitVec.eq_of_toNat_eq
    bv_omega
  · rw [hcopy]
    by_cases hin : addr.toNat % 64 ≤ i ∧ i < addr.toNat % 64 + size.toNat
    · rw [if_pos hin, if_pos (by omega)]
      congr 1
      omega
    · rw [if_neg hin, if_neg (by omega)]
  · exact packetConvsize_eq hn hread hline
  · refine packetConvu_eq hn hread hline fun i hi => ?_
    have hin : addr.toNat % 64 + i < 64 := by omega
    have hbit : read.mask.getLsbD (addr.toNat % 64 + i) = true := by
      rw [hread _ hin]
      exact decide_eq_true (by omega)
    rw [Packet.byte, dif_pos hin]
    simp only [checkedCopyto, hbit, if_true, hcopy, Nat.add_sub_cancel_left]
    exact if_pos (by omega)

/-- The packet codec round-trips: for every access of one to 64 bytes, `packet_mask` passes its
assertions exactly if the bytes lie in one line, and then the packets that `create_packet` makes to
write and to read them fit together, whatever the source addresses and the data. -/
theorem packet_codec (src src' addr size : Word) (hsrc : packetAlign src = src)
    (hsrc' : packetAlign src' = src') (hpos : 1 ≤ size) (hsize : size ≤ 64)
    (bytes unused : Nat → BitVec 8) :
    ((packetMask addr size).isSome = true ↔ InLine addr size) ∧
    (InLine addr size → ∃ write read, createPacket src addr size bytes PACKET_WRITE = some write ∧
      createPacket src' addr size unused PACKET_READ = some read ∧
      RoundTrips addr size bytes write read) := by
  have hpos' : 1 ≤ size.toNat := BitVec.le_def.1 hpos
  have hline : InLine addr size ↔ addr.toNat % 64 + size.toNat ≤ 64 := inLine_iff hpos'
  rw [hline]
  refine ⟨packetMask_isSome hsize, fun hfit => ?_⟩
  obtain ⟨write, hcreate, hdst, hmask, hdata⟩ :=
    createPacket_eq hsrc hsize hfit bytes PACKET_WRITE
  obtain ⟨read, hcreate', -, hmask', -⟩ := createPacket_eq hsrc' hsize hfit unused PACKET_READ
  exact ⟨write, read, hcreate, hcreate',
    roundTrips hpos' hfit hdst hmask (hdata (by decide)) hmask'⟩

/-- `packet_codec` on four bytes in the middle of a line. -/
theorem packet_codec_middle : ∃ write read,
    createPacket 0 0x1030 4 (fun i => BitVec.ofNat 8 i) PACKET_WRITE = some write ∧
    createPacket 64 0x1030 4 (fun _ => 0) PACKET_READ = some read ∧
    RoundTrips 0x1030 4 (fun i => BitVec.ofNat 8 i) write read :=
  (packet_codec 0 64 0x1030 4 (by decide) (by decide) (by decide) (by decide)
    (fun i => BitVec.ofNat 8 i) fun _ => 0).2 (by decide)

end Gran
