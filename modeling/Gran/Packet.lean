import Mathlib.Data.Fintype.Pi
import Mathlib.Data.Fintype.Sets
import Mathlib.Logic.Function.Basic
import Gran.Foundations.MachineWords

/-!
# Packets

The packet format of `packet.h`: a source and a destination address, a byte mask over one
64-byte line, a timestamp, the line itself, and flags. `createPacket` builds a request from a
byte address and a size, and the `packetConv*` family reads a value back out of a reply. A failed
`assert`, an `abort` and a read past the line are `none`.
-/

namespace Gran

/-- A machine word of the simulated system and of the simulator. -/
abbrev Word := BitVec 64

/-- The 64 data bytes of a packet. -/
abbrev Line := Fin 64 → BitVec 8

/-- `PACKET_READ`. -/
def PACKET_READ : BitVec 32 := 1 <<< 0

/-- `PACKET_WRITE`. -/
def PACKET_WRITE : BitVec 32 := 1 <<< 1

/-- `PACKET_ERROR`. -/
def PACKET_ERROR : BitVec 32 := 1 <<< 3

/-- `PACKET_DONE`. -/
def PACKET_DONE : BitVec 32 := 1 <<< 4

/-- A packet. `src` and `dst` are the fields `from` and `to`, which are reserved words here. -/
structure Packet where
  src : Word
  dst : Word
  mask : Word
  timestamp : Word
  data : Line
  flags : BitVec 32
deriving DecidableEq

/-- The all-zero packet a register holds after `calloc`. -/
def Packet.zero : Packet := ⟨0, 0, 0, 0, fun _ => 0, 0⟩

/-- Swap source and destination. -/
def response (pkt : Packet) : Packet := { pkt with src := pkt.dst, dst := pkt.src }

/-- Set flags. -/
def setFlags (pkt : Packet) (flags : BitVec 32) : Packet :=
  { pkt with flags := pkt.flags ||| flags }

/-- Some of the given flags are set. -/
def isSet (pkt : Packet) (flags : BitVec 32) : Bool := pkt.flags &&& flags != 0

/-- The 64-byte line an address lies in. -/
def packetAlign (addr : Word) : Word := addr &&& ~~~63

/-- The byte mask of an access. The second `assert` refuses an access that leaves its line. -/
def packetMask (addr size : Word) : Option Word :=
  if size ≤ 64 then
    let mask : Word := if size = 64 then -1 else (1 <<< size.toNat) - 1
    let diff := addr - packetAlign addr
    if diff = 0 ∨ mask >>> (64 - diff.toNat) = 0 then some (mask <<< diff.toNat) else none
  else none

/-- `__builtin_ffsll`: one more than the index of the least significant set bit, or 0. -/
def ffsll (x : Word) : Nat :=
  match (List.range 64).find? x.getLsbD with
  | some i => i + 1
  | none => 0

/-- The access size a mask stands for. Other masks reach `abort`. -/
def packetConvsize (pkt : Packet) : Option Nat :=
  let start := ffsll pkt.mask
  if start = 0 then some 0 else
    match (pkt.mask >>> (start - 1) &&& 0xff).toNat with
    | 0x01 => some 1
    | 0x03 => some 2
    | 0x0f => some 4
    | 0xff => some 8
    | _ => none

/-- `packet_convto`: the address of the first masked byte. -/
def packetConvto (pkt : Packet) : Word :=
  let start := ffsll pkt.mask
  if start = 0 then pkt.dst else pkt.dst + BitVec.ofNat 64 (start - 1)

/-- The little-endian word of `size` bytes beginning at `bytes 0`, zero-extended. -/
def leWord (bytes : Nat → BitVec 8) : Nat → Word
  | 0 => 0
  | size + 1 => leWord bytes size ||| (bytes size).zeroExtend 64 <<< (8 * size)

/-- The byte at an offset into `data`, 0 past the end. -/
def Packet.byte (pkt : Packet) (i : Nat) : BitVec 8 :=
  if h : i < 64 then pkt.data ⟨i, h⟩ else 0

/-- The common body of `packet_conv{i,u}{8,16,32,64}`: `memcpy` of `size` bytes beginning at the
first masked byte. An empty mask fails the `assert`, and `none` also stands for reading past the
line. -/
def packetConv (size : Nat) (pkt : Packet) : Option Word :=
  let start := ffsll pkt.mask
  if start = 0 ∨ 64 < start - 1 + size then none
  else some (leWord (fun i => pkt.byte (start - 1 + i)) size)

/-- `packet_convi8` returns the `uint8_t` array element as an `int64_t`. -/
def packetConvi8 (pkt : Packet) : Option Word := packetConv 1 pkt

/-- `packet_convu8`. -/
def packetConvu8 (pkt : Packet) : Option (BitVec 8) := (packetConv 1 pkt).map (·.truncate 8)

/-- `packet_convi16`. -/
def packetConvi16 (pkt : Packet) : Option (BitVec 16) := (packetConv 2 pkt).map (·.truncate 16)

/-- `packet_convu16`. -/
def packetConvu16 (pkt : Packet) : Option (BitVec 16) := (packetConv 2 pkt).map (·.truncate 16)

/-- `packet_convi32`. -/
def packetConvi32 (pkt : Packet) : Option (BitVec 32) := (packetConv 4 pkt).map (·.truncate 32)

/-- `packet_convu32`. -/
def packetConvu32 (pkt : Packet) : Option (BitVec 32) := (packetConv 4 pkt).map (·.truncate 32)

/-- `packet_convu64`. -/
def packetConvu64 (pkt : Packet) : Option Word := packetConv 8 pkt

/-- Build a request. A `WRITE` carries `bytes` at its offset in the line; a `READ` carries no
data. -/
def createPacket (src dst size : Word) (bytes : Nat → BitVec 8) (flags : BitVec 32) :
    Option Packet := do
  guard (size ≤ 64)
  guard (packetAlign src = src)
  let aligned := packetAlign dst
  let mask ← packetMask dst size
  let diff := (dst - aligned).toNat
  let copied : Line := fun i =>
    if diff ≤ i ∧ i < diff + size.toNat then bytes (i - diff) else 0
  let pkt : Packet :=
    { src, dst := aligned, mask, timestamp := 0, data := fun _ => 0, flags }
  pure (if isSet pkt PACKET_WRITE then { pkt with data := copied } else pkt)

/-- Copy the masked bytes of a line into the packet. -/
def checkedCopyto (pkt : Packet) (data : Nat → BitVec 8) : Packet :=
  { pkt with data := fun i => if pkt.mask.getLsbD i then data i else pkt.data i }

/-- Copy the masked bytes of the packet over a line. -/
def checkedCopyfrom (pkt : Packet) (data : Nat → BitVec 8) : Nat → BitVec 8 :=
  fun i => if h : i < 64 then (if pkt.mask.getLsbD i then pkt.data ⟨i, h⟩ else data i) else data i

variable {pkt : Packet}

@[simp] theorem response_src : (response pkt).src = pkt.dst := rfl
@[simp] theorem response_dst : (response pkt).dst = pkt.src := rfl
@[simp] theorem response_mask : (response pkt).mask = pkt.mask := rfl
@[simp] theorem response_data : (response pkt).data = pkt.data := rfl
@[simp] theorem response_flags : (response pkt).flags = pkt.flags := rfl
@[simp] theorem setFlags_src (f : BitVec 32) : (setFlags pkt f).src = pkt.src := rfl
@[simp] theorem setFlags_dst (f : BitVec 32) : (setFlags pkt f).dst = pkt.dst := rfl
@[simp] theorem setFlags_mask (f : BitVec 32) : (setFlags pkt f).mask = pkt.mask := rfl
@[simp] theorem setFlags_data (f : BitVec 32) : (setFlags pkt f).data = pkt.data := rfl
@[simp] theorem setFlags_flags (f : BitVec 32) : (setFlags pkt f).flags = pkt.flags ||| f := rfl

/-! ## Alignment -/

/-- An aligned address is aligned. -/
theorem packetAlign_idem (addr : Word) : packetAlign (packetAlign addr) = packetAlign addr := by
  simp [packetAlign, BitVec.and_assoc]

/-- The offset of an address in its line. -/
theorem packetAlign_diff (addr : Word) : addr - packetAlign addr = addr &&& 63 := by
  have hsum : packetAlign addr + (addr &&& 63) = addr := BitVec.and_not_add_and addr 63
  rw [BitVec.sub_eq_iff_eq_add, BitVec.add_comm]
  exact hsum.symm

/-- The offset into a line. -/
theorem toNat_and_63 (addr : Word) : (addr &&& 63).toNat = addr.toNat % 64 := by
  rw [BitVec.toNat_and]
  exact Nat.and_two_pow_sub_one_eq_mod addr.toNat 6

/-- An aligned address is one of a line. -/
theorem packetAlign_dvd {addr : Word} (h : packetAlign addr = addr) : 64 ∣ addr.toNat := by
  have hdiff := packetAlign_diff addr
  rw [h, BitVec.sub_self] at hdiff
  apply Nat.dvd_of_mod_eq_zero
  rw [← toNat_and_63, ← hdiff]
  rfl

/-! ## Requests -/

/-- A packet that `create_packet` makes. -/
structure CreatedPacket (base addr size : Word) (bytes : Nat → BitVec 8) (access : BitVec 32)
    (pkt : Packet) : Prop where
  src : pkt.src = base
  dst : pkt.dst = packetAlign addr
  mask : packetMask addr size = some pkt.mask
  timestamp : pkt.timestamp = 0
  flags : pkt.flags = access
  data : isSet pkt PACKET_WRITE = true → ∀ i : Fin 64, addr.toNat % 64 ≤ i →
    i < addr.toNat % 64 + size.toNat → pkt.data i = bytes (i - addr.toNat % 64)

variable {base addr size : Word} {bytes : Nat → BitVec 8} {flags : BitVec 32}

/-- What `create_packet` makes when it returns. -/
theorem createPacket_cases (h : createPacket base addr size bytes flags = some pkt) :
    CreatedPacket base addr size bytes flags pkt := by
  have hdiff : (addr - packetAlign addr).toNat = addr.toNat % 64 := by
    rw [packetAlign_diff, toNat_and_63]
  obtain ⟨_, -, h⟩ := Option.bind_eq_some_iff.1 h
  obtain ⟨_, -, h⟩ := Option.bind_eq_some_iff.1 h
  obtain ⟨mask, hmask, h⟩ := Option.bind_eq_some_iff.1 h
  dsimp only at h
  rw [hdiff] at h
  cases h
  split
  case isTrue => exact ⟨rfl, rfl, hmask, rfl, rfl, fun _ i hle hlt => if_pos ⟨hle, hlt⟩⟩
  case isFalse hread => exact ⟨rfl, rfl, hmask, rfl, rfl, fun hwrite => absurd hwrite hread⟩

/-- `create_packet` returns if the base is aligned and the bytes are in one line. -/
theorem createPacket_isSome (hbase : packetAlign base = base)
    (hmask : (packetMask addr size).isSome = true) (bytes : Nat → BitVec 8) (flags : BitVec 32) :
    ∃ pkt, createPacket base addr size bytes flags = some pkt := by
  obtain ⟨mask, hmask⟩ := Option.isSome_iff_exists.1 hmask
  have hsize : size ≤ 64 := by
    unfold packetMask at hmask
    split at hmask
    · assumption
    · cases hmask
  simp only [createPacket, hsize, hbase, hmask, Option.bind_eq_bind, Option.bind_some]
  exact ⟨_, rfl⟩

/-! ## Little-endian words -/

/-- A word only depends on its bytes. -/
theorem leWord_congr {bytes bytes' : Nat → BitVec 8} {size : Nat}
    (h : ∀ i < size, bytes i = bytes' i) : leWord bytes size = leWord bytes' size := by
  induction size with
  | zero => rfl
  | succ size ih =>
      rw [leWord, leWord, ih fun i hi => h i (by omega), h size (by omega)]

/-- The bits of a word that is put together from bytes. -/
theorem getLsbD_leWord (bytes : Nat → BitVec 8) (size j : Nat) (hj : j < 64) :
    (leWord bytes size).getLsbD j = (decide (j < 8 * size) && (bytes (j / 8)).getLsbD (j % 8)) := by
  induction size with
  | zero => simp [leWord]
  | succ size ih =>
      rw [leWord, BitVec.getLsbD_or, ih, BitVec.getLsbD_shiftLeft, BitVec.getLsbD_setWidth]
      by_cases h : j < 8 * size
      · have h' : j < 8 * (size + 1) := by omega
        simp [h, h']
      · by_cases h' : j < 8 * (size + 1)
        · have hdiv : j / 8 = size := by omega
          have hmod : j - 8 * size = j % 8 := by omega
          have hlt : j % 8 < 64 := by omega
          simp [h, h', hj, hdiv, hmod, hlt]
        · have hge : 8 ≤ j - 8 * size := by omega
          simp [h, h', BitVec.getLsbD_of_ge (bytes size) (j - 8 * size) hge]

/-- The bits of a word that was put together from the bytes of another one. -/
theorem getLsbD_leWord_bytes (w : Word) (size j : Nat) (hj : j < 64) :
    (leWord (fun i => (w >>> (8 * i)).truncate 8) size).getLsbD j =
      (decide (j < 8 * size) && w.getLsbD j) := by
  have hindex : 8 * (j / 8) + j % 8 = j := Nat.div_add_mod j 8
  have hlt : j % 8 < 8 := Nat.mod_lt j (by decide)
  rw [getLsbD_leWord _ _ _ hj, BitVec.getLsbD_setWidth, BitVec.getLsbD_ushiftRight, hindex,
    decide_eq_true hlt, Bool.true_and]

/-- The eight bytes of a word make up that word. -/
theorem leWord_bytes (w : Word) : leWord (fun i => (w >>> (8 * i)).truncate 8) 8 = w := by
  apply BitVec.eq_of_getLsbD_eq
  intro j hj
  rw [getLsbD_leWord_bytes w 8 j hj]
  simp [hj]

end Gran
