import Gran.Foundations.Rv64i

/-!
# Harts with memory

A hart that runs a program out of one memory and keeps its data in another, as the architecture
prescribes. Addresses go to the places of the data memory by a function `place`, which need not be
injective, and instruction words come from a function of the program counter.
-/

namespace Gran.Rv64i

/-! ## Memory -/

section Memory

variable {A : Type} (place : BitVec 64 → A)

/-- The little-endian value of the bytes from an address on. -/
def loadBytes (mem : A → BitVec 8) (addr : BitVec 64) : Nat → BitVec 64
  | 0 => 0
  | n + 1 => loadBytes mem addr n |||
      (mem (place (addr + BitVec.ofNat 64 n))).zeroExtend 64 <<< (8 * n)

/-- The memory after the low bytes of a value were put at an address and behind it. -/
def storeBytes [DecidableEq A] (mem : A → BitVec 8) (addr v : BitVec 64) : Nat → A → BitVec 8
  | 0 => mem
  | n + 1 => Function.update (storeBytes mem addr v n) (place (addr + BitVec.ofNat 64 n))
      ((v >>> (8 * n)).truncate 8)

variable {place} [DecidableEq A] {mem : A → BitVec 8} {addr v : BitVec 64} {n : Nat}

/-- A store leaves the other places alone. -/
theorem storeBytes_of_ne {a : A} (h : ∀ i < n, a ≠ place (addr + BitVec.ofNat 64 i)) :
    storeBytes place mem addr v n a = mem a := by
  induction n with
  | zero => rfl
  | succ n ih =>
      rw [storeBytes, Function.update_of_ne (h n (Nat.lt_succ_self n))]
      exact ih fun i hi => h i (by omega)

/-- A store to places that differ puts each byte in its place. -/
theorem storeBytes_self
    (hinj : ∀ i < n, ∀ j < n, place (addr + BitVec.ofNat 64 i) = place (addr + BitVec.ofNat 64 j) →
      i = j) {i : Nat} (hi : i < n) :
    storeBytes place mem addr v n (place (addr + BitVec.ofNat 64 i)) =
      (v >>> (8 * i)).truncate 8 := by
  induction n with
  | zero => omega
  | succ n ih =>
      by_cases hlast : i = n
      · rw [hlast, storeBytes, Function.update_self]
      · have hne : place (addr + BitVec.ofNat 64 i) ≠ place (addr + BitVec.ofNat 64 n) :=
          fun h => hlast (hinj i hi n (Nat.lt_succ_self n) h)
        rw [storeBytes, Function.update_of_ne hne]
        exact ih (fun j hj k hk => hinj j (by omega) k (by omega)) (by omega)

end Memory

/-! ## Programs -/

/-- The instructions of programs: those of `decode`, and the two that put long constants into
registers. -/
inductive Code where
  | instr (i : Instr)
  | lui (rd : BitVec 5) (imm : BitVec 64)
  | auipc (rd : BitVec 5) (imm : BitVec 64)
deriving DecidableEq

/-- The immediate of U-type instructions. -/
def immU (i : BitVec 32) : BitVec 64 := (i.extractLsb' 12 20 ++ 0#12).signExtend 64

/-- The decoder of programs. -/
def decodeCode (i : BitVec 32) : Option Code :=
  match (i.extractLsb' 0 7).toNat with
  | 0b0110111 => some (.lui (rd i) (immU i))
  | 0b0010111 => some (.auipc (rd i) (immU i))
  | _ => (decode i).map .instr

/-- A hart with its data. -/
structure Hart (A : Type) where
  arch : Arch
  mem : A → BitVec 8

namespace Hart

variable {A : Type} [DecidableEq A] (place : BitVec 64 → A) (word : BitVec 64 → BitVec 32)

/-- What an instruction does. -/
def exec (h : Hart A) : Code → Option (Hart A)
  | .lui rd imm => some { h with arch := (h.arch.write rd imm).next }
  | .auipc rd imm => some { h with arch := (h.arch.write rd (h.arch.pc + imm)).next }
  | .instr (.load w signed rd rs1 imm) =>
      let v := loadBytes place h.mem (h.arch.x rs1 + imm) w.bytes
      some { h with arch := (h.arch.write rd (w.extend signed v)).next }
  | .instr (.store w rs1 rs2 imm) =>
      let mem := storeBytes place h.mem (h.arch.x rs1 + imm) (h.arch.x rs2) w.bytes
      some ⟨h.arch.next, mem⟩
  | .instr i => (i.exec h.arch).map fun arch => { h with arch }

/-- One instruction of the program. -/
def step (h : Hart A) : Option (Hart A) := (decodeCode (word h.arch.pc)).bind (h.exec place)

/-- The state after `n` instructions. -/
def run (h : Hart A) : Nat → Option (Hart A)
  | 0 => some h
  | n + 1 => (run h n).bind fun h => h.step place word

variable {place word} {h : Hart A} {n : Nat}

/-- The states before the last one of a run. -/
theorem run_isSome (hrun : (h.run place word n).isSome) {j : Nat} (hj : j ≤ n) :
    (h.run place word j).isSome := by
  induction n with
  | zero =>
      obtain rfl : j = 0 := by omega
      exact hrun
  | succ n ih =>
      rcases Nat.lt_succ_iff_lt_or_eq.1 (Nat.lt_succ_of_le hj) with hlt | rfl
      · obtain ⟨h', hrun'⟩ := Option.isSome_iff_exists.1 hrun
        obtain ⟨u, hn, -⟩ := Option.bind_eq_some_iff.1 hrun'
        exact ih (by rw [hn]; rfl) (by omega)
      · exact hrun

end Hart

end Gran.Rv64i
