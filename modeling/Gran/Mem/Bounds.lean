import Gran.Mem.SimpleMem

/-!
# The bytes that the simple memory touches

`simple_mem_receive` takes an address modulo the size of the memory before it compares it with that
size, so its error reply is never sent, and the loops that copy a line run past the end of the
buffer when the line lies across it. `simpleMem_in_bounds` says for which masks and for which sizes
they stay inside.
-/

namespace Gran.SimpleMem

variable {C : Type}

/-- The indices into `buf` that `checked_copyto` reads or `checked_copyfrom` writes, where the line
starts at `offset`. -/
def touched (offset : Word) (pkt : Packet) : List Nat :=
  ((List.finRange 64).filter fun i : Fin 64 => pkt.mask.getLsbD i).map
    fun i : Fin 64 => offset.toNat + i.val

/-- The indices into `buf` that `simple_mem_receive` reads or writes. -/
def accesses (mem : SimpleMem C) (pkt : Packet) : List Nat :=
  let offset := pkt.dst % mem.size
  if mem.busy then []
  else if offset ≥ mem.size then []
  else if isSet pkt PACKET_READ then touched offset pkt
  else if isSet pkt PACKET_WRITE then touched offset pkt
  else []

/-- Every access is to the buffer, or the packet is answered with an error and the contents are what
they were. -/
def InBounds (mem : SimpleMem C) (sender : C) (pkt : Packet) : Prop :=
  (∀ a ∈ mem.accesses pkt, a < mem.size.toNat) ∨
    ∃ mem', mem.receive sender pkt = some (.OK, mem') ∧ isSet mem'.pkt PACKET_ERROR = true ∧
      mem'.buf = mem.buf

/-- A line that a request reads or writes. -/
structure LineRequest (pkt : Packet) : Prop where
  kind : isSet pkt PACKET_READ = true ∨ isSet pkt PACKET_WRITE = true
  aligned : packetAlign pkt.dst = pkt.dst

variable {mem : SimpleMem C} {sender : C} {pkt : Packet}

/-! ## What is touched -/

theorem forall_touched {size offset : Word} :
    (∀ a ∈ touched offset pkt, a < size.toNat) ↔ Fits size offset pkt := by
  simp only [touched, List.mem_map, List.mem_filter, List.mem_finRange, true_and,
    forall_exists_index, and_imp, forall_apply_eq_imp_iff₂, Fits]

/-- The loops stay inside of the buffer when the mask has no bit for a byte behind its end. -/
theorem fits_iff {size : Word} (hsize : size ≠ 0) (addr : Word) :
    Fits size (addr % size) pkt ↔
      pkt.mask.toNat < 2 ^ (size.toNat - addr.toNat % size.toNat) := by
  have hpos : 0 < size.toNat := Nat.pos_of_ne_zero fun h => hsize (BitVec.eq_of_toNat_eq h)
  have hlt := Nat.mod_lt addr.toNat hpos
  rw [BitVec.toNat_lt_iff, Fits, BitVec.toNat_umod]
  constructor
  · intro h i hi
    by_cases hi64 : i < 64
    · by_contra hbit
      have := h ⟨i, hi64⟩ (by simpa using hbit)
      simp only at this
      omega
    · exact BitVec.getLsbD_of_ge _ _ (by omega)
  · intro h i hbit
    by_contra hge
    rw [h i (by omega)] at hbit
    cases hbit

/-- A free memory touches the bytes of a request whatever its size. -/
theorem accesses_free (hsize : mem.size ≠ 0) (hbusy : mem.busy = false)
    (hkind : isSet pkt PACKET_READ = true ∨ isSet pkt PACKET_WRITE = true) :
    mem.accesses pkt = touched (pkt.dst % mem.size) pkt := by
  simp only [accesses, hbusy, Bool.false_eq_true, if_false, if_neg (offset_lt hsize pkt.dst)]
  rcases hkind with hread | hwrite
  · rw [if_pos hread]
  · rw [if_pos hwrite, ite_self]

/-- The model of `simple_mem_receive` aborts exactly where it would touch a byte behind the
buffer. -/
theorem receive_eq_none_iff (hsize : mem.size ≠ 0)
    (hkind : isSet pkt PACKET_READ = true ∨ isSet pkt PACKET_WRITE = true) :
    mem.receive sender pkt = none ↔ ∃ a ∈ mem.accesses pkt, mem.size.toNat ≤ a := by
  cases hbusy : mem.busy with
  | true => simp [receive, accesses, hbusy]
  | false =>
      have hfits : (∃ a ∈ mem.accesses pkt, mem.size.toNat ≤ a) ↔
          ¬ Fits mem.size (pkt.dst % mem.size) pkt := by
        rw [accesses_free hsize hbusy hkind, ← forall_touched]
        push Not
        rfl
      rw [hfits]
      constructor
      · intro h hfit
        rw [receive_accepts hbusy ⟨hsize, hkind, hfit⟩] at h
        cases h
      · intro h
        simp [receive, hbusy, offset_lt hsize, h]

/-! ## When the memory stays in its buffer -/

/-- A request that is answered was carried out in the buffer. -/
theorem inBounds_iff (hsize : mem.size ≠ 0)
    (hkind : isSet pkt PACKET_READ = true ∨ isSet pkt PACKET_WRITE = true) :
    mem.InBounds sender pkt ↔
      mem.busy = true ∨ pkt.mask.toNat < 2 ^ (mem.size.toNat - pkt.dst.toNat % mem.size.toNat) := by
  have haccesses : (∀ a ∈ mem.accesses pkt, a < mem.size.toNat) ↔
      mem.busy = true ∨ Fits mem.size (pkt.dst % mem.size) pkt := by
    cases hbusy : mem.busy with
    | true => simp [accesses, hbusy]
    | false =>
        rw [accesses_free hsize hbusy hkind, forall_touched]
        simp
  rw [← fits_iff hsize, ← haccesses]
  refine ⟨fun h => ?_, Or.inl⟩
  rcases h with h | ⟨mem', hreceive, -⟩
  · exact h
  · by_contra hout
    push Not at hout
    rw [(receive_eq_none_iff hsize hkind).2 hout] at hreceive
    cases hreceive

/-- The lines of a memory whose size is a multiple of a line lie inside of it, and of every other
size there is one that does not. -/
theorem forall_line_iff {size : Word} (hsize : size ≠ 0) :
    (∀ addr mask : Word, packetAlign addr = addr →
      mask.toNat < 2 ^ (size.toNat - addr.toNat % size.toNat)) ↔ 64 ∣ size.toNat := by
  have hpos : 0 < size.toNat := Nat.pos_of_ne_zero fun h => hsize (BitVec.eq_of_toNat_eq h)
  constructor
  · intro h
    -- the line that begins before the end of the memory and does not end there
    by_contra hdvd
    have hstart : size.toNat / 64 * 64 < size.toNat := by omega
    have haddr : (BitVec.ofNat 64 (size.toNat / 64 * 64)).toNat = size.toNat / 64 * 64 := by
      rw [BitVec.toNat_ofNat]
      exact Nat.mod_eq_of_lt (hstart.trans size.isLt)
    have halign : packetAlign (BitVec.ofNat 64 (size.toNat / 64 * 64)) =
        BitVec.ofNat 64 (size.toNat / 64 * 64) := by
      have hzero : BitVec.ofNat 64 (size.toNat / 64 * 64) &&& 63 = 0 := by
        apply BitVec.eq_of_toNat_eq
        rw [toNat_and_63, haddr]
        simp
      have hdiff := packetAlign_diff (BitVec.ofNat 64 (size.toNat / 64 * 64))
      rw [hzero] at hdiff
      bv_omega
    have hlt := h _ (BitVec.allOnes 64) halign
    rw [haddr, Nat.mod_eq_of_lt hstart, BitVec.toNat_allOnes] at hlt
    have hle : 2 ^ (size.toNat - size.toNat / 64 * 64) ≤ 2 ^ 63 :=
      Nat.pow_le_pow_right (by decide) (by omega)
    omega
  · intro hdvd addr mask halign
    have hline := packetAlign_dvd halign
    have hmod := Nat.mod_lt addr.toNat hpos
    have hdvd' : 64 ∣ size.toNat - addr.toNat % size.toNat :=
      Nat.dvd_sub hdvd ((Nat.dvd_mod_iff hdvd).2 hline)
    have hle : 64 ≤ size.toNat - addr.toNat % size.toNat :=
      Nat.le_of_dvd (by omega) hdvd'
    exact lt_of_lt_of_le mask.isLt (Nat.pow_le_pow_right (by decide) hle)

/-- The bytes the simple memory touches when it is presented a read or a write: they are bytes of
its buffer exactly if it is busy or the mask has no bit for a byte behind the end of the buffer,
counted from the address modulo the size. For all lines and masks that is so exactly if the size is
a multiple of a line. -/
theorem simpleMem_in_bounds (mem : SimpleMem C) (hsize : mem.size ≠ 0) (sender : C) :
    (∀ pkt, LineRequest pkt → (mem.InBounds sender pkt ↔ mem.busy = true ∨
      pkt.mask.toNat < 2 ^ (mem.size.toNat - pkt.dst.toNat % mem.size.toNat))) ∧
    (mem.busy = false →
      ((∀ pkt, LineRequest pkt → mem.InBounds sender pkt) ↔ 64 ∣ mem.size.toNat)) := by
  refine ⟨fun pkt hpkt => inBounds_iff hsize hpkt.kind, fun hbusy => ?_⟩
  rw [← forall_line_iff hsize]
  have hread : isSet { Packet.zero with flags := PACKET_READ } PACKET_READ = true := by decide
  constructor
  · intro h addr mask halign
    have hpkt : LineRequest { Packet.zero with dst := addr, mask, flags := PACKET_READ } :=
      ⟨Or.inl hread, halign⟩
    simpa [hbusy] using (inBounds_iff hsize hpkt.kind).1 (h _ hpkt)
  · intro h pkt hpkt
    exact (inBounds_iff hsize hpkt.kind).2 (Or.inr (h pkt.dst pkt.mask hpkt.aligned))

/-- The read of a whole line. -/
def fullLine (addr : Word) : Packet :=
  { Packet.zero with dst := addr, mask := -1, flags := PACKET_READ }

/-- `simpleMem_in_bounds` on a memory of two lines. -/
theorem simpleMem_in_bounds_two :
    (createSimpleMem 128 fun _ => 0 : SimpleMem Unit).InBounds () (fullLine 64) :=
  ((simpleMem_in_bounds (createSimpleMem 128 fun _ => 0 : SimpleMem Unit) (by decide) ()).2 rfl).2
    (by decide) (fullLine 64) ⟨by decide, by decide⟩

/-- The last line of a memory of 100000 bytes is read past the end of the buffer. -/
theorem simpleMem_past_end : LineRequest (fullLine 99968) ∧
    ¬ (createSimpleMem 100000 fun _ => 0 : SimpleMem Unit).InBounds () (fullLine 99968) := by
  refine ⟨⟨by decide, by decide⟩, fun h => ?_⟩
  rcases (inBounds_iff (by decide) (by decide)).1 h with hbusy | hmask
  · cases hbusy
  · exact absurd hmask (by decide)

end Gran.SimpleMem
