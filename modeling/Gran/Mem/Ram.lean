import Gran.Foundations.Server
import Gran.Mem.SimpleMem

/-!
# The simple memory is a RAM

Runs of `simple_mem.c` between requesters that take a reply or answer `EBUSY`, with the requests it
accepted and the replies it delivered. `simpleMem_ram` says that the replies are those of a server
whose state is the history of the accepted requests: a read gives each masked byte what the last
accepted write put at its address, modulo the size of the memory.
-/

namespace Gran

namespace Ram

/-! ## The abstract memory -/

/-- What a request writes at an address: the byte of its mask that lies there. -/
def written (size : Nat) (pkt : Packet) : Write Nat (BitVec 8) := fun a =>
  if isSet pkt PACKET_READ then none
  else ((List.finRange 64).find? fun i : Fin 64 =>
    pkt.mask.getLsbD i && (pkt.dst.toNat + i) % size == a % size).map pkt.data

/-- The byte at an address after the requests of a history. -/
def lastByte (size : Nat) (buf : Nat → BitVec 8) (history : List Packet) (a : Nat) : BitVec 8 :=
  lastWrite (fun a => buf (a % size)) (history.map (written size)) a

/-- The reply to a request, where `byte` is what the memory holds. -/
def reply (byte : Nat → BitVec 8) (pkt : Packet) : Packet :=
  { setFlags (response pkt) PACKET_DONE with
    data := fun i =>
      if isSet pkt PACKET_READ && pkt.mask.getLsbD i then byte (pkt.dst.toNat + i)
      else pkt.data i }

/-- The memory as a server whose state is its history. -/
def apply (size : Nat) (buf : Nat → BitVec 8) (history : List Packet) (pkt : Packet) :
    List Packet × Packet :=
  (history ++ [pkt], reply (lastByte size buf history) pkt)

variable {C : Type} {size : Nat} {buf : Nat → BitVec 8} {history : List Packet} {pkt : Packet}
  {a : Nat}

theorem lastByte_concat :
    lastByte size buf (history ++ [pkt]) a =
      (written size pkt a).getD (lastByte size buf history a) := by
  rw [lastByte, List.map_append]
  exact lastWrite_concat ..

/-- Addresses are taken modulo the size. -/
theorem lastByte_mod : lastByte size buf history (a % size) = lastByte size buf history a := by
  have hwritten (pkt : Packet) : written size pkt (a % size) = written size pkt a := by
    simp only [written, Nat.mod_mod]
  simp only [lastByte, lastWrite, ← List.map_reverse, List.findSome?_map, Function.comp_def,
    hwritten, Nat.mod_mod]

/-- The history is the list of the accepted requests. -/
theorem final_apply (accepted : List (C × Packet)) (history : List Packet) :
    Server.final (apply size buf) history accepted = history ++ accepted.map Prod.snd := by
  induction accepted generalizing history with
  | nil => exact (List.append_nil _).symm
  | cons req accepted ih =>
      rw [Server.final, ih, apply, List.append_assoc]
      rfl

end Ram

/-! ## Runs -/

namespace SimpleMem

variable {C : Type}

/-- What happens at a memory: a component presents a request, or the memory is clocked, where the
component it replies to may answer `EBUSY`. -/
inductive Event (C : Type) where
  | receive (sender : C) (pkt : Packet)
  | clock (busy : Bool)

/-- A memory with the requests it accepted and the replies it delivered, both oldest first. -/
structure Traffic (C : Type) where
  mem : SimpleMem C
  accepted : List (C × Packet)
  delivered : List (C × Packet)

namespace Traffic

/-- A component takes a reply or answers `EBUSY`. -/
def deliver (busy : Bool) (receiver : C) (pkt : Packet) (delivered : List (C × Packet)) :
    Option (Stat × List (C × Packet)) :=
  some (if busy then (.EBUSY, delivered) else (.OK, delivered ++ [(receiver, pkt)]))

/-- One step of a run. -/
def step (t : Traffic C) : Event C → Option (Traffic C)
  | .receive sender pkt => do
      let (r, mem) ← t.mem.receive sender pkt
      pure { t with mem, accepted := if r = .OK then t.accepted ++ [(sender, pkt)] else t.accepted }
  | .clock busy => do
      let (mem, delivered) ← t.mem.clock (deliver busy) t.delivered
      pure { t with mem, delivered }

/-- A run. -/
def run (t : Traffic C) : List (Event C) → Option (Traffic C)
  | [] => some t
  | e :: es => do run (← t.step e) es

/-- The reply that the memory holds, with the component it is for. -/
def pending (t : Traffic C) : Option (C × Packet) :=
  if t.mem.busy then t.mem.send.map fun receiver => (receiver, t.mem.pkt) else none

end Traffic

variable {t : Traffic C}

theorem Traffic.pending_free (hbusy : t.mem.busy = false) : t.pending = none := by
  rw [pending, hbusy]
  rfl

theorem Traffic.pending_busy (hbusy : t.mem.busy = true) {receiver : C}
    (hsend : t.mem.send = some receiver) : t.pending = some (receiver, t.mem.pkt) := by
  rw [pending, hbusy, hsend]
  rfl

/-- A memory with no reply does nothing when it is clocked. -/
theorem Traffic.step_clock_free (hbusy : t.mem.busy = false) (busy : Bool) :
    t.step (.clock busy) = some t := by
  simp only [step, SimpleMem.clock, hbusy]
  rfl

/-- A reply that is refused is kept, and one that is taken is gone. -/
theorem Traffic.step_clock_busy (hbusy : t.mem.busy = true) {receiver : C}
    (hsend : t.mem.send = some receiver) (busy : Bool) :
    t.step (.clock busy) = some (if busy then t else { t with
      mem := { t.mem with busy := false }
      delivered := t.delivered ++ [(receiver, t.mem.pkt)] }) := by
  cases busy <;> simp [step, SimpleMem.clock, hbusy, hsend, deliver]

/-- A request of a run: a read or a write of a line. -/
def Event.Valid : Event C → Prop
  | .receive _ pkt =>
      packetAlign pkt.dst = pkt.dst ∧
        (isSet pkt PACKET_READ = true ∨ isSet pkt PACKET_WRITE = true)
  | .clock _ => True

/-! ## One request -/

variable {mem : SimpleMem C} {sender : C} {pkt : Packet} {size : Nat} {buf : Nat → BitVec 8}
  {history : List Packet}

/-- A line lies inside of a memory of whole lines. -/
theorem lines_fit (hpos : 0 < size) (hdvd : 64 ∣ size) {addr : Word}
    (halign : packetAlign addr = addr) : addr.toNat % size + 64 ≤ size := by
  have hlt := Nat.mod_lt addr.toNat hpos
  have hmod : 64 ∣ addr.toNat % size := (Nat.dvd_mod_iff hdvd).2 (packetAlign_dvd halign)
  omega

/-- The bytes of a line are at consecutive places. -/
theorem line_mod (hpos : 0 < size) (hdvd : 64 ∣ size) {addr : Word}
    (halign : packetAlign addr = addr) (i : Fin 64) :
    (addr.toNat + i) % size = addr.toNat % size + i := by
  have hfit := lines_fit hpos hdvd halign
  rw [Nat.add_mod, Nat.mod_eq_of_lt (show (i : Nat) < size by omega), Nat.mod_eq_of_lt (by omega)]

theorem accepts_of_valid (hpos : 0 < mem.size.toNat) (hdvd : 64 ∣ mem.size.toNat)
    (halign : packetAlign pkt.dst = pkt.dst)
    (hkind : isSet pkt PACKET_READ = true ∨ isSet pkt PACKET_WRITE = true) :
    Accepts mem.size pkt where
  size_ne h := by rw [h] at hpos; exact absurd hpos (by decide)
  kind := hkind
  fits i _ := by
    have hfit := lines_fit hpos hdvd halign
    rw [BitVec.toNat_umod]
    omega

/-- The memory holds what its history says. -/
def Holds (mem : SimpleMem C) (buf : Nat → BitVec 8) (history : List Packet) : Prop :=
  ∀ a < mem.size.toNat, mem.buf a = Ram.lastByte mem.size.toNat buf history a

/-- A request changes the bytes that it writes. -/
theorem stored_eq (hpos : 0 < mem.size.toNat) (hdvd : 64 ∣ mem.size.toNat)
    (halign : packetAlign pkt.dst = pkt.dst) {a : Nat} (ha : a < mem.size.toNat) :
    mem.stored pkt a = (Ram.written mem.size.toNat pkt a).getD (mem.buf a) := by
  simp only [SimpleMem.stored, Ram.written, BitVec.toNat_umod]
  cases isSet pkt PACKET_READ with
  | true => rfl
  | false =>
      simp only [Bool.false_eq_true, if_false, Nat.mod_eq_of_lt ha, line_mod hpos hdvd halign]
      cases hfind : (List.finRange 64).find? fun i : Fin 64 =>
          pkt.mask.getLsbD i && pkt.dst.toNat % mem.size.toNat + i == a with
      | none =>
          -- no byte of the mask lies here
          have hno := List.find?_eq_none.1 hfind
          simp only [checkedCopyfrom, Option.map_none, Option.getD_none]
          split
          case isTrue hle =>
            split
            case isTrue hlt =>
              have hmask := hno ⟨_, hlt⟩ (List.mem_finRange _)
              simp_all
            case isFalse => rw [Nat.add_sub_cancel' hle]
          case isFalse => rfl
      | some i =>
          have hi := List.find?_some hfind
          simp only [Bool.and_eq_true, beq_iff_eq] at hi
          obtain ⟨hmask, rfl⟩ := hi
          simp [checkedCopyfrom, hmask]

theorem Holds.taken (h : mem.Holds buf history) (hpos : 0 < mem.size.toNat)
    (hdvd : 64 ∣ mem.size.toNat) (halign : packetAlign pkt.dst = pkt.dst) :
    (mem.taken sender pkt).Holds buf (history ++ [pkt]) := by
  intro a ha
  show mem.stored pkt a = Ram.lastByte mem.size.toNat buf (history ++ [pkt]) a
  rw [Ram.lastByte_concat, ← h a ha]
  exact stored_eq hpos hdvd halign ha

/-- The reply has the bytes that the history says. -/
theorem Holds.replyTo (h : mem.Holds buf history) (hpos : 0 < mem.size.toNat)
    (hdvd : 64 ∣ mem.size.toNat) (halign : packetAlign pkt.dst = pkt.dst) :
    mem.replyTo pkt = Ram.reply (Ram.lastByte mem.size.toNat buf history) pkt := by
  simp only [SimpleMem.replyTo, Ram.reply, BitVec.toNat_umod]
  cases isSet pkt PACKET_READ with
  | false => rfl
  | true =>
      have hbyte (i : Fin 64) : mem.buf (pkt.dst.toNat % mem.size.toNat + i) =
          Ram.lastByte mem.size.toNat buf history (pkt.dst.toNat + i) := by
        have hlt : pkt.dst.toNat % mem.size.toNat + i < mem.size.toNat := by
          have hfit := lines_fit hpos hdvd halign
          omega
        rw [h _ hlt, ← line_mod hpos hdvd halign, Ram.lastByte_mod]
      simp only [checkedCopyto, hbyte, Bool.true_and, if_true]
      rfl

/-! ## Whole runs -/

/-- A memory of whole lines whose replies are those of the history of its requests. -/
structure IsRam (size : Nat) (buf : Nat → BitVec 8) (t : Traffic C) : Prop where
  size_eq : t.mem.size.toNat = size
  sender : t.mem.busy = true → t.mem.send ≠ none
  holds : t.mem.Holds buf (t.accepted.map Prod.snd)
  serves : Server.Serves (Ram.apply size buf) [] t.accepted t.delivered t.pending

theorem IsRam.init {size : Word} (buf : Nat → BitVec 8) :
    IsRam (C := C) size.toNat buf ⟨createSimpleMem size buf, [], []⟩ where
  size_eq := rfl
  sender h := by cases h
  holds a ha := congrArg buf (Nat.mod_eq_of_lt ha).symm
  serves := Server.serves_init

/-- One step. -/
theorem IsRam.step (h : IsRam size buf t) (hpos : 0 < size) (hdvd : 64 ∣ size) {e : Event C}
    (he : e.Valid) : ∃ t', t.step e = some t' ∧ IsRam size buf t' := by
  obtain rfl := h.size_eq
  cases e with
  | receive sender pkt =>
      obtain ⟨halign, hkind⟩ := he
      cases hbusy : t.mem.busy with
      | true =>
          have hreceive : t.mem.receive sender pkt = some (.EBUSY, t.mem) := by
            rw [SimpleMem.receive, if_pos hbusy]
          refine ⟨t, ?_, h⟩
          simp only [Traffic.step, hreceive]
          rfl
      | false =>
          have hreceive : t.mem.receive sender pkt = some (.OK, t.mem.taken sender pkt) :=
            receive_accepts hbusy (accepts_of_valid hpos hdvd halign hkind)
          refine ⟨_, by simp only [Traffic.step, hreceive]; rfl, ?_⟩
          have hserves := h.serves
          rw [Traffic.pending_free hbusy] at hserves
          refine ⟨rfl, fun _ => Option.some_ne_none _, ?_, ?_⟩
          · show (t.mem.taken sender pkt).Holds buf ((t.accepted ++ [(sender, pkt)]).map Prod.snd)
            rw [List.map_append]
            exact h.holds.taken hpos hdvd halign
          · have hnext := hserves.accept sender pkt
            rw [Ram.final_apply, List.nil_append, Ram.apply,
              ← h.holds.replyTo hpos hdvd halign] at hnext
            exact hnext
  | clock busy =>
      cases hbusy : t.mem.busy with
      | false => exact ⟨t, Traffic.step_clock_free hbusy busy, h⟩
      | true =>
          obtain ⟨receiver, hsend⟩ := Option.ne_none_iff_exists'.1 (h.sender hbusy)
          have hserves := h.serves
          rw [Traffic.pending_busy hbusy hsend] at hserves
          refine ⟨_, Traffic.step_clock_busy hbusy hsend busy, ?_⟩
          cases busy with
          | true => exact h
          | false =>
              refine ⟨rfl, ?_, h.holds, hserves.deliver⟩
              exact fun hfalse => absurd hfalse Bool.false_ne_true

theorem IsRam.run (h : IsRam size buf t) (hpos : 0 < size) (hdvd : 64 ∣ size)
    {events : List (Event C)} (hevents : ∀ e ∈ events, e.Valid) :
    ∃ t', t.run events = some t' ∧ IsRam size buf t' := by
  induction events generalizing t with
  | nil => exact ⟨t, rfl, h⟩
  | cons e events ih =>
      obtain ⟨t', hstep, h'⟩ := h.step hpos hdvd (hevents e (List.mem_cons_self ..))
      obtain ⟨t'', hrun, h''⟩ := ih h' fun e' he' => hevents e' (List.mem_cons_of_mem _ he')
      refine ⟨t'', ?_, h''⟩
      rw [Traffic.run, hstep]
      exact hrun

/-- A clock at which the reply is taken leaves none. -/
theorem IsRam.clock (h : IsRam size buf t) : ∃ t', t.step (.clock false) = some t' ∧
    t'.delivered = Server.replies (Ram.apply size buf) [] t.accepted := by
  have hserves := h.serves
  cases hbusy : t.mem.busy with
  | false =>
      rw [Traffic.pending_free hbusy, Server.Serves, Option.toList_none, List.append_nil] at hserves
      exact ⟨t, Traffic.step_clock_free hbusy false, hserves⟩
  | true =>
      obtain ⟨receiver, hsend⟩ := Option.ne_none_iff_exists'.1 (h.sender hbusy)
      rw [Traffic.pending_busy hbusy hsend] at hserves
      exact ⟨_, Traffic.step_clock_busy hbusy hsend false, hserves⟩

/-- In every run of a memory of whole lines, each accepted request gets one reply, which goes to the
component that sent it; the replies are those that the history says and are delivered in the order
of acceptance, the last one at the next clock at which it is taken; and the memory holds what the
history says. -/
theorem simpleMem_ram {size : Word} (hpos : 0 < size.toNat) (hdvd : 64 ∣ size.toNat)
    (buf : Nat → BitVec 8) {events : List (Event C)} (hevents : ∀ e ∈ events, e.Valid) :
    ∃ t, Traffic.run ⟨createSimpleMem size buf, [], []⟩ events = some t ∧
      t.delivered ++ t.pending.toList =
        Server.replies (Ram.apply size.toNat buf) [] t.accepted ∧
      (∀ a < size.toNat, t.mem.buf a =
        Ram.lastByte size.toNat buf (t.accepted.map Prod.snd) a) ∧
      ∃ t', t.step (.clock false) = some t' ∧
        t'.delivered = Server.replies (Ram.apply size.toNat buf) [] t.accepted := by
  obtain ⟨t, hrun, h⟩ := (IsRam.init buf).run hpos hdvd hevents
  refine ⟨t, hrun, h.serves, fun a ha => ?_, h.clock⟩
  have hsize := h.size_eq
  rw [← hsize] at ha ⊢
  exact h.holds a ha

/-- A byte is written, its reply is refused once, and it is read back two sizes further on. -/
theorem simpleMem_ram_store_load :
    ∃ t : Traffic Unit, Traffic.run ⟨createSimpleMem 64 fun _ => 0, [], []⟩
        [.receive () ⟨0, 64, 1, 0, fun _ => 7, PACKET_WRITE⟩, .clock true, .clock false,
          .receive () ⟨0, 192, 3, 0, fun _ => 1, PACKET_READ⟩] = some t ∧
      t.delivered ++ t.pending.toList =
        Server.replies (Ram.apply 64 fun _ => 0) [] t.accepted ∧
      (∀ a < 64, t.mem.buf a = Ram.lastByte 64 (fun _ => 0) (t.accepted.map Prod.snd) a) ∧
      ∃ t', t.step (.clock false) = some t' ∧
        t'.delivered = Server.replies (Ram.apply 64 fun _ => 0) [] t.accepted := by
  refine simpleMem_ram (show 0 < (64 : Word).toNat by decide) (by decide) (fun _ => 0) ?_
  intro e he
  simp only [List.mem_cons, List.not_mem_nil, or_false] at he
  obtain rfl | rfl | rfl | rfl := he
  · exact ⟨by decide, .inr (by decide)⟩
  · exact trivial
  · exact trivial
  · exact ⟨by decide, .inl (by decide)⟩

end SimpleMem

end Gran
