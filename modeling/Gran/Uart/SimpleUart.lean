import Gran.Common

/-!
# The simple UART

`simple_uart.c`: a UART prints the byte of a request of one byte and holds the reply until it is
taken. A request of another size is answered with an error. `output` is what was printed so far; a
failed `assert` and the `abort` of `packet_convsize` are `none`.
-/

namespace Gran

/-- `struct simple_uart`, with the standard output. -/
structure SimpleUart (C : Type) where
  send : Option C
  pkt : Packet
  busy : Bool
  output : List (BitVec 8)

/-- `create_simple_uart`. -/
def createSimpleUart {C : Type} : SimpleUart C := ⟨none, .zero, false, []⟩

namespace SimpleUart

variable {C W : Type}

/-- `simple_uart_clock`; a `NULL` receiver fails the assertion of `send`. -/
def clock (SEND : C → Packet → W → Option (Stat × W)) (uart : SimpleUart C) (w : W) :
    Option (SimpleUart C × W) :=
  if ¬ uart.busy then some (uart, w)
  else match uart.send with
    | none => none
    | some receiver => do
        let (r, w) ← SEND receiver uart.pkt w
        if r = .EBUSY then pure (uart, w)
        else pure ({ uart with busy := false }, w)

/-- `simple_uart_receive`. -/
def receive (uart : SimpleUart C) (sender : C) (pkt : Packet) : Option (Stat × SimpleUart C) :=
  if uart.busy then some (.EBUSY, uart)
  else do
    let uart := { uart with busy := true, send := some sender, pkt := response pkt }
    let size ← packetConvsize pkt
    if size ≠ 1 then pure (.OK, { uart with pkt := setFlags uart.pkt PACKET_ERROR })
    else
      let byte ← packetConvu8 pkt
      pure (.OK, { uart with
        output := uart.output ++ [byte]
        pkt := setFlags uart.pkt PACKET_DONE })

variable {uart uart' : SimpleUart C} {sender : C} {pkt : Packet} {r : Stat}

/-- The flag that the reply to a request gets. -/
def replyFlag (pkt : Packet) : BitVec 32 :=
  if packetConvsize pkt = some 1 then PACKET_DONE else PACKET_ERROR

/-- A UART refuses while it holds a reply, and changes nothing, or holds the reply from then on. -/
theorem receive_cases (h : uart.receive sender pkt = some (r, uart')) :
    (r = .EBUSY ∧ uart.busy = true ∧ uart' = uart) ∨
      (r = .OK ∧ uart.busy = false ∧ uart'.busy = true ∧ uart'.send = some sender ∧
        uart'.pkt = setFlags (response pkt) (replyFlag pkt)) := by
  unfold receive at h
  split at h
  case isTrue hbusy =>
    cases h
    exact .inl ⟨rfl, hbusy, rfl⟩
  case isFalse hbusy =>
    refine .inr ?_
    obtain ⟨size, hsize, h⟩ := Option.bind_eq_some_iff.1 h
    have hfree : uart.busy = false := Bool.eq_false_iff.2 hbusy
    split at h
    case isTrue hne =>
      cases h
      have hflag : replyFlag pkt = PACKET_ERROR := if_neg (by simpa [hsize] using hne)
      exact ⟨rfl, hfree, rfl, rfl, by rw [hflag]⟩
    case isFalse heq =>
      obtain ⟨byte, -, h⟩ := Option.bind_eq_some_iff.1 h
      cases h
      have hflag : replyFlag pkt = PACKET_DONE := if_pos (by simpa [hsize] using heq)
      exact ⟨rfl, hfree, rfl, rfl, by rw [hflag]⟩

end SimpleUart

end Gran
