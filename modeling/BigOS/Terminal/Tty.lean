/-
  BigOS.Terminal.Tty — nonblocking reads of the terminal.

  `tty_read` and `tty_poll` judge by the presence of a record.  Kernel scroll keys and
  unsupported controls are consumed without a byte, and the reader then waits on the
  input queue as for any file.

  Main results:
    • `readRecords_eq_none_iff` — when the loop over the ring ends with nothing,
    • `ttyRead_nonblocking_iff` — when a nonblocking read keeps its contract.
-/
import Mathlib.Data.List.Basic

namespace BigOS.Terminal

/-! ## §1. Records. -/

inductive TerminalControl where
  | none | lineEnd | backspace | deleteLike | eofLike | interruptLike
  | navigateUp | navigateDown | navigateRight | navigateLeft | navigateHome | navigateEnd
  | navigateDelete | navigatePageUp | navigatePageDown
  | kernelScrollPageUp | kernelScrollPageDown | unsupported

inductive TerminalInputKind where
  | character
  | control
  deriving DecidableEq

structure TerminalInputRecord where
  kind : TerminalInputKind
  ch : UInt8
  control : TerminalControl

inductive TerminalInputMode where
  | canonical
  | raw
  deriving DecidableEq

/-- What a consumed record does besides its byte. -/
inductive Effect where
  | interrupt (pgid : Nat)
  | scrollPageUp
  | scrollPageDown

/-- The globals of the device: `ring` holds the records from `tail` to `head`, and
`pending` the bytes of `g_pending_sequence` from `index` on. -/
structure Tty where
  ring : List TerminalInputRecord
  pending : List UInt8
  inputMode : TerminalInputMode
  foregroundPgid : Nat
  effects : List Effect

/-- `input_available`. -/
def Tty.inputAvailable (tty : Tty) : Bool := !tty.pending.isEmpty || !tty.ring.isEmpty

/-- `set_navigation_sequence` and the first `take_pending_sequence_byte` after it: ESC is
taken, `[` and the key's code stay. -/
def Tty.navigate (tty : Tty) (code : List UInt8) : Option UInt8 × Tty :=
  (some 0x1b, { tty with pending := 0x5b :: code })

/-- `consume_record_as_raw_char`. -/
def Tty.consumeRecordAsRawChar (tty : Tty) (record : TerminalInputRecord) : Option UInt8 × Tty :=
  if record.kind = .character then (some record.ch, tty)
  else
    match record.control with
    | .lineEnd => (some 0x0a, tty)
    | .backspace => (some 0x08, tty)
    | .deleteLike => (some 0x7f, tty)
    | .eofLike => (some 0x04, tty)
    | .interruptLike => (some 0x03, tty)
    | .navigateUp => tty.navigate [0x41]
    | .navigateDown => tty.navigate [0x42]
    | .navigateRight => tty.navigate [0x43]
    | .navigateLeft => tty.navigate [0x44]
    | .navigateHome => tty.navigate [0x48]
    | .navigateEnd => tty.navigate [0x46]
    | .navigateDelete => tty.navigate [0x33, 0x7e]
    | .navigatePageUp => tty.navigate [0x35, 0x7e]
    | .navigatePageDown => tty.navigate [0x36, 0x7e]
    | .kernelScrollPageUp | .kernelScrollPageDown | .unsupported => (none, tty)
    | .none => (some record.ch, tty)

/-- `consume_record_as_char`: `none` for `Ignored`, `some none` for `Eof`.  The controls that
it reads as `consume_record_as_raw_char` does are left to that function. -/
def Tty.consumeRecordAsChar (tty : Tty) (record : TerminalInputRecord) :
    Option (Option UInt8) × Tty :=
  if record.kind = .character then (some record.ch, tty)
  else
    match record.control with
    | .eofLike => (some none, tty)
    | .interruptLike =>
      (some (some 0x03), if tty.foregroundPgid = 0 then tty
        else { tty with effects := tty.effects ++ [.interrupt tty.foregroundPgid] })
    | .kernelScrollPageUp => (none, { tty with effects := tty.effects ++ [.scrollPageUp] })
    | .kernelScrollPageDown => (none, { tty with effects := tty.effects ++ [.scrollPageDown] })
    | _ => (tty.consumeRecordAsRawChar record).map (·.map some) id

/-- A record that gives neither a byte nor end-of-file, in either mode. -/
def TerminalInputRecord.Ignored (record : TerminalInputRecord) : Prop :=
  record.kind = .control ∧ (record.control = .kernelScrollPageUp ∨
    record.control = .kernelScrollPageDown ∨ record.control = .unsupported)

/-- A byte or end-of-file can be produced. -/
def Tty.Producible (tty : Tty) : Prop :=
  tty.pending ≠ [] ∨ ∃ record ∈ tty.ring, ¬record.Ignored

section
variable {α : Type} (byte : UInt8 → α) (consume : Tty → TerminalInputRecord → Option α × Tty)

/-- What the readers' loop needs to know of a consumer. -/
structure Consumer : Prop where
  ignored_iff : ∀ tty record, (consume tty record).1 = none ↔ record.Ignored
  pending : ∀ tty record, record.Ignored → (consume tty record).2.pending = tty.pending

theorem consumer_raw : Consumer Tty.consumeRecordAsRawChar where
  ignored_iff := by
    rintro tty ⟨_ | _, ch, control⟩ <;> cases control <;>
      simp [Tty.consumeRecordAsRawChar, TerminalInputRecord.Ignored, Tty.navigate]
  pending := by
    rintro tty ⟨_, ch, _⟩ ⟨rfl, rfl | rfl | rfl⟩ <;> rfl

theorem consumer_char : Consumer Tty.consumeRecordAsChar where
  ignored_iff := by
    rintro tty ⟨_ | _, ch, control⟩ <;> cases control <;>
      simp [Tty.consumeRecordAsChar, Tty.consumeRecordAsRawChar, TerminalInputRecord.Ignored,
        Tty.navigate]
  pending := by
    rintro tty ⟨_, ch, _⟩ ⟨rfl, rfl | rfl | rfl⟩ <;> rfl

/-! ## §2. Readers. -/

/-- `take_pending_sequence_byte`. -/
def Tty.takePendingSequenceByte (tty : Tty) : Option α × Tty :=
  match tty.pending with
  | [] => (none, tty)
  | b :: pending => (some (byte b), { tty with pending })

/-- The loop of `read_raw_char` and `read_char_blocking` over the records of the ring, until
one gives something. -/
def Tty.readRecords : List TerminalInputRecord → Tty → Option α × Tty
  | [], tty => tty.takePendingSequenceByte byte
  | record :: ring, tty =>
    match tty.takePendingSequenceByte byte with
    | (none, tty) =>
      match consume { tty with ring } record with
      | (none, tty) => tty.readRecords ring
      | r => r
    | r => r

variable {consume}

theorem Consumer.readRecords_eq_none_iff (h : Consumer consume)
    (ring : List TerminalInputRecord) (tty : Tty) : (tty.readRecords byte consume ring).1 = none ↔
      tty.pending = [] ∧ ∀ record ∈ ring, record.Ignored := by
  induction ring generalizing tty with
  | nil =>
    rw [Tty.readRecords, Tty.takePendingSequenceByte]
    cases tty.pending <;> simp
  | cons record ring ih =>
    obtain ⟨_, _ | ⟨b, pending⟩, mode, pgid, effects⟩ := tty
    · have hignored := h.ignored_iff ⟨ring, [], mode, pgid, effects⟩ record
      have hpending := h.pending ⟨ring, [], mode, pgid, effects⟩ record
      rcases hc : consume ⟨ring, [], mode, pgid, effects⟩ record with ⟨_ | _, next⟩ <;>
        rw [hc] at hignored hpending
      · have hrecord := hignored.mp rfl
        have hnext : next.pending = [] := hpending hrecord
        simp [Tty.readRecords, Tty.takePendingSequenceByte, hc, ih, hnext, hrecord]
      · simp [Tty.readRecords, Tty.takePendingSequenceByte, hc, ← hignored]
    · simp [Tty.readRecords, Tty.takePendingSequenceByte]

end

/-- `read_char_blocking`, or `none` if it enters `g_input_wait`; end-of-file is no bytes. -/
def Tty.readCharBlocking (tty : Tty) : Option (List UInt8) × Tty :=
  (tty.readRecords some consumeRecordAsChar tty.ring).map (·.map Option.toList) id

/-- The inner loop of `read_raw_available_blocking`. -/
def Tty.readRawAvailable : Nat → Tty → List UInt8 × Tty
  | 0, tty => ([], tty)
  | capacity + 1, tty =>
    match tty.readRecords id consumeRecordAsRawChar tty.ring with
    | (none, tty) => ([], tty)
    | (some b, tty) => (tty.readRawAvailable capacity).map (b :: ·) id

/-- `read_raw_available_blocking`, or `none` if it enters `g_input_wait`. -/
def Tty.readRawAvailableBlocking (tty : Tty) (capacity : Nat) : Option (List UInt8) × Tty :=
  match tty.readRawAvailable capacity with
  | ([], tty) => (none, tty)
  | (bytes, tty) => (some bytes, tty)

/-- How `tty_read` ends; `waits`: in `g_input_wait`, with nothing read. -/
inductive Outcome where
  | waits
  | wouldBlock
  | success (bytes : List UInt8)

/-- `tty_read`. -/
def Tty.ttyRead (tty : Tty) (canBlock nonblocking : Bool) (len : Nat) : Outcome × Tty :=
  if len = 0 then (.success [], tty)
  else if !canBlock || nonblocking && !tty.inputAvailable then (.wouldBlock, tty)
  else (if tty.inputMode = .raw then tty.readRawAvailableBlocking len
    else tty.readCharBlocking).map (·.elim .waits .success) id

/-- The readable bit of `tty_poll`. -/
def Tty.ttyPoll (tty : Tty) : Bool := tty.inputAvailable

/-! ## §3. Nonblocking reads. -/

theorem readRawAvailableBlocking_eq_none_iff (tty : Tty) (n : Nat) :
    (tty.readRawAvailableBlocking (n + 1)).1 = none ↔ ¬tty.Producible := by
  have h := consumer_raw.readRecords_eq_none_iff id tty.ring tty
  rw [Tty.readRawAvailableBlocking, Tty.readRawAvailable]
  rcases hr : tty.readRecords id Tty.consumeRecordAsRawChar tty.ring with ⟨_ | _, next⟩ <;>
    simpa [hr, Tty.Producible] using h

/-- A nonblocking read returns, with `WouldBlock` if and only if nothing can be produced, and
`tty_poll` agrees, if and only if the ring is not made of ignored records only. -/
theorem ttyRead_nonblocking_iff (tty : Tty) (n : Nat) :
    ((tty.ttyRead true true (n + 1)).1 ≠ .waits ∧
        ((tty.ttyRead true true (n + 1)).1 = .wouldBlock ↔ ¬tty.Producible) ∧
        (tty.ttyPoll = true ↔ tty.Producible)) ↔ tty.ring = [] ∨ tty.Producible := by
  have havailable : tty.inputAvailable ↔ tty.pending ≠ [] ∨ tty.ring ≠ [] := by
    simp [Tty.inputAvailable]
  have hproducible : tty.Producible → tty.pending ≠ [] ∨ tty.ring ≠ [] :=
    Or.imp id fun ⟨_, hmem, _⟩ => List.ne_nil_of_mem hmem
  have hpending : tty.pending ≠ [] → tty.Producible := Or.inl
  have hchar : tty.readCharBlocking.1 = none ↔ ¬tty.Producible := by
    simp [Tty.readCharBlocking, consumer_char.readRecords_eq_none_iff some, Tty.Producible]
  have hraw := readRawAvailableBlocking_eq_none_iff tty n
  rw [Tty.ttyPoll, Tty.ttyRead, if_neg n.succ_ne_zero]
  cases ha : tty.inputAvailable
  · simp_all
  · generalize hr : (if tty.inputMode = .raw then _ else _) = r
    have hnone : r.1 = none ↔ ¬tty.Producible := by
      rw [← hr]
      split <;> assumption
    obtain ⟨_ | _, next⟩ := r <;> simp_all

/-- A key of the kernel's own scrolling is pressed: poll reports the terminal readable and
the read sleeps. -/
theorem ttyRead_scroll_key_waits :
    let tty : Tty := ⟨[⟨.control, 0, .kernelScrollPageUp⟩], [], .canonical, 0, []⟩
    tty.ttyPoll = true ∧ (tty.ttyRead true true 1).1 = .waits :=
  ⟨rfl, rfl⟩

end BigOS.Terminal
