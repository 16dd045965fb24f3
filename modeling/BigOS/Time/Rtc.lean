/-
  BigOS.Time.Rtc — the date that is read from the CMOS clock.

  `read_time` waits until the clock is not about to change, and then reads its registers
  one by one.  Nothing is said about when it reads them, so the clock may change between
  two of them.

  Main results:
    • `readTime_eq` — the date that is read,
    • `readTime_untorn` — when the clock has shown it,
    • `readTime_torn` — a date that was never shown.
-/
import Mathlib.Order.Monotone.Basic

namespace BigOS.Time

/-! ## §1. Reading the registers. -/

inductive Register
  | seconds | minutes | hours | dayOfMonth | month | year | statusA | statusB

def STATUS_A_UIP : UInt8 := 0x80
def STATUS_B_24_HOUR : UInt8 := 0x02
def STATUS_B_BINARY : UInt8 := 0x04
def HOUR_PM_FLAG : UInt8 := 0x80
def UIP_POLL_LIMIT : Nat := 1000000
def RTC_CENTURY_BASE : Nat := 2000

structure DateTime where
  year : Nat
  month : Nat
  day : Nat
  hour : Nat
  minute : Nat
  second : Nat
  deriving DecidableEq

/-- The access that finds the flag clear, of those from `k` on. -/
def waitUpdateNotInProgress (read : Nat → Register → UInt8) : Nat → Nat → Option Nat
  | 0, _ => none
  | polls + 1, k =>
    if read k .statusA &&& STATUS_A_UIP = 0 then some k
    else waitUpdateNotInProgress read polls (k + 1)

def bcdToBinary (value : UInt8) : UInt8 := (value &&& (0x0f : UInt8)) + (value >>> 4) * 10

def decode (binary : Bool) (value : UInt8) : Nat :=
  (if binary then value else bcdToBinary value).toNat

/-- On a 12-hour clock the register has a flag for the afternoon. -/
def decodeHour (binary hour24 : Bool) (raw : UInt8) : Nat :=
  let hour := decode binary (raw &&& ~~~HOUR_PM_FLAG)
  if hour24 then hour
  else (if hour = 12 then 0 else hour) + if raw &&& HOUR_PM_FLAG ≠ 0 then 12 else 0

def DateTime.inRange (d : DateTime) : Prop :=
  (1 ≤ d.month ∧ d.month ≤ 12) ∧ (1 ≤ d.day ∧ d.day ≤ 31) ∧ d.hour ≤ 23 ∧ d.minute ≤ 59 ∧
    d.second ≤ 59 ∧ RTC_CENTURY_BASE ≤ d.year ∧ d.year ≤ RTC_CENTURY_BASE + 99

instance (d : DateTime) : Decidable d.inRange := inferInstanceAs (Decidable (_ ∧ _))

def DateTime.checked (d : DateTime) : Option DateTime := if d.inRange then some d else none

/-- `read_time`, given what each access finds in a register. -/
def readTime (read : Nat → Register → UInt8) : Option DateTime := do
  let k ← waitUpdateNotInProgress read UIP_POLL_LIMIT 0
  let statusB := read (k + 1) .statusB
  let binary := statusB &&& STATUS_B_BINARY != 0
  let hour24 := statusB &&& STATUS_B_24_HOUR != 0
  let second := decode binary (read (k + 2) .seconds)
  let minute := decode binary (read (k + 3) .minutes)
  let hour := decodeHour binary hour24 (read (k + 4) .hours)
  let day := decode binary (read (k + 5) .dayOfMonth)
  let month := decode binary (read (k + 6) .month)
  let year := RTC_CENTURY_BASE + decode binary (read (k + 7) .year)
  DateTime.checked ⟨year, month, day, hour, minute, second⟩

/-! ## §2. The clock. -/

/-- A clock shows `shown n` during second `n`, which lasts `period` ticks.  All registers
change together, and the flag is set `lead` ticks before. -/
structure Clock where
  shown : Nat → DateTime
  valid : ∀ n, (shown n).inRange
  counts : ∀ n, (shown n).second = ((shown 0).second + n) % 60
  period : Nat
  lead : Nat
  binary : Bool
  hour24 : Bool

def encode (binary : Bool) (value : Nat) : UInt8 :=
  .ofNat (if binary then value else value / 10 * 16 + value % 10)

def encodeHour (binary hour24 : Bool) (hour : Nat) : UInt8 :=
  if hour24 then encode binary hour
  else encode binary (if hour % 12 = 0 then 12 else hour % 12) |||
    if 12 ≤ hour then HOUR_PM_FLAG else 0

def statusB (binary hour24 : Bool) : UInt8 :=
  (if binary then STATUS_B_BINARY else 0) ||| if hour24 then STATUS_B_24_HOUR else 0

/-- The date at a tick. -/
def Clock.now (c : Clock) (t : Nat) : DateTime := c.shown (t / c.period)

def Clock.register (c : Clock) (t : Nat) : Register → UInt8
  | .seconds => encode c.binary (c.now t).second
  | .minutes => encode c.binary (c.now t).minute
  | .hours => encodeHour c.binary c.hour24 (c.now t).hour
  | .dayOfMonth => encode c.binary (c.now t).day
  | .month => encode c.binary (c.now t).month
  | .year => encode c.binary ((c.now t).year - RTC_CENTURY_BASE)
  | .statusA => if c.period ≤ t % c.period + c.lead then STATUS_A_UIP else 0
  | .statusB => statusB c.binary c.hour24

theorem decode_encode {binary : Bool} {value : Nat} (h : value < 100) :
    decode binary (encode binary value) = value := by
  cases binary <;> decide +kernel +revert

theorem decodeHour_encodeHour {binary hour24 : Bool} {hour : Nat} (h : hour < 24) :
    decodeHour binary hour24 (encodeHour binary hour24 hour) = hour := by
  cases binary <;> cases hour24 <;> decide +kernel +revert

theorem statusB_bits (binary hour24 : Bool) :
    (statusB binary hour24 &&& STATUS_B_BINARY != 0) = binary ∧
      (statusB binary hour24 &&& STATUS_B_24_HOUR != 0) = hour24 := by
  cases binary <;> cases hour24 <;> decide

section

variable (c : Clock) (time : Nat → Nat) (k : Nat)

/-- What the accesses after the flag was clear find, each at its own time. -/
def Clock.found : DateTime where
  year := (c.now (time (k + 7))).year
  month := (c.now (time (k + 6))).month
  day := (c.now (time (k + 5))).day
  hour := (c.now (time (k + 4))).hour
  minute := (c.now (time (k + 3))).minute
  second := (c.now (time (k + 2))).second

/-- Until its access each register keeps the value that it had when the seconds were read. -/
structure Clock.Steady : Prop where
  minute : (c.now (time (k + 3))).minute = (c.now (time (k + 2))).minute
  hour : (c.now (time (k + 4))).hour = (c.now (time (k + 2))).hour
  day : (c.now (time (k + 5))).day = (c.now (time (k + 2))).day
  month : (c.now (time (k + 6))).month = (c.now (time (k + 2))).month
  year : (c.now (time (k + 7))).year = (c.now (time (k + 2))).year

/-- `read_time` returns a date that the clock showed at an instant of the call. -/
def Clock.Untorn : Prop :=
  ∃ t, time 0 ≤ t ∧ t ≤ time (k + 7) ∧ readTime (fun i => c.register (time i)) = some (c.now t)

variable {c time k}
  (hwait : waitUpdateNotInProgress (fun i => c.register (time i)) UIP_POLL_LIMIT 0 = some k)

include hwait

theorem readTime_eq : readTime (fun i => c.register (time i)) = some (c.found time k) := by
  have hvalid : ∀ i, (c.now (time i)).inRange := fun i => c.valid _
  obtain ⟨_, _, _, _, hsecond, _⟩ := hvalid (k + 2)
  obtain ⟨_, _, _, hminute, _, _⟩ := hvalid (k + 3)
  obtain ⟨_, _, hhour, _, _, _⟩ := hvalid (k + 4)
  obtain ⟨_, hday, _, _, _, _⟩ := hvalid (k + 5)
  obtain ⟨hmonth, _, _, _, _, _⟩ := hvalid (k + 6)
  obtain ⟨_, _, _, _, _, hyear⟩ := hvalid (k + 7)
  obtain ⟨hbinary, hhour24⟩ := statusB_bits c.binary c.hour24
  unfold readTime
  rw [hwait]
  simp only [Option.bind_eq_bind, Option.bind_some, Clock.register]
  rw [hbinary, hhour24, decode_encode (by omega), decode_encode (by omega),
    decode_encode (by omega), decode_encode (by omega), decode_encode (by omega),
    decodeHour_encodeHour (by omega), Nat.add_sub_cancel' hyear.1]
  exact if_pos ⟨hmonth, hday, hhour, hminute, hsecond, hyear⟩

/-- The date is one that the clock showed if the registers keep their values until they are
read, and, in a call of less than a minute, only then. -/
theorem readTime_untorn (htime : Monotone time) : (c.Steady time k → c.Untorn time k) ∧
    (time (k + 7) / c.period < time 0 / c.period + 60 → c.Untorn time k → c.Steady time k) := by
  unfold Clock.Untorn
  rw [readTime_eq hwait]
  refine ⟨fun h => ⟨time (k + 2), htime (Nat.zero_le _), htime (by omega), ?_⟩, fun hshort h => ?_⟩
  · unfold Clock.found
    rw [h.minute, h.hour, h.day, h.month, h.year]
  · obtain ⟨t, hfirst, hlast, hshown⟩ := h
    have hdate : c.found time k = c.now t := Option.some.inj hshown
    -- Within a minute the seconds tell the second.
    have hsecond : (c.now (time (k + 2))).second = (c.now t).second := congrArg (·.second) hdate
    have hfound : c.found time k = c.now (time (k + 2)) := by
      rw [hdate]
      unfold Clock.now at hsecond ⊢
      rw [c.counts, c.counts (t / c.period)] at hsecond
      have h0 := Nat.div_le_div_right (c := c.period) hfirst
      have h1 := Nat.div_le_div_right (c := c.period) hlast
      have h2 := Nat.div_le_div_right (c := c.period) (htime (Nat.zero_le (k + 2)))
      have h3 := Nat.div_le_div_right (c := c.period) (htime (show k + 2 ≤ k + 7 by omega))
      congr 1
      omega
    exact ⟨congrArg (·.minute) hfound, congrArg (·.hour) hfound, congrArg (·.day) hfound,
      congrArg (·.month) hfound, congrArg (·.year) hfound⟩

end

/-- A clock that stands one second before one o'clock. -/
def afternoon : Clock where
  shown n :=
    let s := 13 * 3600 - 1 + n
    ⟨2025, 1, 1, s / 3600 % 24, s / 60 % 60, s % 60⟩
  valid n := by
    unfold DateTime.inRange RTC_CENTURY_BASE
    dsimp only
    omega
  counts n := by
    dsimp only
    omega
  period := 100
  lead := 10
  binary := false
  hour24 := false

/-- The second changes after it was read, and nothing else does. -/
theorem readTime_untorn_afternoon :
    ∃ time : Nat → Nat, time 2 / 100 < time 3 / 100 ∧ afternoon.Untorn time 0 := by
  refine ⟨fun i => if i < 2 then 180 + i else 197 + i, by decide, ?_⟩
  refine (readTime_untorn rfl fun i j hij => ?_).1 ⟨rfl, rfl, rfl, rfl, rfl⟩
  split_ifs <;> omega

/-- The flag is clear when it is read.  By the time the minutes are read it is one
o'clock, but the seconds are those from before: the date was shown at no time until the
last access, at tick 104. -/
theorem readTime_torn :
    ∃ d, readTime (fun i => afternoon.register (if i < 2 then 80 + i else 97 + i)) = some d ∧
      ∀ t ≤ 104, afternoon.now t ≠ d :=
  ⟨⟨2025, 1, 1, 13, 0, 59⟩, by decide +kernel, by decide +kernel⟩

end BigOS.Time
