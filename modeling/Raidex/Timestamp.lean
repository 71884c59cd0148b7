import Raidex.RoundedNumber

/-!
# Raidex.Timestamp

The functions of `timestamp`, on the clock of the system.

A `datetime` is a number of microseconds since the epoch, and has a place between the years 1 and
9999. A timestamp is a number of milliseconds; it is computed in `float`s and rounded.

* `dtToMsTimestamp_near`: the timestamp of a `datetime` is at most 562 microseconds off.
* `dtToMsTimestamp_exact`: a whole number of milliseconds is not rounded.
* `timestamps_exact`: the round trip, and that the nodes' `timePlus` is the one of the source.
-/

namespace Raidex

namespace Double

/-- The nearest integer, and the even one of two. -/
def roundHalfEven (x : ℚ) : ℤ :=
  if Int.fract x = 1 / 2 then (if Even ⌊x⌋ then ⌊x⌋ else ⌈x⌉) else round x

/-- `round(f)` -/
def round (f : Double) : Except PyError Int :=
  match f.exact with
  | some x => .ok (roundHalfEven x)
  | none => .error (if f.isInf then .overflowError else .valueError)

theorem abs_roundHalfEven_sub_le (x : ℚ) : |(roundHalfEven x : ℚ) - x| ≤ 1 / 2 := by
  unfold roundHalfEven
  split_ifs with hfract heven
  · rw [abs_sub_comm, Int.self_sub_floor, hfract, abs_of_pos (by norm_num)]
  · have hne : Int.fract x ≠ 0 := by
      rw [hfract]
      norm_num
    rw [Int.ceil_eq_add_one_sub_fract hne, hfract, add_sub_assoc, add_sub_cancel_left]
    norm_num
  · rw [abs_sub_comm]
    exact abs_sub_round x

/-- A number near an integer is rounded to it. -/
theorem roundHalfEven_eq {x : ℚ} {n : ℤ} (h : |x - n| < 1 / 2) : roundHalfEven x = n := by
  have hround := abs_roundHalfEven_sub_le x
  have habs : |((roundHalfEven x - n : ℤ) : ℚ)| < 1 := by
    push_cast
    calc |(roundHalfEven x : ℚ) - n| ≤ |(roundHalfEven x : ℚ) - x| + |x - n| := abs_sub_le _ _ _
      _ < 1 / 2 + 1 / 2 := add_lt_add_of_le_of_lt hround h
      _ = 1 := by norm_num
  have hlt : |roundHalfEven x - n| < 1 := by exact_mod_cast habs
  exact sub_eq_zero.mp (Int.abs_lt_one_iff.mp hlt)

end Double

namespace Timestamp

/-! ## The functions -/

def minDatetime : Int := -62135596800000000

def maxDatetime : Int := 253402300799999999

/-- `dt + td` -/
def shift (dt td : Int) : Except PyError Int :=
  if minDatetime ≤ dt + td && dt + td ≤ maxDatetime then .ok (dt + td) else .error .overflowError

/-- `td.total_seconds()` -/
def totalSeconds (td : Int) : Except PyError Double := Double.divideInt td (10 ^ 6)

/-- `_dt_to_ms_timestamp` -/
def dtToMsTimestamp (dt : Int) : Except PyError Int := do
  let seconds ← totalSeconds dt
  Double.round (seconds * Float.Model.ofInt 1000)

/-- `_ms_timestamp_to_dt` -/
def msTimestampToDt (timestamp : Int) : Except PyError Int := shift 0 (1000 * timestamp)

/-- `time_plus`, of whole numbers -/
def timePlus (now seconds milliseconds microseconds : Int) : Except PyError Int := do
  dtToMsTimestamp (← shift now (10 ^ 6 * seconds + 1000 * milliseconds + microseconds))

def time (now : Int) : Except PyError Int := dtToMsTimestamp now

def secondsToTimeout (now timeout : Int) : Except PyError Double := do
  totalSeconds ((← msTimestampToDt timeout) - now)

def timedOut (now timeout : Int) : Except PyError Bool := do
  return (← msTimestampToDt timeout) < now

/-! ## Rounding -/

variable {dt : ℕ}

theorem le_two_pow_1023 {x : ℚ} (h : x ≤ 2 ^ 64) : x ≤ 2 ^ 1023 :=
  h.trans (pow_le_pow_right₀ (by norm_num) (by norm_num))

theorem exact_thousand : Double.exact (Float.Model.ofInt 1000) = some 1000 := by
  rw [Double.exact_eq_value]
  refine (Binary64.value_ofInt ⟨1000, 0, by norm_num, by norm_num, by norm_num⟩ ?_).trans (by simp)
  exact (le_two_pow_1023 (by norm_num)).trans Binary64.two_pow_le_largest

/-- `total_seconds` is less than a thirty-second of a millisecond off. -/
theorem totalSeconds_near (h : dt ≤ maxDatetime) : ∃ f v, totalSeconds dt = .ok f ∧
    f.exact = some v ∧ 0 ≤ v ∧ |1000 * v - dt / 1000| < 1 / 32 := by
  have hdt : (dt : ℚ) ≤ 253402300799999999 := by
    unfold maxDatetime at h
    exact_mod_cast h
  have hseconds : (dt : ℚ) / (10 ^ 6 : ℕ) < 2 ^ 53 * 2 ^ (-15 : ℤ) := by
    push_cast
    rw [div_lt_iff₀ (by norm_num)]
    exact hdt.trans_lt (by norm_num)
  have hpos : (0 : ℚ) ≤ (dt : ℚ) / (10 ^ 6 : ℕ) := by positivity
  obtain ⟨f, v, hf, hv, hside⟩ := Double.divideInt_ok (a := dt) (b := 10 ^ 6) (by norm_num)
    (le_two_pow_1023 (hseconds.le.trans (by norm_num)))
  have hnear := Binary64.near_of_sides hside hpos (by norm_num) hseconds
  have hv0 : 0 ≤ v := (hside 0 ⟨0, 0, by norm_num, by norm_num, by norm_num⟩).1 hpos
  refine ⟨f, v, hf, hv, hv0, ?_⟩
  push_cast at hnear
  norm_num at hnear
  rw [abs_le] at hnear
  rw [abs_lt]
  constructor <;> linarith [hnear.1, hnear.2]

/-- What is rounded to a timestamp is less than a sixteenth of a millisecond off. -/
theorem exact_milliseconds (h : dt ≤ maxDatetime) : ∃ f v, totalSeconds dt = .ok f ∧
    Double.exact (f * Float.Model.ofInt 1000) = some v ∧ |v - dt / 1000| < 1 / 16 := by
  have hdt : (dt : ℚ) ≤ 253402300799999999 := by
    unfold maxDatetime at h
    exact_mod_cast h
  obtain ⟨f, v, hf, hv, hv0, hnear⟩ := totalSeconds_near h
  rw [abs_lt] at hnear
  have hv1 : v * 1000 < 2 ^ 53 * 2 ^ (-5 : ℤ) := by
    norm_num
    linarith [hnear.2]
  rw [Double.exact_eq_value] at hv
  obtain ⟨w, hw, hside⟩ := Binary64.value_mul hv
    ((Double.exact_eq_value _).symm.trans exact_thousand) hv0 (by norm_num)
    ((le_two_pow_1023 (hv1.le.trans (by norm_num))).trans Binary64.two_pow_le_largest)
  have hnear' := Binary64.near_of_sides hside (by positivity) (by norm_num) hv1
  refine ⟨f, w, hf, (Double.exact_eq_value _).trans hw, ?_⟩
  norm_num at hnear'
  rw [abs_le] at hnear'
  rw [abs_lt]
  constructor <;> linarith [hnear.1, hnear.2, hnear'.1, hnear'.2]

theorem dtToMsTimestamp_eq (h : dt ≤ maxDatetime) : ∃ v : ℚ, |v - dt / 1000| < 1 / 16 ∧
    dtToMsTimestamp dt = .ok (Double.roundHalfEven v) := by
  obtain ⟨f, v, hf, hv, hnear⟩ := exact_milliseconds h
  refine ⟨v, hnear, ?_⟩
  unfold dtToMsTimestamp
  rw [hf]
  show Double.round _ = _
  rw [Double.round, hv]

/-- A timestamp is at most 562 microseconds off. -/
theorem dtToMsTimestamp_near (h : dt ≤ maxDatetime) :
    ∃ n, dtToMsTimestamp dt = .ok n ∧ |1000 * n - (dt : ℤ)| ≤ 562 := by
  obtain ⟨v, hnear, heq⟩ := dtToMsTimestamp_eq h
  refine ⟨_, heq, ?_⟩
  have hround := Double.abs_roundHalfEven_sub_le v
  have habs : |((1000 * Double.roundHalfEven v - dt : ℤ) : ℚ)| < 563 := by
    push_cast
    rw [abs_lt] at hnear ⊢
    rw [abs_le] at hround
    constructor <;> linarith [hnear.1, hnear.2, hround.1, hround.2]
  have hlt : |1000 * Double.roundHalfEven v - (dt : ℤ)| < 563 := by exact_mod_cast habs
  omega

/-- A whole number of milliseconds is not rounded. -/
theorem dtToMsTimestamp_exact {n : ℕ} (h : n ≤ maxTimestamp) :
    dtToMsTimestamp (1000 * n) = .ok (n : ℤ) := by
  have hle : ((1000 * n : ℕ) : ℤ) ≤ maxDatetime := by
    unfold maxTimestamp at h
    unfold maxDatetime
    omega
  obtain ⟨v, hnear, heq⟩ := dtToMsTimestamp_eq hle
  push_cast at hnear heq
  rw [mul_div_cancel_left₀ _ (by norm_num)] at hnear
  rw [heq, Double.roundHalfEven_eq (n := n) (hnear.trans (by norm_num))]

theorem shift_ok {dt td : ℤ} (hmin : minDatetime ≤ dt + td) (hmax : dt + td ≤ maxDatetime) :
    shift dt td = .ok (dt + td) := by
  simp [shift, hmin, hmax]

theorem shift_error {dt td : ℤ} (h : maxDatetime < dt + td) :
    shift dt td = .error .overflowError := by
  simp [shift, not_le.mpr h]

theorem msTimestampToDt_ok {n : ℕ} (h : n ≤ maxTimestamp) :
    msTimestampToDt n = .ok (1000 * (n : ℤ)) := by
  unfold msTimestampToDt
  unfold maxTimestamp at h
  rw [shift_ok, zero_add]
  · unfold minDatetime
    omega
  · unfold maxDatetime
    omega

/-! ## The clock of the nodes -/

/-- On whole milliseconds, the source computes what the nodes are given. -/
theorem timePlus_eq (now seconds : ℕ) :
    timePlus (1000 * now) seconds 0 0 = (Raidex.timePlus now seconds).map Int.ofNat := by
  have hsum : (1000 * now + (10 ^ 6 * seconds + 1000 * 0 + 0) : ℤ) =
      1000 * ((now + 1000 * seconds : ℕ) : ℤ) := by
    push_cast
    ring
  unfold timePlus Raidex.timePlus
  by_cases h : maxTimestamp < now + 1000 * seconds
  · rw [if_pos h, shift_error]
    · rfl
    · rw [hsum]
      unfold maxTimestamp at h
      unfold maxDatetime
      omega
  · rw [if_neg h, shift_ok, hsum]
    · exact dtToMsTimestamp_exact (not_lt.mp h)
    · rw [hsum]
      unfold minDatetime
      omega
    · rw [hsum]
      unfold maxTimestamp at h
      unfold maxDatetime
      omega

/-- The seconds to a timeout are those of the nodes, but for the rounding. -/
theorem secondsToTimeout_near {now timeout : ℕ} (hle : now ≤ timeout)
    (h : timeout ≤ maxTimestamp) : ∃ f v, secondsToTimeout (1000 * now) timeout = .ok f ∧
      f.exact = some v ∧ ∃ d, Raidex.secondsToTimeout now timeout = .ok d ∧
        |1000 * v - d| < 1 / 32 := by
  have hdiff : (1000 * timeout - 1000 * now : ℤ) = ((1000 * (timeout - now) : ℕ) : ℤ) := by
    push_cast [Nat.cast_sub hle]
    ring
  have hmax : ((1000 * (timeout - now) : ℕ) : ℤ) ≤ maxDatetime := by
    unfold maxTimestamp at h
    unfold maxDatetime
    omega
  obtain ⟨f, v, hf, hv, -, hnear⟩ := totalSeconds_near hmax
  refine ⟨f, v, ?_, hv, _, secondsToTimeout_ok h, ?_⟩
  · unfold secondsToTimeout
    rw [msTimestampToDt_ok h]
    show totalSeconds (1000 * timeout - 1000 * now) = _
    rw [hdiff, hf]
  · push_cast [Nat.cast_sub hle] at hnear ⊢
    rwa [mul_div_cancel_left₀ _ (by norm_num)] at hnear

/-- What lies some seconds ahead is timed out after these, and not before. -/
theorem timedOut_timePlus {now seconds : ℕ} (h : (now : ℤ) + 10 ^ 6 * seconds + 562 ≤ maxDatetime) :
    ∃ n, timePlus now seconds 0 0 = .ok n ∧ ∀ later : ℤ,
      (later + 562 ≤ now + 10 ^ 6 * seconds → timedOut later n = .ok false) ∧
      (now + 10 ^ 6 * seconds + 562 < later → timedOut later n = .ok true) := by
  have hsum : (now + (10 ^ 6 * seconds + 1000 * 0 + 0) : ℤ) =
      ((now + 10 ^ 6 * seconds : ℕ) : ℤ) := by
    push_cast
    ring
  have hle : ((now + 10 ^ 6 * seconds : ℕ) : ℤ) ≤ maxDatetime := by
    push_cast
    omega
  obtain ⟨n, hn, hnear⟩ := dtToMsTimestamp_near hle
  have hbounds := abs_le.mp hnear
  push_cast at hbounds
  have hplus : timePlus now seconds 0 0 = .ok n := by
    unfold timePlus
    rw [shift_ok, hsum]
    · exact hn
    · rw [hsum]
      unfold minDatetime
      omega
    · rw [hsum]
      exact hle
  refine ⟨n, hplus, ?_⟩
  have hback : msTimestampToDt n = .ok (1000 * n) := by
    unfold msTimestampToDt
    rw [shift_ok, zero_add]
    · unfold minDatetime
      omega
    · omega
  intro later
  have htimed : timedOut later n = .ok (decide (1000 * n < later)) := by
    unfold timedOut
    rw [hback]
    rfl
  rw [htimed]
  constructor
  · intro hlater
    rw [decide_eq_false (by omega)]
  · intro hlater
    rw [decide_eq_true (by omega)]

/-- Timestamps and whole milliseconds are the same. Every other `datetime` is rounded to a
timestamp that is at most 562 microseconds off. The nodes compute with what `time_plus` and
`seconds_to_timeout` give on whole milliseconds, but for a thirty-second of one, and a timestamp
some seconds ahead is timed out when these have passed, within 562 microseconds. -/
theorem timestamps_exact :
    (∀ n : ℕ, n ≤ maxTimestamp →
      msTimestampToDt n = .ok (1000 * n) ∧ time (1000 * n) = .ok (n : ℤ)) ∧
    (∀ now : ℕ, now ≤ maxDatetime → ∃ n, time now = .ok n ∧ |1000 * n - (now : ℤ)| ≤ 562) ∧
    (∀ now seconds : ℕ, timePlus (1000 * now) seconds 0 0 =
      (Raidex.timePlus now seconds).map Int.ofNat) ∧
    (∀ now timeout : ℕ, now ≤ timeout → timeout ≤ maxTimestamp →
      ∃ f v, secondsToTimeout (1000 * now) timeout = .ok f ∧ f.exact = some v ∧
        ∃ d, Raidex.secondsToTimeout now timeout = .ok d ∧ |1000 * v - d| < 1 / 32) ∧
    ∀ now seconds : ℕ, (now : ℤ) + 10 ^ 6 * seconds + 562 ≤ maxDatetime →
      ∃ n, timePlus now seconds 0 0 = .ok n ∧ ∀ later : ℤ,
        (later + 562 ≤ now + 10 ^ 6 * seconds → timedOut later n = .ok false) ∧
        (now + 10 ^ 6 * seconds + 562 < later → timedOut later n = .ok true) :=
  ⟨fun _ h => ⟨msTimestampToDt_ok h, dtToMsTimestamp_exact h⟩, fun _ h => dtToMsTimestamp_near h,
    timePlus_eq, fun _ _ hle h => secondsToTimeout_near hle h, fun _ _ h => timedOut_timePlus h⟩

end Timestamp

end Raidex
