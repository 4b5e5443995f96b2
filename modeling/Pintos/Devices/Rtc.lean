import Mathlib.Algebra.Order.BigOperators.Group.Finset
import Pintos.Foundation.Calendar

/-!
# The real-time clock (devices/rtc.c)

The conversion of the clock's registers to a `time_t`, which is a 32-bit `unsigned long`. The
registers are read one after the other, so every read may find the clock changed. `none` is a
signed overflow, a month without an entry in `days_per_month`, or a clock that never shows the
same second twice.
-/

namespace Pintos.Devices

open Foundation Option Finset UInt32

def rtcRegSec : UInt8 := 0
def rtcRegMin : UInt8 := 2
def rtcRegHour : UInt8 := 4
def rtcRegMday : UInt8 := 7
def rtcRegMon : UInt8 := 8
def rtcRegYear : UInt8 := 9

def bcdToBin (x : UInt8) : Int := (x &&& 0x0f).toNat + (x >>> 4).toNat * 10

/-- The time components as the loop of `rtc_get_time` leaves them. -/
structure RtcTime where
  sec : Int
  min : Int
  hour : Int
  mday : Int
  mon : Int
  year : Int

/-- `cmos n index` is what `cmos_read (index)` returns if it is the `n`th read. -/
abbrev Cmos := Nat → UInt8 → UInt8

def readComponents (cmos : Cmos) (n : Nat) : RtcTime where
  sec := bcdToBin (cmos n rtcRegSec)
  min := bcdToBin (cmos (n + 1) rtcRegMin)
  hour := bcdToBin (cmos (n + 2) rtcRegHour)
  mday := bcdToBin (cmos (n + 3) rtcRegMday)
  mon := bcdToBin (cmos (n + 4) rtcRegMon)
  year := bcdToBin (cmos (n + 5) rtcRegYear)

def readTime (cmos : Cmos) : Nat → Nat → Option RtcTime
  | 0, _ => none
  | fuel + 1, n =>
      let t := readComponents cmos n
      if t.sec ≠ bcdToBin (cmos (n + 6) rtcRegSec) then readTime cmos fuel (n + 7) else some t

def daysPerMonth : List Int := [31, 28, 31, 30, 31, 30, 31, 31, 30, 31, 30, 31]

/-- The two-digit year as years since 1970. -/
def yearsSince1970 (year : Int) : Int := (if year < 70 then year + 100 else year) - 70

def yearSeconds (year : Int) : Option Int :=
  let seconds := (year * 365 + (year - 1).tdiv 4) * 24 * 60 * 60
  if -2147483648 ≤ seconds ∧ seconds < 2147483648 then some seconds else none

/-- The loop `for (i = 1; i <= mon; i++)`. -/
def addMonths (time : UInt32) : Nat → Option UInt32
  | 0 => some time
  | i + 1 => (addMonths time i).bind fun time =>
      daysPerMonth[i]?.map fun days => time + UInt32.ofInt (days * 24 * 60 * 60)

def toSeconds (t : RtcTime) : Option UInt32 :=
  let year := yearsSince1970 t.year
  (yearSeconds year).bind fun seconds =>
    (addMonths (UInt32.ofInt seconds) t.mon.toNat).map fun time =>
      let time := if t.mon > 2 ∧ year.tmod 4 = 0 then time + 24 * 60 * 60 else time
      let time := time + UInt32.ofInt ((t.mday - 1) * 24 * 60 * 60)
      let time := time + UInt32.ofInt (t.hour * 60 * 60)
      let time := time + UInt32.ofInt (t.min * 60)
      time + UInt32.ofInt t.sec

def rtcGetTime (cmos : Cmos) (fuel n : Nat) : Option UInt32 :=
  (readTime cmos fuel n).bind toSeconds

def bcd (x : Nat) : UInt8 := UInt8.ofNat (x / 10 * 16 + x % 10)

/-- The clock shows `d` during the seven reads from the `n`th on. -/
structure Shows (cmos : Cmos) (n : Nat) (d : CalendarTime) : Prop where
  sec : cmos n rtcRegSec = bcd d.second
  min : cmos (n + 1) rtcRegMin = bcd d.minute
  hour : cmos (n + 2) rtcRegHour = bcd d.hour
  mday : cmos (n + 3) rtcRegMday = bcd d.day
  mon : cmos (n + 4) rtcRegMon = bcd d.month
  year : cmos (n + 5) rtcRegYear = bcd (d.year % 100)
  again : cmos (n + 6) rtcRegSec = bcd d.second

lemma bcdToBin_bcd {x : Nat} (hx : x < 100) : bcdToBin (bcd x) = x := by
  have hall : ∀ y : Fin 100, bcdToBin (bcd y) = (y : Nat) := by decide
  exact hall ⟨x, hx⟩

variable {d : CalendarTime} {y : Nat}

lemma readTime_shows {cmos : Cmos} {n : Nat} (hd : Shows cmos n d) (fuel : Nat) :
    readTime cmos (fuel + 1) n =
      some ⟨d.second, d.minute, d.hour, d.day, d.month, (d.year % 100 : Nat)⟩ := by
  have hsec := d.second_lt
  have hmin := d.minute_lt
  have hhour := d.hour_lt
  have hmon := d.month_le
  have hday := d.day_le.trans (monthLength_le d.year d.month)
  have hread : readComponents cmos n =
      ⟨d.second, d.minute, d.hour, d.day, d.month, (d.year % 100 : Nat)⟩ := by
    simp (disch := omega) only [readComponents, hd.sec, hd.min, hd.hour, hd.mday, hd.mon, hd.year,
      bcdToBin_bcd]
  have hagain : bcdToBin (cmos (n + 6) rtcRegSec) = d.second := by
    rw [hd.again, bcdToBin_bcd (by omega)]
  simp [readTime, hread, hagain]

lemma yearsSince1970_eq (hlow : 1970 ≤ y) (hhigh : y < 2070) :
    yearsSince1970 (y % 100 : Nat) = (y - 1970 : Nat) := by
  unfold yearsSince1970
  split <;> omega

lemma ofInt_natCast (n : Nat) : ofInt n = ofNat n := by
  have hmod : ((n : Int) % 2 ^ 32).toNat = n % 2 ^ 32 := by omega
  rw [ofInt, hmod, ofNat_mod_size]

/-- The months are counted up to and including the current one. -/
lemma addMonths_eq (time : UInt32) {mon : Nat} (hmon : mon ≤ 12) :
    addMonths time mon =
      some (time + ofNat ((∑ i ∈ range mon, commonLength (i + 1)) * 86400)) := by
  induction mon with
  | zero => simp [addMonths]
  | succ i ih =>
    have hdays : daysPerMonth[i]? = some ((commonLength (i + 1) : Nat) : Int) := by
      have hi : i < 12 := by omega
      interval_cases i <;> rfl
    have hseconds : (commonLength (i + 1) : Int) * 24 * 60 * 60 =
        (commonLength (i + 1) * 86400 : Nat) := by omega
    rw [addMonths, ih (by omega), bind_some, hdays, map_some, hseconds,
      ofInt_natCast, sum_range_succ, Nat.add_mul, UInt32.ofNat_add, UInt32.add_assoc]

lemma yearSeconds_eq (hy : y ≤ 67) :
    yearSeconds y = some (((y * 365 + (y - 1) / 4) * 86400 : Nat) : Int) := by
  have hdiv : ((y : Int) - 1).tdiv 4 = ((y - 1) / 4 : Nat) := by
    cases y with
    | zero => rfl
    | succ y =>
      rw [Int.tdiv_eq_ediv_of_nonneg (by omega)]
      omega
  have hseconds : ((y : Int) * 365 + ((y : Int) - 1).tdiv 4) * 24 * 60 * 60 =
      ((y * 365 + (y - 1) / 4) * 86400 : Nat) := by
    rw [hdiv]
    omega
  rw [yearSeconds, hseconds, if_pos (by omega)]

/-- How many days the result is late: the current month, and what leap days are off. -/
def excessDays (d : CalendarTime) : Int :=
  let y := d.year - 1970
  commonLength d.month + ((y - 1) / 4 : Nat) - ((y + 1) / 4 : Nat) +
    (if 2 < d.month ∧ y % 4 = 0 then 1 else 0) - (if 2 < d.month ∧ y % 4 = 2 then 1 else 0)

lemma excessDays_pos (d : CalendarTime) : 26 ≤ excessDays d := by
  have hlen := le_commonLength d.month
  unfold excessDays
  dsimp only
  split <;> split <;> omega

/-- The days that `toSeconds` counts. -/
def countedDays (d : CalendarTime) : Nat :=
  let y := d.year - 1970
  y * 365 + (y - 1) / 4 + ∑ i ∈ Finset.range d.month, commonLength (i + 1) +
    (if 2 < d.month ∧ y % 4 = 0 then 1 else 0) + (d.day - 1)

lemma toSeconds_eq (hlow : 1970 ≤ d.year) (hhigh : d.year ≤ 2037) :
    toSeconds ⟨d.second, d.minute, d.hour, d.day, d.month, (d.year % 100 : Nat)⟩ =
      some (ofNat (countedDays d * 86400 + d.hour * 3600 + d.minute * 60 + d.second)) := by
  have hpos := d.day_pos
  have hmday : ((d.day : Int) - 1) * 24 * 60 * 60 = ((d.day - 1) * 86400 : Nat) := by omega
  have hhour : (d.hour : Int) * 60 * 60 = (d.hour * 3600 : Nat) := by omega
  have hmin : (d.minute : Int) * 60 = (d.minute * 60 : Nat) := by omega
  have hleap : ((d.month : Int) > 2 ∧ ((d.year - 1970 : Nat) : Int).tmod 4 = 0) ↔
      2 < d.month ∧ (d.year - 1970) % 4 = 0 := by
    rw [Int.tmod_eq_emod_of_nonneg (by omega)]
    omega
  have hday : (24 * 60 * 60 : UInt32) = ofNat 86400 := rfl
  simp only [toSeconds, yearsSince1970_eq hlow (by omega : d.year < 2070), bind_some,
    yearSeconds_eq (by omega : d.year - 1970 ≤ 67), ofInt_natCast, Int.toNat_natCast,
    addMonths_eq _ d.month_le, map_some, hmday, hhour, hmin, hleap, hday, countedDays]
  split
  · simp only [← ofNat_add]
    exact congrArg (fun n => some (ofNat n)) (by omega)
  · simp only [← ofNat_add]
    exact congrArg (fun n => some (ofNat n)) (by omega)

lemma countedDays_eq (hlow : 1970 ≤ d.year) (hhigh : d.year ≤ 2037) :
    (countedDays d : Int) = d.daysSince 1970 + excessDays d := by
  have hyears := daysBeforeYear_1970 (n := d.year - 1970) (by omega)
  have hleap : IsLeapYear d.year ↔ (d.year - 1970) % 4 = 2 := by
    rw [isLeapYear_iff hlow (by omega)]
    omega
  have hmonth : d.month = d.month - 1 + 1 := by
    have := d.month_pos
    omega
  have hsum : ∑ i ∈ range d.month, commonLength (i + 1) =
      ∑ i ∈ range (d.month - 1), commonLength (i + 1) + commonLength d.month := by
    conv_lhs => rw [hmonth, sum_range_succ, ← hmonth]
  rw [Nat.add_sub_cancel' hlow] at hyears
  simp only [countedDays, excessDays, CalendarTime.daysSince, hyears, hsum, hleap,
    daysBeforeMonth_eq d.year d.month_le]
  split <;> split <;> omega

lemma countedDays_lt (hlow : 1970 ≤ d.year) (hhigh : d.year ≤ 2037) : countedDays d < 30000 := by
  have hday := d.day_le.trans (monthLength_le d.year d.month)
  have hsum : ∑ i ∈ range d.month, commonLength (i + 1) ≤ d.month * 31 := by
    have hle : ∀ i ∈ range d.month, commonLength (i + 1) ≤ 31 := fun i _ => commonLength_le _
    simpa using sum_le_card_nsmul _ _ 31 hle
  have := d.month_le
  unfold countedDays
  dsimp only
  split <;> omega

/-- The seconds since 1970 are never right between 1970 and 2037: some four weeks late. -/
theorem rtcGetTime_late {d : CalendarTime} (hlow : 1970 ≤ d.year) (hhigh : d.year ≤ 2037)
    {cmos : Cmos} {n : Nat} (hd : Shows cmos n d) {fuel : Nat} (hfuel : 0 < fuel) :
    ∃ time, rtcGetTime cmos fuel n = some time ∧
      (time.toNat : Int) = d.secondsSince 1970 + 86400 * excessDays d ∧
      time.toNat ≠ d.secondsSince 1970 := by
  obtain ⟨fuel, rfl⟩ := Nat.exists_eq_succ_of_ne_zero hfuel.ne'
  have hcounted := countedDays_eq hlow hhigh
  have hlt := countedDays_lt hlow hhigh
  have hexcess := excessDays_pos d
  have hhour := d.hour_lt
  have hminute := d.minute_lt
  have hsecond := d.second_lt
  refine ⟨_, by rw [rtcGetTime, readTime_shows hd, bind_some, toSeconds_eq hlow hhigh], ?_⟩
  rw [toNat_ofNat_of_lt' (by rw [size]; omega), CalendarTime.secondsSince]
  constructor <;> omega

def epoch : CalendarTime where
  year := 1970
  month := 1
  day := 1
  hour := 0
  minute := 0
  second := 0
  month_pos := by decide
  month_le := by decide
  day_pos := by decide
  day_le := by decide
  hour_lt := by decide
  minute_lt := by decide
  second_lt := by decide

def epochCmos : Cmos := fun _ index =>
  if index = rtcRegMday ∨ index = rtcRegMon then 0x01
  else if index = rtcRegYear then 0x70
  else 0x00

theorem rtcGetTime_late_epoch :
    ∃ time, rtcGetTime epochCmos 1 0 = some time ∧
      (time.toNat : Int) = epoch.secondsSince 1970 + 86400 * excessDays epoch ∧
      time.toNat ≠ epoch.secondsSince 1970 :=
  rtcGetTime_late (by decide) (by decide) ⟨rfl, rfl, rfl, rfl, rfl, rfl, rfl⟩ Nat.one_pos

/-- The start of 1970 is converted to the start of February. -/
theorem rtcGetTime_epoch :
    Shows epochCmos 0 epoch ∧ rtcGetTime epochCmos 1 0 = some 2678400 ∧
      epoch.secondsSince 1970 = 0 :=
  ⟨⟨rfl, rfl, rfl, rfl, rfl, rfl, rfl⟩, by decide, by decide⟩

end Pintos.Devices
