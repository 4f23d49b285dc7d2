import PdsBackup.Core.FileTree

/-!
# Times as texts

`get_time_from_file` turns a modification time into a text with `localtime` and
`put_time`, in the time zone that `Directory_entry` sets: `UTC-1`, whose name is
`UTC` and which is an hour ahead.
-/

namespace PdsBackup

/-- The fields of `std::tm` that the format uses.  `year` is not counted from
1900 here. -/
structure Tm where
  weekday : Fin 7
  day : Fin 32
  month : Fin 12
  year : Int
  hour : Fin 24
  minute : Fin 60
  deriving DecidableEq

namespace TimeText

/-! ## The calendar

Years are counted here from the first of March, so that a leap day is the last
day of its year, its four years, its century and its era of 400 years. -/

def daysOfEra : Nat := 146097

def century (dayOfEra : Nat) : Nat := min 3 (dayOfEra / 36524)

def dayOfCentury (dayOfEra : Nat) : Nat := dayOfEra - 36524 * century dayOfEra

def yearOfFour (dayOfFour : Nat) : Nat := min 3 (dayOfFour / 365)

def yearOfEra (dayOfEra : Nat) : Nat :=
  100 * century dayOfEra + 4 * (dayOfCentury dayOfEra / 1461) +
    yearOfFour (dayOfCentury dayOfEra % 1461)

def dayOfYear (dayOfEra : Nat) : Nat :=
  dayOfCentury dayOfEra % 1461 - 365 * yearOfFour (dayOfCentury dayOfEra % 1461)

def monthOfYear (dayOfYear : Nat) : Nat := (5 * dayOfYear + 2) / 153

def dayOfMonth (dayOfYear : Nat) : Nat :=
  dayOfYear - (153 * monthOfYear dayOfYear + 2) / 5 + 1

theorem dayOfMonth_lt (dayOfYear : Nat) : dayOfMonth dayOfYear < 32 := by
  unfold dayOfMonth monthOfYear
  omega

theorem second_lt (seconds : Int) : (seconds % 86400).toNat < 86400 := by
  omega

/-- `localtime` of a time in seconds since 1970. -/
def localtime (time : Int) : Tm :=
  let seconds := time + 3600
  let days := seconds / 86400
  let second := (seconds % 86400).toNat
  let sinceMarch := days + 719468 -- the first day of March of the year 0
  let dayOfEra := (sinceMarch % daysOfEra).toNat
  let day := dayOfYear dayOfEra
  { weekday := Fin.ofNat 7 ((days + 4) % 7).toNat
    day := ⟨dayOfMonth day, dayOfMonth_lt day⟩
    month := Fin.ofNat 12 (monthOfYear day + 2)
    year := 400 * (sinceMarch / daysOfEra) + yearOfEra dayOfEra +
      if monthOfYear day < 10 then 0 else 1
    hour := ⟨second / 3600, by
      have hsecond := second_lt seconds
      omega⟩
    minute := ⟨second / 60 % 60, Nat.mod_lt _ (by omega)⟩ }

/-! ## The format -/

def weekdayNames : List Text :=
  ["Sunday".toList, "Monday".toList, "Tuesday".toList, "Wednesday".toList, "Thursday".toList,
    "Friday".toList, "Saturday".toList]

def monthNames : List Text :=
  ["January".toList, "February".toList, "March".toList, "April".toList, "May".toList,
    "June".toList, "July".toList, "August".toList, "September".toList, "October".toList,
    "November".toList, "December".toList]

/-- `%d`, `%H` and `%M` -/
def twoDigits (number : Nat) : Text := [(number / 10).digitChar, (number % 10).digitChar]

/-- `%Y` -/
def yearText (year : Int) : Text :=
  if year < 0 then '-' :: Nat.toDigits 10 year.natAbs else Nat.toDigits 10 year.toNat

/-- `put_time` with the format `%A, %d %B %Y %H:%M %Z` -/
def putTime (tm : Tm) : Text :=
  weekdayNames.getD tm.weekday [] ++ ',' :: ' ' :: (twoDigits tm.day ++ ' ' ::
    (monthNames.getD tm.month [] ++ ' ' :: (yearText tm.year ++ ' ' ::
      (twoDigits tm.hour ++ ':' :: (twoDigits tm.minute ++ ' ' :: "UTC".toList)))))

/-- The text of a modification time. -/
def timeText (time : Int) : Text := putTime (localtime time)

example : timeText 0 = "Thursday, 01 January 1970 01:00 UTC".toList := by decide

example : timeText 951782400 = "Tuesday, 29 February 2000 01:00 UTC".toList := by decide

example : timeText 253402297200 = "Saturday, 01 January 10000 00:00 UTC".toList := by decide

/-! ## The year -/

theorem yearText_ne_space (year : Int) : ' ' ∉ yearText year := by
  intro hmem
  unfold yearText at hmem
  have hdigits : ∀ number : Nat, ' ' ∉ Nat.toDigits 10 number := by
    intro number hmem
    have hdigit := Nat.isDigit_of_mem_toDigits (by omega) (by omega) hmem
    exact absurd hdigit (by decide)
  split at hmem
  · cases List.mem_cons.mp hmem with
    | inl heq => exact absurd heq (by decide)
    | inr hmem => exact hdigits _ hmem
  · exact hdigits _ hmem

/-- Only the years from 1000 to 9999 are written as four digits. -/
theorem yearText_four (year : Int) :
    ((yearText year).length = 4 ∧ ∀ c ∈ yearText year, c.isDigit = true) ↔
      1000 ≤ year ∧ year ≤ 9999 := by
  unfold yearText
  by_cases hnegative : year < 0
  · rw [if_pos hnegative]
    constructor
    · rintro ⟨-, hall⟩
      exact absurd (hall '-' List.mem_cons_self) (by decide)
    · rintro ⟨hlow, -⟩
      omega
  · rw [if_neg hnegative]
    have hdigits : ∀ c ∈ Nat.toDigits 10 year.toNat, c.isDigit = true := fun c hc =>
      Nat.isDigit_of_mem_toDigits (by omega) (by omega) hc
    have hthree := Nat.length_toDigits_le_iff (b := 10) (n := year.toNat) (k := 3) (by omega)
      (by omega)
    have hfour := Nat.length_toDigits_le_iff (b := 10) (n := year.toNat) (k := 4) (by omega)
      (by omega)
    have hlength : (Nat.toDigits 10 year.toNat).length = 4 ↔ 1000 ≤ year ∧ year ≤ 9999 := by
      omega
    exact ⟨fun h => hlength.mp h.1, fun h => ⟨hlength.mpr h, hdigits⟩⟩

end TimeText

end PdsBackup
