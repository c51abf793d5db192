import SemStreams.Lib.Calendar
import SemStreams.Lib.Decimal
/-!
# Timestamps

A time is a number of seconds since the epoch with a fraction, and the zone it is
written in. Its text has fixed places:

    2006-01-02T15:04:05+07:00

with `Z` for the zone of UTC. The writer drops the fraction. What it writes is read
back to the second if the year has four digits and the zone is less than 25 hours;
anything else it writes cannot be read.
-/

namespace SemStreams

open Calendar List Option

/-- An instant, and the zone in minutes it is written in. -/
structure Time where
  sec : ℤ
  nsec : ℕ
  zone : ℤ
  nsec_lt : nsec < 1000000000
deriving DecidableEq

namespace Time

/-- Nanoseconds since the epoch. -/
def nanos (t : Time) : ℤ := t.sec * 1000000000 + t.nsec

/-- A whole second of UTC. -/
def unix (sec : ℤ) : Time := ⟨sec, 0, 0, by decide⟩

/-! ## The clock -/

/-- The date and the time of day of a second. -/
structure Clock where
  date : Date
  hour : ℤ
  minute : ℤ
  second : ℤ

def Clock.ofSec (sec : ℤ) : Clock :=
  ⟨Date.ofDays (sec / 86400), sec % 86400 / 3600, sec % 3600 / 60, sec % 60⟩

def Clock.toSec (c : Clock) : ℤ := c.date.toDays * 86400 + c.hour * 3600 + c.minute * 60 + c.second

/-- What the clock shows in UTC. -/
def utc (t : Time) : Clock := Clock.ofSec t.sec

/-- What the clock shows in the zone of the time. -/
def wall (t : Time) : Clock := Clock.ofSec (t.sec + 60 * t.zone)

/-! ## Texts -/

/-- A number of the writer, in at least so many digits. -/
def appendInt (w : ℕ) (i : ℤ) : List Char :=
  (if i < 0 then ['-'] else []) ++ fixed w i.natAbs

def formatZone (zone : ℤ) : List Char :=
  if zone = 0 then ['Z']
  else (if zone < 0 then '-' else '+') ::
    (fixed 2 (zone.natAbs / 60) ++ ':' :: fixed 2 (zone.natAbs % 60))

def format (t : Time) : String :=
  String.ofList (appendInt 4 t.wall.date.year ++ '-' :: (appendInt 2 t.wall.date.month ++ '-' ::
    (appendInt 2 t.wall.date.day ++ 'T' :: (appendInt 2 t.wall.hour ++ ':' ::
    (appendInt 2 t.wall.minute ++ ':' :: (appendInt 2 t.wall.second ++ formatZone t.zone))))))

/-- Reads an hour, of one digit or two. -/
def readHour (cs : List Char) : Option (ℕ × List Char) := (readFixed 2 cs).or (readFixed 1 cs)

/-- Reads a fraction of a second, if there is one; what is finer than a nanosecond is
dropped. -/
def readFraction (cs : List Char) : ℕ × List Char :=
  match cs with
  | [] => (0, [])
  | c :: cs' =>
    let digits := cs'.takeWhile Char.isDigit
    if (c = '.' ∨ c = ',') ∧ digits ≠ [] then
      (Nat.ofDigitChars 10 (digits.take 9) 0 * 10 ^ (9 - digits.length), cs'.drop digits.length)
    else (0, c :: cs')

def readSign (c : Char) : Option ℤ :=
  if c = '+' then some 1 else if c = '-' then some (-1) else none

/-- Reads a zone, to the end of the text. -/
def readZone : List Char → Option ℤ
  | [] => none
  | c :: cs =>
    if c = 'Z' then if cs = [] then some 0 else none
    else do
      let sign ← readSign c
      let (hour, cs) ← readFixed 2 cs
      let cs ← expect ':' cs
      let (minute, cs) ← readFixed 2 cs
      if cs = [] ∧ hour ≤ 24 ∧ minute ≤ 60 then some (sign * (hour * 60 + minute : ℕ)) else none

theorem readFraction_lt (cs : List Char) : (readFraction cs).1 < 1000000000 := by
  unfold readFraction
  split
  · decide
  next c cs' =>
  dsimp only
  split
  · have hdigits : ∀ x ∈ (cs'.takeWhile Char.isDigit).take 9, x.isDigit :=
      fun x hx => mem_takeWhile_imp (mem_of_mem_take hx)
    have hlt := ofDigitChars_lt hdigits 0
    generalize cs'.takeWhile Char.isDigit = digits at hlt ⊢
    rw [length_take, Nat.zero_add, Nat.mul_one] at hlt
    calc Nat.ofDigitChars 10 (digits.take 9) 0 * 10 ^ (9 - digits.length)
        < 10 ^ min 9 digits.length * 10 ^ (9 - digits.length) :=
          Nat.mul_lt_mul_of_pos_right hlt (by positivity)
      _ = 1000000000 := by
          rw [← Nat.pow_add, show min 9 digits.length + (9 - digits.length) = 9 by omega]
  · exact Nat.zero_lt_succ _

/-- Reads what follows the year. -/
def parseRest (year : ℕ) (cs : List Char) : Option Time := do
  let cs ← expect '-' cs
  let (month, cs) ← readFixed 2 cs
  let cs ← expect '-' cs
  let (day, cs) ← readFixed 2 cs
  let cs ← expect 'T' cs
  let (hour, cs) ← readHour cs
  let cs ← expect ':' cs
  let (minute, cs) ← readFixed 2 cs
  let cs ← expect ':' cs
  let (second, cs) ← readFixed 2 cs
  let zone ← readZone (readFraction cs).2
  if 1 ≤ month ∧ month ≤ 12 ∧ 1 ≤ day ∧ (day : ℤ) ≤ daysIn year month ∧ hour < 24 ∧ minute < 60 ∧
      second < 60 then
    some ⟨(Clock.mk ⟨year, month, day⟩ hour minute second).toSec - 60 * zone,
      (readFraction cs).1, zone, readFraction_lt cs⟩
  else none

def parse (text : String) : Option Time := do
  let (year, cs) ← readFixed 4 text.toList
  parseRest year cs

/-! ## The clock reads back -/

/-- A date that exists and a time of day. -/
structure Clock.Valid (c : Clock) : Prop where
  month : 1 ≤ c.date.month ∧ c.date.month ≤ 12
  day : 1 ≤ c.date.day ∧ c.date.day ≤ daysIn c.date.year c.date.month
  hour : 0 ≤ c.hour ∧ c.hour < 24
  minute : 0 ≤ c.minute ∧ c.minute < 60
  second : 0 ≤ c.second ∧ c.second < 60

variable (sec : ℤ)

theorem valid_ofSec : (Clock.ofSec sec).Valid where
  month := month_ofDays _
  day := day_ofDays _
  hour := by
    simp only [Clock.ofSec]
    omega
  minute := by
    simp only [Clock.ofSec]
    omega
  second := by
    simp only [Clock.ofSec]
    omega

theorem toSec_ofSec : (Clock.ofSec sec).toSec = sec := by
  simp only [Clock.ofSec, Clock.toSec, toDays_ofDays]
  omega

/-! ## Texts read back -/

/-- **What is written can be read**: the year has four digits, and the zone is one the
reader takes. -/
def Written (t : Time) : Prop :=
  0 ≤ t.wall.date.year ∧ t.wall.date.year ≤ 9999 ∧ t.zone.natAbs < 1500

instance (t : Time) : Decidable t.Written := inferInstanceAs (Decidable (_ ∧ _))

variable {rest : List Char} {zone : ℤ} {i : ℤ}

theorem appendInt_nonneg {w : ℕ} (h : 0 ≤ i) : appendInt w i = fixed w i.natAbs := by
  rw [appendInt, if_neg (by omega), nil_append]

/-- A field of two digits is read back. -/
theorem readFixed_appendInt (h : 0 ≤ i) (hlt : i < 100) :
    readFixed 2 (appendInt 2 i ++ rest) = some (i.natAbs, rest) := by
  rw [appendInt_nonneg h]
  exact readFixed_fixed (by decide) (show i.natAbs < 100 by omega)

/-- A zone is read as its hours and minutes are. -/
theorem readZone_signed (hc : c ≠ 'Z') (hsign : readSign c = some sign)
    (habs : sign * (zone.natAbs : ℤ) = zone) :
    readZone (c :: (fixed 2 (zone.natAbs / 60) ++ ':' :: fixed 2 (zone.natAbs % 60))) =
      if zone.natAbs < 1500 then some zone else none := by
  have hminute : readFixed 2 (fixed 2 (zone.natAbs % 60)) = some (zone.natAbs % 60, []) := by
    have hread := @readFixed_fixed 2 (zone.natAbs % 60) [] (by decide) (show _ < 100 by omega)
    rwa [append_nil] at hread
  by_cases hlong : zone.natAbs / 60 < 100
  · have hhour : ∀ rest, readFixed 2 (fixed 2 (zone.natAbs / 60) ++ rest) =
        some (zone.natAbs / 60, rest) :=
      fun rest => readFixed_fixed (by decide) hlong
    have hsum : zone.natAbs / 60 * 60 + zone.natAbs % 60 = zone.natAbs := by omega
    have hlimit : (zone.natAbs / 60 ≤ 24 ∧ zone.natAbs % 60 ≤ 60) ↔ zone.natAbs < 1500 := by omega
    simp only [readZone, if_neg hc, hsign, hhour, hminute, expect_cons, bind_eq_bind,
      bind_some, hsum, hlimit, habs, true_and]
  · -- three digits of hours: no colon after the second
    obtain ⟨m, x, _, hread, hx⟩ := @readFixed_long 2 (zone.natAbs / 60)
      (':' :: fixed 2 (zone.natAbs % 60)) (by decide) (by omega)
    simp only [readZone, if_neg hc, hsign, hread, bind_eq_bind, bind_some,
      expect_digit hx (show ':'.isDigit = false by decide), bind_none]
    rw [if_neg (by omega)]

/-- **A zone is read back below 25 hours**, and not from there on. -/
theorem readZone_formatZone (zone : ℤ) :
    readZone (formatZone zone) = if zone.natAbs < 1500 then some zone else none := by
  unfold formatZone
  split
  · next hzero =>
    subst hzero
    rfl
  · split
    · exact readZone_signed (by decide) (show readSign '-' = some (-1) by decide) (by omega)
    · exact readZone_signed (by decide) (show readSign '+' = some 1 by decide) (by omega)

theorem readFraction_formatZone : readFraction (formatZone zone) = (0, formatZone zone) := by
  have hnone : ∀ c cs, c ≠ '.' → c ≠ ',' → readFraction (c :: cs) = (0, c :: cs) :=
    fun c cs hdot hcomma => if_neg fun h => h.1.elim hdot hcomma
  unfold formatZone
  split
  · exact hnone _ _ (by decide) (by decide)
  · split <;> exact hnone _ _ (by decide) (by decide)

variable (t : Time) {c : Clock}

/-- The text behind the year. -/
def formatRest (c : Clock) (zone : ℤ) : List Char :=
  '-' :: (appendInt 2 c.date.month ++ '-' :: (appendInt 2 c.date.day ++ 'T' ::
    (appendInt 2 c.hour ++ ':' :: (appendInt 2 c.minute ++ ':' ::
    (appendInt 2 c.second ++ formatZone zone)))))

theorem toList_format : t.format.toList = appendInt 4 t.wall.date.year ++ formatRest t.wall t.zone := by
  rw [format, String.toList_ofList, formatRest]

theorem parseRest_formatRest (hc : c.Valid) {year : ℕ} (hyear : (year : ℤ) = c.date.year) :
    parseRest year (formatRest c zone) =
      if zone.natAbs < 1500 then some ⟨c.toSec - 60 * zone, 0, zone, by decide⟩ else none := by
  obtain ⟨_, hday, hhour, hminute, hsecond⟩ := hc
  have hday31 : c.date.day ≤ 31 := Int.le_trans hday.2 daysIn_le
  have hreadHour : ∀ rest, readHour (appendInt 2 c.hour ++ rest) = some (c.hour.natAbs, rest) := by
    intro rest
    rw [readHour, readFixed_appendInt hhour.1 (by omega), some_or]
  have hnat : ∀ {i : ℤ}, 0 ≤ i → ((i.natAbs : ℕ) : ℤ) = i := fun h => by omega
  have hsame : Clock.mk ⟨c.date.year, c.date.month, c.date.day⟩ c.hour c.minute c.second = c := rfl
  simp only [parseRest, formatRest, expect_cons, hreadHour, readFraction_formatZone,
    readZone_formatZone, bind_eq_bind, bind_some, hyear,
    readFixed_appendInt (show 0 ≤ c.date.month by omega) (show c.date.month < 100 by omega),
    readFixed_appendInt (show 0 ≤ c.date.day by omega) (show c.date.day < 100 by omega),
    readFixed_appendInt hminute.1 (show c.minute < 100 by omega),
    readFixed_appendInt hsecond.1 (show c.second < 100 by omega),
    hnat (show 0 ≤ c.date.month by omega), hnat (show 0 ≤ c.date.day by omega), hnat hhour.1,
    hnat hminute.1, hnat hsecond.1, hsame]
  split
  · refine if_pos ⟨?_, ?_, ?_, hday.2, ?_, ?_, ?_⟩ <;> omega
  · rfl

/-- **What is written is read back to the second**, or not at all. -/
theorem parse_format : parse t.format =
    if t.Written then some ⟨t.sec, 0, t.zone, by decide⟩ else none := by
  have hvalid : t.wall.Valid := valid_ofSec _
  have hsec : t.wall.toSec - 60 * t.zone = t.sec := by
    rw [wall, toSec_ofSec]
    omega
  rw [parse, toList_format]
  by_cases hneg : t.wall.date.year < 0
  · have hread : readFixed 4 (appendInt 4 t.wall.date.year ++ formatRest t.wall t.zone) = none := by
      rw [appendInt, if_pos hneg]
      simp [readFixed]
    rw [hread, if_neg fun h => absurd h.1 (by omega)]
    rfl
  · rw [appendInt_nonneg (by omega)]
    by_cases hlong : t.wall.date.year ≤ 9999
    · rw [readFixed_fixed (by decide) (show _ < 10000 by omega)]
      show parseRest t.wall.date.year.natAbs (formatRest t.wall t.zone) = _
      rw [parseRest_formatRest hvalid (by omega), hsec]
      have hwritten : t.Written ↔ t.zone.natAbs < 1500 :=
        ⟨fun h => h.2.2, fun h => ⟨by omega, hlong, h⟩⟩
      simp only [hwritten]
    · obtain ⟨m, x, cs, hread, hx⟩ := @readFixed_long 4 t.wall.date.year.natAbs
        (formatRest t.wall t.zone) (by decide) (show 10000 ≤ _ by omega)
      rw [hread, if_neg fun h => absurd h.2.1 hlong]
      show parseRest m (x :: cs) = none
      simp [parseRest, expect_digit hx (show '-'.isDigit = false by decide)]

/-- The year of UTC is not far from the year that is written. -/
theorem Written.year_utc {t : Time} (h : t.Written) : -1000 < t.utc.date.year := by
  obtain ⟨hyear, -, _⟩ := h
  change 0 ≤ yearOf ((t.sec + 60 * t.zone) / 86400 + epoch) at hyear
  obtain ⟨_, -⟩ := yearOf_spec ((t.sec + 60 * t.zone) / 86400 + epoch)
  have hfirst : -366 ≤ daysBeforeYear (yearOf ((t.sec + 60 * t.zone) / 86400 + epoch)) := by
    rcases Int.lt_or_eq_of_le hyear with hpos | hzero
    · have hlater := daysBeforeYear_mono hpos
      have hone : daysBeforeYear (0 + 1) = 0 := by decide
      omega
    · rw [← hzero]
      decide
  have hmono : yearOf (-400) ≤ yearOf (t.sec / 86400 + epoch) := yearOf_mono (by omega)
  have hearly : yearOf (-400) = -1 := by decide
  change -1000 < yearOf (t.sec / 86400 + epoch)
  omega

end Time

end SemStreams
