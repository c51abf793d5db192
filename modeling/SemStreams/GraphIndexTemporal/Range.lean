import SemStreams.GraphIndexTemporal.Index
import SemStreams.Lib.Collect
import Mathlib.Data.Int.Range
/-!
# graph-index-temporal — range queries

A range query lists the buckets of the days, or of the months, of its range, reads the
hour off each key and keeps the events inside the range. The keys of minutes and hours
are found and read for every range. The key of a day has no hour: no filter selects it
and it cannot be read, so that with the resolution of a day no query finds anything.
-/

namespace SemStreams.GraphIndexTemporal

open List Function Option

open Calendar (Date)

/-! ## Queries -/

/-- `parseTimeBucketKey`: the second the bucket of a key begins with. -/
def parseTimeBucketKey (key : String) : Option ℤ := do
  let (year, cs) ← scanInt 4 key.toList
  let cs ← expect '.' cs
  let (month, cs) ← scanInt 2 cs
  let cs ← expect '.' cs
  let (day, cs) ← scanInt 2 cs
  let cs ← expect '.' cs
  let (hour, _) ← scanInt 2 cs
  return (Time.Clock.mk ⟨year, month, day⟩ hour 0 0).toSec

def dayFilter (date : Date) : String := joinTokens (dateParts date ++ [['>']])

/-- The filter of a month, the months being counted through. -/
def monthFilter (i : ℤ) : String := joinTokens [padded 4 (i / 12), padded 2 (i % 12 + 1), ['>']]

/-- The days of a range, rounded up. A duration is at most 2^63 - 1 nanoseconds. -/
def rangeDays (start stop : Time) : ℤ :=
  -(-(min (max (stop.nanos - start.nanos) (-2 ^ 63)) (2 ^ 63 - 1)) / 86400000000000)

/-- `generateTemporalPrefixes`: a filter for each day, or for each month if the range is
longer than 30 days. -/
def generateTemporalPrefixes (start stop : Time) : List String :=
  if rangeDays start stop ≤ 30 then
    (Int.range (start.sec / 86400) (stop.sec / 86400 + 1)).map fun d => dayFilter (Date.ofDays d)
  else
    (Int.range start.utc.date.monthIndex (stop.utc.date.monthIndex + 1)).map monthFilter

/-- The order in which the bucket lists keys. -/
structure Listing where
  keys : List String → List String
  keys_perm : ∀ l, (keys l).Perm l

structure TemporalResult where
  id : String
  type : String
deriving DecidableEq

inductive QueryError
  | invalidStart
  | invalidEnd
deriving DecidableEq

section Query

variable (o : Listing) (index : Index)

def Event.within (start stop : Time) (event : Event) : Bool :=
  match Time.parse event.timestamp with
  | none => false
  | some time => start.nanos ≤ time.nanos && time.nanos ≤ stop.nanos

/-- The events of a bucket, if the query looks at it. A bucket is taken to last an hour. -/
def bucketEvents (start stop : Time) (key : String) : List Event :=
  match parseTimeBucketKey key with
  | none => []
  | some sec =>
    if (sec + 3600) * 1000000000 < start.nanos ∨ stop.nanos < sec * 1000000000 then []
    else index.events key

def collectTemporalResults (keys : List String) (start stop : Time) (limit : ℕ) :
    List TemporalResult :=
  (collect Event.entity (Event.within start stop) limit
    (keys.flatMap (bucketEvents index start stop)) []).map fun event => ⟨event.entity, "entity"⟩

/-- The keys the query looks at. -/
def rangeKeys (start stop : Time) : List String :=
  (generateTemporalPrefixes start stop).flatMap fun filter =>
    o.keys (index.buckets.keys.filter (subjectSelects filter))

/-- `handleQueryRangeNATS`. -/
def handleQueryRange (startTime endTime : String) (limit : ℤ) :
    Except QueryError (List TemporalResult) :=
  match Time.parse startTime, Time.parse endTime with
  | none, _ => .error .invalidStart
  | _, none => .error .invalidEnd
  | some start, some stop =>
    .ok (collectTemporalResults index (rangeKeys o index start stop) start stop
      (if limit ≤ 0 then 100 else limit.toNat))

end Query

/-! ## Keys -/

section Keys

variable {res : Resolution} {ts : Time}

theorem not_dot_padded : '.' ∉ padded w i :=
  fun h => (mem_padded h).elim (by decide) (by decide)

theorem literal_padded : Literal (padded w i) := by
  constructor
  · intro h
    have hstar : '*' ∈ padded w i := by simp [h]
    exact (mem_padded hstar).elim (by decide) (by decide)
  · intro h
    have hrest : '>' ∈ padded w i := by simp [h]
    exact (mem_padded hrest).elim (by decide) (by decide)

variable {date : Date}

theorem literal_dateParts : ∀ part ∈ dateParts date, Literal part := by
  simp only [dateParts, forall_mem_cons, not_mem_nil, false_implies, implies_true, and_true]
  exact ⟨literal_padded, literal_padded, literal_padded⟩

theorem not_dot_dateParts : ∀ part ∈ dateParts date, '.' ∉ part := by
  simp only [dateParts, forall_mem_cons, not_mem_nil, false_implies, implies_true, and_true]
  exact ⟨not_dot_padded, not_dot_padded, not_dot_padded⟩

theorem tokens_calculateTimeBucket :
    tokens (calculateTimeBucket res ts) = dateParts ts.utc.date ++ res.clock ts.utc := by
  refine tokens_joinTokens (by simp [dateParts]) fun part hpart => ?_
  rcases mem_append.1 hpart with hdate | hclock
  · exact not_dot_dateParts part hdate
  cases res with
  | minute =>
    simp only [Resolution.clock, mem_cons, not_mem_nil, or_false] at hclock
    rcases hclock with rfl | rfl <;> exact not_dot_padded
  | hour =>
    rw [Resolution.clock, mem_singleton] at hclock
    exact hclock ▸ not_dot_padded
  | day => exact absurd hclock not_mem_nil

theorem selects_dayFilter : subjectSelects (dayFilter date) (calculateTimeBucket res ts) ↔
      ∃ rest, rest ≠ [] ∧ dateParts ts.utc.date ++ res.clock ts.utc = dateParts date ++ rest := by
  have htokens : tokens (dayFilter date) = dateParts date ++ [['>']] := by
    refine tokens_joinTokens (by simp) fun part hpart => ?_
    rcases mem_append.1 hpart with hdate | hlast
    · exact not_dot_dateParts part hdate
    · rw [mem_singleton.1 hlast]
      decide
  rw [subjectSelects, htokens, tokens_calculateTimeBucket, filterSelects_literals_rest literal_dateParts]

theorem selects_monthFilter (d : ℤ) (hd : ts.utc.date = Date.ofDays d) :
    subjectSelects (monthFilter (Date.ofDays d).monthIndex) (calculateTimeBucket res ts) := by
  have htokens : tokens (monthFilter (Date.ofDays d).monthIndex) =
      [padded 4 (Date.ofDays d).year, padded 2 (Date.ofDays d).month] ++ [['>']] := by
    rw [monthFilter, Calendar.monthIndex_year, Calendar.monthIndex_month]
    refine tokens_joinTokens (by simp) fun part hpart => ?_
    simp only [mem_cons, not_mem_nil, or_false] at hpart
    rcases hpart with rfl | rfl | rfl
    · exact not_dot_padded
    · exact not_dot_padded
    · decide
  rw [subjectSelects, htokens, tokens_calculateTimeBucket, filterSelects_literals_rest]
  · exact ⟨padded 2 (Date.ofDays d).day :: res.clock ts.utc, by simp, by rw [hd]; rfl⟩
  · intro part hpart
    simp only [mem_cons, not_mem_nil, or_false] at hpart
    rcases hpart with rfl | rfl <;> exact literal_padded

/-- **The filters of a range select the bucket of every time in it**, where the key of a
bucket has an hour. -/
theorem exists_filter (hres : res ≠ .day) (hstart : start.sec ≤ ts.sec)
    (hstop : ts.sec ≤ stop.sec) :
    ∃ filter ∈ generateTemporalPrefixes start stop,
      subjectSelects filter (calculateTimeBucket res ts) := by
  have hday : start.sec / 86400 ≤ ts.sec / 86400 ∧ ts.sec / 86400 ≤ stop.sec / 86400 := by omega
  unfold generateTemporalPrefixes
  split
  · refine ⟨_, List.mem_map.2 ⟨ts.sec / 86400, Int.mem_range_iff.2 ⟨hday.1, by omega⟩, rfl⟩, ?_⟩
    refine selects_dayFilter.2 ⟨res.clock ts.utc, ?_, rfl⟩
    cases res with
    | minute | hour => exact cons_ne_nil _ _
    | day => exact absurd rfl hres
  · refine ⟨_, List.mem_map.2 ⟨ts.utc.date.monthIndex, Int.mem_range_iff.2 ⟨?_, ?_⟩, rfl⟩, ?_⟩
    · exact Calendar.monthIndex_mono hday.1
    · have hmonth : ts.utc.date.monthIndex ≤ stop.utc.date.monthIndex :=
        Calendar.monthIndex_mono hday.2
      omega
    · exact selects_monthFilter (ts.sec / 86400) rfl

/-- The text of a bucket key, up to the day. -/
theorem toList_calculateTimeBucket : ∃ rest,
    (calculateTimeBucket res ts).toList = padded 4 ts.utc.date.year ++ '.' ::
      (padded 2 ts.utc.date.month ++ '.' :: (padded 2 ts.utc.date.day ++ rest)) ∧
    (res = .day → rest = []) ∧ (res ≠ .day → ∃ rest', rest = '.' :: (padded 2 ts.utc.hour ++ rest')) := by
  simp only [calculateTimeBucket, joinTokens, String.toList_ofList, dateParts, cons_append,
    nil_append, intercalate_cons_cons, append_assoc]
  cases res with
  | minute => simp [Resolution.clock, intercalate_cons_cons]
  | hour => simp [Resolution.clock, intercalate_cons_cons]
  | day => exact ⟨[], by simp [Resolution.clock], fun _ => rfl, fun h => absurd rfl h⟩

/-- A field of two digits is scanned back. -/
theorem scanInt_field (hlow : 0 ≤ i) (hhigh : i < 100) (rest : List Char) :
    scanInt 2 (padded 2 i ++ rest) = some (i, rest) :=
  scanInt_padded (by decide) (by omega) (by omega)

/-- **The key of a bucket is read back to the hour**, if it has one and the year has no
more than four digits. -/
theorem parseTimeBucketKey_calculateTimeBucket (hlow : -1000 < ts.utc.date.year) :
    parseTimeBucketKey (calculateTimeBucket res ts) =
      if res ≠ .day ∧ ts.utc.date.year ≤ 9999 then some (ts.sec - ts.sec % 3600) else none := by
  obtain ⟨hmonth, hday, hhour, -, -⟩ := Time.valid_ofSec ts.sec
  change 1 ≤ ts.utc.date.month ∧ ts.utc.date.month ≤ 12 at hmonth
  have hday31 := Int.le_trans hday.2 Calendar.daysIn_le
  change 1 ≤ ts.utc.date.day ∧ _ at hday
  change ts.utc.date.day ≤ 31 at hday31
  change 0 ≤ ts.utc.hour ∧ ts.utc.hour < 24 at hhour
  have hclock : (Time.Clock.mk ts.utc.date ts.utc.hour 0 0).toSec = ts.sec - ts.sec % 3600 := by
    simp only [Time.utc, Time.Clock.ofSec, Time.Clock.toSec, Calendar.toDays_ofDays]
    omega
  obtain ⟨rest, htext, hnone, hsome⟩ := @toList_calculateTimeBucket res ts
  rw [parseTimeBucketKey, htext]
  by_cases hlong : ts.utc.date.year ≤ 9999
  · have hyear : ∀ rest, scanInt 4 (padded 4 ts.utc.date.year ++ rest) = some (ts.utc.date.year, rest) :=
      fun rest => scanInt_padded (by decide) (by omega) (by omega)
    simp only [hyear, expect_cons, bind_eq_bind, bind_some,
      scanInt_field (show 0 ≤ ts.utc.date.month by omega) (by omega),
      scanInt_field (show 0 ≤ ts.utc.date.day by omega) (by omega)]
    by_cases hres : res = .day
    · rw [hnone hres, if_neg fun h => h.1 hres]
      rfl
    · obtain ⟨_, hrest⟩ := hsome hres
      rw [hrest, if_pos ⟨hres, hlong⟩]
      simp only [expect_cons, bind_some, scanInt_field hhour.1 (show ts.utc.hour < 100 by omega)]
      exact congrArg some hclock
  · obtain ⟨m, x, _, hread, hx⟩ := @scanInt_padded_long 4
      ('.' :: (padded 2 ts.utc.date.month ++ '.' :: (padded 2 ts.utc.date.day ++ rest)))
      ts.utc.date.year (by decide) (by omega)
    rw [hread, if_neg fun h => hlong h.2]
    simp [expect_digit hx (show '.'.isDigit = false by decide)]

end Keys

/-! ## What the queries ought to say -/

/-- A time in a range, to the second. -/
def Within (start stop ts : Time) : Prop := start.sec ≤ ts.sec ∧ ts.sec ≤ stop.sec

/-- **The query is exact**: it answers with the entities whose timestamp lies in the range,
each once. -/
def Exact (stamps : Stamps) (start stop : Time) (answer : Except QueryError (List TemporalResult)) :
    Prop :=
  ∃ results, answer = .ok results ∧ results.Nodup ∧
    ∀ r, r ∈ results ↔ r.type = "entity" ∧ ∃ ts, stamps r.id = some ts ∧ Within start stop ts

/-- A range with bounds of whole seconds, as they are written in a request. -/
structure Range where
  startText : String
  stopText : String
  start : Time
  stop : Time
  start_eq : Time.parse startText = some start
  stop_eq : Time.parse stopText = some stop
  start_whole : start.nsec = 0
  stop_whole : stop.nsec = 0
  start_le : start.sec ≤ stop.sec

/-- A time that some range contains. -/
def Addressable (ts : Time) : Prop := ∃ range : Range, Within range.start range.stop ts

/-- **A time the index can answer for**: its key has an hour, and both its key and its
text can be read. -/
def Legible (res : Resolution) (ts : Time) : Prop :=
  res ≠ .day ∧ ts.Written ∧ ts.utc.date.year ≤ 9999

variable {o : Listing} {res : Resolution} {index : Index} {stamps : Stamps} {range : Range}
  {ts : Time} {e : String}

theorem Range.nanos_start (range : Range) : range.start.nanos = range.start.sec * 1000000000 := by
  simp [Time.nanos, range.start_whole]

theorem Range.nanos_stop (range : Range) : range.stop.nanos = range.stop.sec * 1000000000 := by
  simp [Time.nanos, range.stop_whole]

/-- An event is kept if its text can be read and its time is in the range. -/
theorem within_format {event : Event} (h : event.timestamp = ts.format) :
    event.within range.start range.stop ↔ ts.Written ∧ Within range.start range.stop ts := by
  rw [Event.within, h, Time.parse_format]
  by_cases hwritten : ts.Written
  · obtain ⟨time, htime⟩ : ∃ time : Time, time = ⟨ts.sec, 0, ts.zone, by decide⟩ := ⟨_, rfl⟩
    have hnanos : time.nanos = ts.sec * 1000000000 := by simp [htime, Time.nanos]
    rw [if_pos hwritten, ← htime]
    show (decide (range.start.nanos ≤ time.nanos) && decide (time.nanos ≤ range.stop.nanos)) ↔ _
    rw [hnanos, range.nanos_start, range.nanos_stop]
    simp only [Bool.and_eq_true, decide_eq_true_eq, hwritten, true_and, Within]
    omega
  · simp [hwritten]

/-- The events a query looks at: those of the buckets whose keys can be read and that
meet the range. -/
theorem mem_bucketEvents :
    event ∈ bucketEvents index range.start range.stop key ↔
      event ∈ index.events key ∧ ∃ sec, parseTimeBucketKey key = some sec ∧
        range.start.sec ≤ sec + 3600 ∧ sec ≤ range.stop.sec := by
  unfold bucketEvents
  cases parseTimeBucketKey key with
  | none => simp
  | some sec =>
    dsimp only
    rw [range.nanos_start, range.nanos_stop]
    split_ifs with hout
    · simp only [not_mem_nil, Option.some.injEq, exists_eq_left', false_iff, not_and]
      omega
    · simp only [Option.some.injEq, exists_eq_left', iff_self_and]
      omega

theorem mem_keys_of_mem_events (h : event ∈ index.events key) :
    key ∈ index.buckets.keys := by
  by_contra hkey
  rw [Index.events, AList.lookup_eq_none.2 hkey] at h
  exact not_mem_nil h

def rows (o : Listing) (index : Index) (range : Range) : List Event :=
  (rangeKeys o index range.start range.stop).flatMap (bucketEvents index range.start range.stop)

/-- **An event is read and kept** exactly if it is of a time in the range that the index
can answer for. -/
theorem mem_rows_iff (h : Represents res index stamps) {event : Event} :
    event ∈ rows o index range ∧ event.within range.start range.stop ↔
      ∃ ts, stamps event.entity = some ts ∧ event.timestamp = ts.format ∧ Legible res ts ∧
        Within range.start range.stop ts := by
  constructor
  · rintro ⟨hmem, hkept⟩
    obtain ⟨key, -, hread⟩ := mem_flatMap.1 hmem
    obtain ⟨hevent, _, hparse, -⟩ := mem_bucketEvents.1 hread
    obtain ⟨ts, hts, rfl, htext⟩ := (h.events key event).1 hevent
    obtain ⟨hwritten, hwithin⟩ := (within_format htext).1 hkept
    rw [parseTimeBucketKey_calculateTimeBucket hwritten.year_utc] at hparse
    split at hparse
    · next hkey => exact ⟨ts, hts, htext, ⟨hkey.1, hwritten, hkey.2⟩, hwithin⟩
    · cases hparse
  · rintro ⟨ts, hts, htext, ⟨hres, hwritten, hyear⟩, hwithin⟩
    have hevent : event ∈ index.events (calculateTimeBucket res ts) :=
      (h.events _ event).2 ⟨ts, hts, rfl, htext⟩
    have hparse := @parseTimeBucketKey_calculateTimeBucket res ts hwritten.year_utc
    rw [if_pos ⟨hres, hyear⟩] at hparse
    obtain ⟨hstart, hstop⟩ := hwithin
    obtain ⟨filter, hfilter, hselects⟩ := exists_filter hres hstart hstop
    have hlisted : calculateTimeBucket res ts ∈ rangeKeys o index range.start range.stop :=
      mem_flatMap.2 ⟨filter, hfilter, (o.keys_perm _).mem_iff.2
        (mem_filter.2 ⟨mem_keys_of_mem_events hevent, hselects⟩)⟩
    refine ⟨mem_flatMap.2 ⟨_, hlisted, ?_⟩, (within_format htext).2 ⟨hwritten, hstart, hstop⟩⟩
    exact mem_bucketEvents.2 ⟨hevent, _, hparse, by omega, by omega⟩

/-- **An entity is answered** exactly if the index holds a time for it that it can answer
for, in the range. -/
theorem mem_answer_iff (h : Represents res index stamps) {ids : List String} {limit : ℕ}
    (hids : ∀ e, (stamps e).isSome → e ∈ ids) (hlimit : ids.length ≤ limit) :
    (∃ event ∈ collect Event.entity (Event.within range.start range.stop) limit
      (rows o index range) [], event.entity = e) ↔
      ∃ ts, stamps e = some ts ∧ Legible res ts ∧ Within range.start range.stop ts := by
  constructor
  · rintro ⟨event, hmem, rfl⟩
    rcases mem_of_mem_collect hmem with hnil | hrow
    · exact absurd hnil not_mem_nil
    · obtain ⟨ts, hts, -, hlegible, hwithin⟩ := (mem_rows_iff h).1 hrow
      exact ⟨ts, hts, hlegible, hwithin⟩
  · rintro ⟨ts, hts, hlegible, hwithin⟩
    obtain ⟨hmem, hkept⟩ := (@mem_rows_iff o res index stamps range h ⟨e, ts.format⟩).2
      ⟨ts, hts, rfl, hlegible, hwithin⟩
    refine exists_mem_collect hlimit (fun event hevent => ?_) hmem hkept
    obtain ⟨key, -, hread⟩ := mem_flatMap.1 hevent
    obtain ⟨_, hts', -⟩ := (h.events key event).1 (mem_bucketEvents.1 hread).1
    exact hids _ (by rw [hts']; rfl)

theorem handleQueryRange_eq (limit : ℤ) :
    handleQueryRange o index range.startText range.stopText limit =
      .ok ((collect Event.entity (Event.within range.start range.stop)
        (if limit ≤ 0 then 100 else limit.toNat) (rows o index range) []).map
          fun event => ⟨event.entity, "entity"⟩) := by
  rw [handleQueryRange, range.start_eq, range.stop_eq]
  rfl

/-- **A query answers from the times the index holds and can answer for.** -/
theorem exact_iff (h : Represents res index stamps) {ids : List String} {limit : ℤ} {now : Stamps}
    (hids : ∀ e, (stamps e).isSome → e ∈ ids) (hlimit : (ids.length : ℤ) ≤ limit) :
    Exact now range.start range.stop (handleQueryRange o index range.startText range.stopText limit) ↔
      ∀ e, (∃ ts, stamps e = some ts ∧ Legible res ts ∧ Within range.start range.stop ts) ↔
        ∃ ts, now e = some ts ∧ Within range.start range.stop ts := by
  have hcount : ids.length ≤ if limit ≤ 0 then 100 else limit.toNat := by
    split <;> omega
  rw [handleQueryRange_eq]
  generalize (if limit ≤ 0 then 100 else limit.toNat) = count at hcount ⊢
  have hanswer := fun e => @mem_answer_iff o res index stamps range e h ids count hids hcount
  have hnodup : ((collect Event.entity (Event.within range.start range.stop) count
      (rows o index range) []).map Event.entity).Nodup := nodup_collect nodup_nil
  generalize collect Event.entity (Event.within range.start range.stop) count (rows o index range) [] =
    found at hanswer hnodup ⊢
  have hmem : ∀ e, (⟨e, "entity"⟩ : TemporalResult) ∈ found.map (fun event => ⟨event.entity, "entity"⟩) ↔
      ∃ event ∈ found, event.entity = e := by
    simp
  constructor
  · rintro ⟨_, hresults, -, hexact⟩ e
    rw [← hanswer, ← hmem, Except.ok.inj hresults, hexact]
    simp
  · intro hsame
    refine ⟨_, rfl, ?_, fun r => ?_⟩
    · have hids' : (found.map fun event => (⟨event.entity, "entity"⟩ : TemporalResult)) =
          (found.map Event.entity).map fun e => ⟨e, "entity"⟩ := by simp
      rw [hids']
      exact hnodup.map fun a b hab => congrArg TemporalResult.id hab
    · obtain ⟨e, type⟩ := r
      by_cases htype : type = "entity"
      · rw [htype, hmem, hanswer, hsame]
        simp
      · simp [htype, Ne.symm htype]

/-- **Range queries are exact for every range exactly if the index can answer for every
entity**: each time that an entity has now, and a range can contain, is legible, and no
legible time is left of an entity that has none now. -/
theorem range_exact_iff (o : Listing) (number : String → Option ℤ) (res : Resolution)
    (changes : List Change) :
    (∀ (range : Range) (limit : ℤ), ((existing changes).length : ℤ) ≤ limit →
      Exact (currentStamps number changes) range.start range.stop
        (handleQueryRange o (indexOf number res changes) range.startText range.stopText limit)) ↔
      ∀ e ts, Addressable ts →
        (currentStamps number changes e = some ts → Legible res ts) ∧
        (currentStamps number changes e = none → indexedStamps number changes e = some ts →
          ¬ Legible res ts) := by
  have hrep := @represents_indexOf res number changes
  have hids := fun e => @isSome_indexedStamps number e changes
  constructor
  · rintro h e ts ⟨range, hwithin⟩
    have hanswer := (exact_iff hrep hids (Int.le_refl _)).1 (h range _ (Int.le_refl _)) e
    constructor
    · intro hnow
      obtain ⟨ts', hts', hlegible, -⟩ := hanswer.2 ⟨ts, hnow, hwithin⟩
      rw [indexedStamps_of_current hnow, Option.some.injEq] at hts'
      exact hts' ▸ hlegible
    · intro hnone hold hlegible
      obtain ⟨ts', hts', -⟩ := hanswer.1 ⟨ts, hold, hlegible, hwithin⟩
      rw [hnone] at hts'
      cases hts'
  · intro h range limit hlimit
    refine (exact_iff hrep hids hlimit).2 fun e => ⟨?_, ?_⟩
    · rintro ⟨ts, hold, hlegible, hwithin⟩
      cases hnow : currentStamps number changes e with
      | none => exact absurd hlegible ((h e ts ⟨range, hwithin⟩).2 hnow hold)
      | some ts' =>
        have heq := indexedStamps_of_current hnow
        rw [hold, Option.some.injEq] at heq
        exact ⟨ts', rfl, heq ▸ hwithin⟩
    · rintro ⟨ts, hnow, hwithin⟩
      exact ⟨ts, indexedStamps_of_current hnow, (h e ts ⟨range, hwithin⟩).1 hnow, hwithin⟩

/-- A sighting of a drone, at ten in the morning. -/
def sighting : Entry where
  key := "drone"
  state :=
    { id := "drone"
      triples := [
        { subject := "drone", predicate := "time.observation.recorded",
          object := .text "2024-01-15T10:00:00Z" }]
      storageRef := none
      messageType := ⟨"robotics", "drone", "v1"⟩
      version := 1
      updatedAt := 1 }
  id_eq := rfl
  key_ne := by decide

def sightingDay : Range where
  startText := "2024-01-15T00:00:00Z"
  stopText := "2024-01-16T00:00:00Z"
  start := .unix 1705276800
  stop := .unix 1705363200
  start_eq := by decide +kernel
  stop_eq := by decide +kernel
  start_whole := rfl
  stop_whole := rfl
  start_le := by decide

/-- Keys in the order they are stored in. -/
def Listing.stored : Listing := ⟨id, .refl⟩

/-- By the hour the sighting is found. -/
theorem range_exact_hourly :
    Exact (currentStamps (fun _ => none) [.update sighting]) sightingDay.start sightingDay.stop
      (handleQueryRange .stored (indexOf (fun _ => none) .hour [.update sighting])
        sightingDay.startText sightingDay.stopText 1) := by
  have hresolve : resolveIndexTimestamp (fun _ => none) sighting.state =
      some (.unix 1705312800) := by
    decide +kernel
  refine (range_exact_iff .stored (fun _ => none) .hour [.update sighting]).2 ?_ sightingDay 1
    (by decide +kernel)
  intro e ts _
  have hstamps : currentStamps (fun _ => none) [.update sighting] =
      indexedStamps (fun _ => none) [.update sighting] := by
    simp [currentStamps, indexedStamps, Stamps.current, Stamps.indexed, hresolve]
  constructor
  · intro hnow
    have hts : ts = .unix 1705312800 := by
      simp only [currentStamps, foldl_cons, foldl_nil, Stamps.current, hresolve] at hnow
      by_cases he : e = sighting.key
      · rw [he, update_self, Option.some.injEq] at hnow
        exact hnow.symm
      · rw [update_of_ne he] at hnow
        cases hnow
    rw [hts]
    exact ⟨by decide, by decide +kernel, by decide +kernel⟩
  · intro hnone hold
    rw [hstamps, hold] at hnone
    cases hnone

/-- **By the day it is not.** -/
theorem day_bucket_lost :
    currentStamps (fun _ => none) [.update sighting] "drone" = some (.unix 1705312800) ∧
    sightingDay.start.sec ≤ 1705312800 ∧ 1705312800 ≤ sightingDay.stop.sec ∧
    handleQueryRange .stored (indexOf (fun _ => none) .day [.update sighting])
      sightingDay.startText sightingDay.stopText 1 = .ok [] := by
  refine ⟨by decide +kernel, by decide +kernel, by decide +kernel, ?_⟩
  exact congrArg Except.ok (by decide +kernel)

end SemStreams.GraphIndexTemporal
