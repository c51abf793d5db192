import SemStreams.Lib.Splice
import SemStreams.Lib.Hex
import Mathlib.Data.Rat.Lemmas
/-!
# agentic-governance — redaction of personal data

`Process` looks for matches of every enabled pattern, sorts them by where they start, the
last first, and splices a replacement in for each. The offsets are those of the text as it
came. So matches that do not overlap are safe, and so is a mask of one byte; where they do,
`process_exact_iff` says when they are, by the spans and the lengths of the replacements.

A text is its bytes, as offsets are. A regular expression is what it finds.
-/

namespace SemStreams.AgenticGovernance

open List Option

abbrev Text := List UInt8

def bytes (s : String) : Text := s.toUTF8.data.toList

/-- The strategies by name; any other name is treated as `label`. -/
inductive RedactionStrategy where
  | mask
  | hash
  | remove
  | label
  | other (name : String)
deriving DecidableEq

/-- A match in a text of `n` bytes. -/
structure Match (n : ℕ) where
  start : ℕ
  stop : ℕ
  le : start ≤ stop
  stop_le : stop ≤ n

/-- `PIIPattern`: `findAll` is the regular expression's `FindAllStringSubmatchIndex`. -/
structure PIIPattern where
  findAll : (text : Text) → List (Match text.length)
  validator : Option (Text → Bool)
  replacement : Text
  confidence : ℚ

/-- `PIIFilter`, its patterns in the order the map is iterated. -/
structure PIIFilter where
  patterns : List (String × PIIPattern)
  nodup : (patterns.map Prod.fst).Nodup
  strategy : RedactionStrategy
  maskChar : Text
  allowedPII : List String
  confidenceThreshold : ℚ

structure PIIDetection where
  type : String
  value : Text
  start : ℕ
  stop : ℕ
  confidence : ℚ
  le : start ≤ stop

/-- What the filter takes from the standard library: `strings.ToUpper` and SHA-256. -/
structure GoLib where
  toUpper : String → String
  sha256 : Text → List UInt8

/-! ## Sorting -/

/-- One pass of the outer loop: whatever starts later than the detection in hand is taken in
its place. -/
def sweep : PIIDetection → List PIIDetection → PIIDetection × List PIIDetection
  | d, [] => (d, [])
  | d, d' :: rest =>
    if d.start < d'.start then ((sweep d' rest).1, d :: (sweep d' rest).2)
    else ((sweep d rest).1, d' :: (sweep d rest).2)

/-- The outer loop, over at most `n` detections. -/
def sweeps : ℕ → List PIIDetection → List PIIDetection
  | _, [] => []
  | 0, ds => ds
  | n + 1, d :: ds => (sweep d ds).1 :: sweeps n (sweep d ds).2

def sortDetectionsByPosition (detected : List PIIDetection) : List PIIDetection :=
  sweeps detected.length detected

theorem sweep_perm (d : PIIDetection) (ds : List PIIDetection) :
    ((sweep d ds).1 :: (sweep d ds).2).Perm (d :: ds) := by
  induction ds generalizing d with
  | nil => rfl
  | cons d' rest ih =>
    rw [sweep]
    split
    · exact (List.Perm.swap _ _ _).trans ((ih d').cons d)
    · exact (List.Perm.swap _ _ _).trans (((ih d).cons d').trans (List.Perm.swap _ _ _))

theorem start_le_sweep (d : PIIDetection) (ds : List PIIDetection) :
    d.start ≤ (sweep d ds).1.start ∧ ∀ d' ∈ (sweep d ds).2, d'.start ≤ (sweep d ds).1.start := by
  induction ds generalizing d with
  | nil => exact ⟨Nat.le_refl _, nofun⟩
  | cons d' rest ih =>
    rw [sweep]
    split
    · next hlt =>
      obtain ⟨hhead, hrest⟩ := ih d'
      refine ⟨hlt.le.trans hhead, fun x hx => ?_⟩
      rcases mem_cons.1 hx with rfl | hx
      · exact hlt.le.trans hhead
      · exact hrest x hx
    · next hge =>
      obtain ⟨hhead, hrest⟩ := ih d
      refine ⟨hhead, fun x hx => ?_⟩
      rcases mem_cons.1 hx with rfl | hx
      · exact (Nat.le_of_not_lt hge).trans hhead
      · exact hrest x hx

theorem sweeps_perm (n : ℕ) (ds : List PIIDetection) : (sweeps n ds).Perm ds := by
  induction n generalizing ds with
  | zero => cases ds <;> rfl
  | succ n ih =>
    cases ds with
    | nil => rfl
    | cons d ds => exact ((ih _).cons _).trans (sweep_perm d ds)

theorem sweeps_pairwise (h : ds.length ≤ n) :
    (sweeps n ds).Pairwise fun d d' => d'.start ≤ d.start := by
  induction n generalizing ds with
  | zero =>
    cases eq_nil_of_length_eq_zero (Nat.le_zero.1 h)
    exact List.Pairwise.nil
  | succ n ih =>
    cases ds with
    | nil => exact List.Pairwise.nil
    | cons d ds =>
      have hlength : (sweep d ds).2.length ≤ n := by
        have := (sweep_perm d ds).length_eq
        simp only [length_cons] at this h
        omega
      refine pairwise_cons.2 ⟨fun d' hd' => ?_, ih hlength⟩
      exact (start_le_sweep d ds).2 d' ((sweeps_perm n _).subset hd')

variable (ds : List PIIDetection)

theorem sortDetectionsByPosition_perm : (sortDetectionsByPosition ds).Perm ds := sweeps_perm _ _

/-- **Sorted, the last start first.** -/
theorem sortDetectionsByPosition_pairwise :
    (sortDetectionsByPosition ds).Pairwise fun d d' => d'.start ≤ d.start :=
  sweeps_pairwise (Nat.le_refl _)

/-! ## Detection and redaction -/

namespace PIIFilter

variable (lib : GoLib) (f : PIIFilter)

def isAllowed (piiType : String) : Bool := piiType ∈ f.allowedPII

/-- What the loop over the matches of one pattern appends. -/
def detectMatch (text : Text) (piiType : String) (pattern : PIIPattern) (m : Match text.length) :
    Option PIIDetection :=
  let value := (text.take m.stop).drop m.start
  if pattern.validator.any fun valid => !valid value then none
  else if pattern.confidence < f.confidenceThreshold then none
  else some ⟨piiType, value, m.start, m.stop, pattern.confidence, m.le⟩

/-- The detections in the order they are found. -/
def detect (text : Text) : List PIIDetection :=
  f.patterns.flatMap fun (piiType, pattern) =>
    if f.isAllowed piiType then []
    else (pattern.findAll text).filterMap (f.detectMatch text piiType pattern)

def redact (piiType : String) (value : Text) : Text :=
  match f.patterns.lookup piiType with
  | none => bytes "[REDACTED]"
  | some pattern =>
    match f.strategy with
    | .mask => (List.replicate value.length f.maskChar).flatten
    | .hash =>
      bytes "[" ++ bytes (lib.toUpper piiType) ++ bytes "_HASH:" ++
        bytes (String.ofList (hexEncode ((lib.sha256 value).take 4))) ++ bytes "]"
    | .remove => []
    | .label => pattern.replacement
    | .other _ => pattern.replacement

/-- The splice made for a detection. -/
def edit (d : PIIDetection) : Edit UInt8 where
  start := d.start
  stop := d.stop
  new := f.redact lib d.type d.value
  le := d.le

/-- The splices, in the order they are made. -/
def edits (text : Text) : List (Edit UInt8) :=
  (sortDetectionsByPosition (f.detect text)).map (f.edit lib)

def uniqueTypes (detected : List PIIDetection) : List String :=
  detected.foldl (fun types d => if d.type ∈ types then types else types ++ [d.type]) []

def averageConfidence (detected : List PIIDetection) : ℚ :=
  if detected.isEmpty then 1 else (detected.map PIIDetection.confidence).sum / detected.length

end PIIFilter

/-- The value of the metadata key `pii_redacted`; a detection is summarised by its type, its
confidence and its length. -/
structure Redaction where
  types : List String
  count : ℕ
  strategy : RedactionStrategy
  detections : List (String × ℚ × ℕ)

/-- A message, as far as the filter reads and writes it. -/
structure Message where
  text : Text
  redaction : Option Redaction

/-- `FilterResult` of this filter; `modified` is nil where nothing was changed. -/
structure FilterResult where
  allowed : Bool
  modified : Option Message
  confidence : ℚ
  piiTypes : List String
  piiCount : ℕ

/-- The text that goes on. -/
def FilterResult.text (r : FilterResult) (msg : Message) : Text :=
  (r.modified.getD msg).text

/-- `Process`; `none` where a slice is out of range, and it panics. -/
def PIIFilter.process (lib : GoLib) (f : PIIFilter) (msg : Message) : Option FilterResult :=
  if (f.detect msg.text).isEmpty then some ⟨true, none, 1, [], 0⟩
  else
    let detected := sortDetectionsByPosition (f.detect msg.text)
    (spliceAll (detected.map (f.edit lib)) msg.text).map fun modified =>
      { allowed := true
        modified := some
          { text := modified
            redaction := some
              { types := PIIFilter.uniqueTypes detected
                count := detected.length
                strategy := f.strategy
                detections := detected.map fun d => (d.type, d.confidence, d.stop - d.start) } }
        confidence := PIIFilter.averageConfidence detected
        piiTypes := PIIFilter.uniqueTypes detected
        piiCount := detected.length }

/-! ## Exactness -/

namespace PIIFilter

variable (lib : GoLib) (f : PIIFilter) {text : Text}

theorem mem_detect (h : d ∈ f.detect text) :
    d.stop ≤ text.length ∧ d.value.length = d.stop - d.start ∧
      (f.patterns.lookup d.type).isSome := by
  obtain ⟨⟨_, _⟩, hpattern, hd⟩ := mem_flatMap.1 h
  dsimp only at hd
  split at hd
  · cases hd
  obtain ⟨m, _, hm⟩ := mem_filterMap.1 hd
  rw [detectMatch] at hm
  split at hm
  · cases hm
  split at hm
  · cases hm
  cases hm
  refine ⟨m.stop_le, ?_, ?_⟩
  · have := m.stop_le
    simp only [length_drop, length_take]
    omega
  · rw [lookup_isSome_iff]
    exact ⟨_, hpattern, by simp⟩

variable {f}

/-- A splice is made for a detection. -/
theorem exists_of_mem_edits (h : e ∈ f.edits lib text) : ∃ d ∈ f.detect text, e = f.edit lib d := by
  obtain ⟨d, hd, rfl⟩ := List.mem_map.1 h
  exact ⟨d, (sortDetectionsByPosition_perm _).subset hd, rfl⟩

theorem stop_le_of_mem_edits (h : e ∈ f.edits lib text) : e.stop ≤ text.length := by
  obtain ⟨d, hd, rfl⟩ := exists_of_mem_edits lib h
  exact (f.mem_detect hd).1

variable (f)

theorem edits_descending (text : Text) : Descending (f.edits lib text) :=
  pairwise_map.2 (sortDetectionsByPosition_pairwise _)

variable (msg : Message)

/-- The text that goes on is the one spliced, also where there is nothing to splice. -/
theorem process_text :
    (f.process lib msg).map (fun r => r.text msg) = spliceAll (f.edits lib msg.text) msg.text := by
  rw [process, edits]
  split
  · next h =>
    rw [List.isEmpty_iff.1 h]
    rfl
  · rw [Option.map_map]
    exact Option.map_id'

/-- **The redaction is complete and precise**: it does not panic, and in the text that goes
on, each byte known by where it came from, just the bytes in no detected span are kept, in
order, and replacements stand in place of detected spans. -/
def Redacts (msg : Message) : Prop :=
  ∃ result marks, f.process lib msg = some result ∧
    spliceAll ((f.edits lib msg.text).map Edit.marked) (marked msg.text) = some marks ∧
    result.text msg = marks.map Mark.value ∧ Exact (f.edits lib msg.text) msg.text marks

theorem redacts_iff : f.Redacts lib msg ↔
      ∃ marks, spliceAll ((f.edits lib msg.text).map Edit.marked) (marked msg.text) = some marks ∧
        Exact (f.edits lib msg.text) msg.text marks := by
  constructor
  · rintro ⟨_, marks, _, hmarks, _, hexact⟩
    exact ⟨marks, hmarks, hexact⟩
  · rintro ⟨marks, hmarks, hexact⟩
    have htext := f.process_text lib msg
    rw [spliceAll_marked, hmarks, map_some, map_eq_some_iff] at htext
    obtain ⟨result, hresult, htext⟩ := htext
    exact ⟨result, marks, hresult, hmarks, htext, hexact⟩

/-- **When redaction is complete and precise**: when, for each detection and those spliced after
it, the replacements made in between leave the last end of their spans where it was, or past the
start of the detection spliced before. -/
theorem process_exact_iff (msg : Message) : f.Redacts lib msg ↔
      Aligned (msg.text.length + 1) (f.edits lib msg.text) := by
  rw [redacts_iff]
  exact exact_iff (f.edits_descending lib msg.text) fun _ he => stop_le_of_mem_edits lib he

variable {msg}

theorem redacts_of_aligned (h : Aligned (msg.text.length + 1) (f.edits lib msg.text)) :
    f.Redacts lib msg :=
  (f.redacts_iff lib msg).2 ((exact_iff (f.edits_descending lib msg.text) fun _ he =>
    stop_le_of_mem_edits lib he).2 h)

theorem redacts_of_mask (hstrategy : f.strategy = .mask) (hmask : f.maskChar.length = 1) :
    f.Redacts lib msg := by
  refine f.redacts_of_aligned lib (aligned_of_growth_eq_zero (fun e he => ?_) _)
  obtain ⟨d, hd, rfl⟩ := exists_of_mem_edits lib he
  obtain ⟨-, hvalue, htype⟩ := f.mem_detect hd
  obtain ⟨pattern, hpattern⟩ := isSome_iff_exists.1 htype
  have hlength : (f.redact lib d.type d.value).length = d.stop - d.start := by
    simp [redact, hpattern, hstrategy, hmask, hvalue]
  have := d.le
  show ((f.redact lib d.type d.value).length : ℤ) - (d.stop - d.start) = 0
  omega

theorem redacts_of_disjoint (hne : ∀ d ∈ f.detect msg.text, d.start < d.stop)
    (h : (f.detect msg.text).Pairwise fun d d' => d.stop ≤ d'.start ∨ d'.stop ≤ d.start) :
    f.Redacts lib msg := by
  refine f.redacts_of_aligned lib (aligned_of_disjoint (pairwise_map.2 ?_) _)
  have hperm := sortDetectionsByPosition_perm (f.detect msg.text)
  have hsorted := (hperm.pairwise_iff fun h => h.symm).2 h
  refine (hsorted.and (sortDetectionsByPosition_pairwise _)).imp_of_mem ?_
  rintro d d' hd - ⟨h, hle⟩
  have := hne d (hperm.subset hd)
  show d'.stop ≤ d.start
  omega

end PIIFilter

/-! ## An address with a telephone number in it -/

/-- An electronic mail address. -/
def contact : Text := bytes "a.555-123-4567@corp.com"

/-- A pattern that finds one span of the address, and nothing elsewhere. -/
def findsIn (start stop : ℕ) (replacement : String) (h : start ≤ stop ∧ stop ≤ contact.length) :
    PIIPattern where
  findAll text :=
    if htext : text = contact then [⟨start, stop, h.1, htext ▸ h.2⟩] else []
  validator := none
  replacement := bytes replacement
  confidence := 9 / 10

/-- The default types that match it: the whole is an address, and a part is a number. -/
def contactFilter (strategy : RedactionStrategy) : PIIFilter where
  patterns :=
    [("email", findsIn 0 23 "[EMAIL_REDACTED]" (by decide +kernel)),
      ("phone", findsIn 2 14 "[PHONE_REDACTED]" (by decide +kernel))]
  nodup := by decide
  strategy := strategy
  maskChar := bytes "*"
  allowedPII := []
  confidenceThreshold := 85 / 100

/-- A library for the strategies that do not hash. -/
def noHash : GoLib := ⟨String.toUpper, fun _ => []⟩

/-- **A part of the address goes on** under the default strategy, and the filter panics under
`remove`. -/
theorem nested_detection_survives :
    ((contactFilter .label).process noHash ⟨contact, none⟩).map (fun r => r.text ⟨contact, none⟩) =
        some (bytes "[EMAIL_REDACTED].com") ∧
      (contactFilter .remove).process noHash ⟨contact, none⟩ = none := by
  have hlabel : spliceAll ((contactFilter .label).edits noHash contact) contact =
      some (bytes "[EMAIL_REDACTED].com") := by decide +kernel
  have hremove : spliceAll ((contactFilter .remove).edits noHash contact) contact = none := by
    decide +kernel
  refine ⟨(PIIFilter.process_text _ _ _).trans hlabel, ?_⟩
  exact map_eq_none_iff.1 ((PIIFilter.process_text _ _ _).trans hremove)

end SemStreams.AgenticGovernance
