import SemStreams.Lib.Subject
import SemStreams.Graph.Entity
import Mathlib.Algebra.Order.BigOperators.Group.List
/-!
# Graph — the identity contracts

An entity id has six positions, a predicate three, and both are built from an
alphabet that is safe in a key of the store. `validateEntityStateContract` is
the gate every write of an entity passes, and every reader applies it again.

Go measures texts in bytes. `utf8Bytes` are the bytes of a text, and a budget
is a bound on their number.
-/

namespace SemStreams.Graph

open List Option

/-! ## Bytes -/

def utf8Bytes (text : List Char) : List UInt8 := text.flatMap String.utf8EncodeChar

def byteLength (text : List Char) : ℕ := (utf8Bytes text).length

@[simp] theorem byteLength_append (a b : List Char) :
    byteLength (a ++ b) = byteLength a + byteLength b := by
  simp [byteLength, utf8Bytes]

/-- A text of one-byte characters. -/
theorem byteLength_eq_length (h : ∀ c ∈ text, c.utf8Size = 1) :
    byteLength text = text.length := by
  induction text with
  | nil => rfl
  | cons c text ih =>
    have hc := h c (by simp)
    rw [← singleton_append, byteLength_append, ih fun x hx => h x (by simp [hx])]
    simp [byteLength, utf8Bytes, String.length_utf8EncodeChar, hc, Nat.add_comm]

/-- A token is a piece of its text. -/
theorem isInfix_of_mem_intercalate {sep : List Char} (h : p ∈ parts) :
    p <:+: sep.intercalate parts := by
  induction parts with
  | nil => cases h
  | cons q parts ih =>
    cases parts with
    | nil =>
      obtain rfl := mem_singleton.1 h
      exact ⟨[], [], by simp⟩
    | cons r parts =>
      rcases mem_cons.1 h with rfl | h
      · exact ⟨[], sep ++ sep.intercalate (r :: parts), by simp⟩
      · exact (ih h).trans ⟨q ++ sep, [], by simp⟩

variable {text : String}

theorem byteLength_token_le (h : p ∈ tokens text) : byteLength p ≤ byteLength text.toList := by
  have hinfix : p <:+: ['.'].intercalate (tokens text) := isInfix_of_mem_intercalate h
  unfold tokens at hinfix
  rw [intercalate_splitOn] at hinfix
  obtain ⟨_, _, htext⟩ := hinfix
  rw [← htext, byteLength_append, byteLength_append]
  omega

/-! ## Entity ids -/

def maxEntityIDBytes : ℕ := 256

def canonicalEntityIDParts : ℕ := 6

/-- The reasons of an `entity_id_invalid`, with the segment at fault. -/
inductive EntityIDReason
  | empty
  | bytes
  | arity
  | emptySegment (index : ℕ)
  | firstByte (index : ℕ)
  | alphabet (index : ℕ)
deriving DecidableEq

def isEntityIDAlphanumeric (c : Char) : Bool :=
  ('a' ≤ c && c ≤ 'z') || ('A' ≤ c && c ≤ 'Z') || ('0' ≤ c && c ≤ '9')

def isEntityIDRemainingByte (c : Char) : Bool := isEntityIDAlphanumeric c || c = '_' || c = '-'

/-- `validateEntityIDValue` without wildcards: three passes over the segments, in the
source's order. -/
def validateEntityIDValue (value : String) (minimumParts maximumParts : ℕ) :
    Except EntityIDReason Unit :=
  if value = "" then .error .empty
  else if byteLength value.toList > maxEntityIDBytes then .error .bytes
  else if (tokens value).length < minimumParts ∨ (tokens value).length > maximumParts then
    .error .arity
  else
    match (tokens value).findIdx? List.isEmpty with
    | some index => .error (.emptySegment index)
    | none =>
      match (tokens value).findIdx? fun part => !part.head?.any isEntityIDAlphanumeric with
      | some index => .error (.firstByte index)
      | none =>
        match (tokens value).findIdx? fun part => !part.tail.all isEntityIDRemainingByte with
        | some index => .error (.alphabet index)
        | none => .ok ()

def validateEntityID (value : String) : Except EntityIDReason Unit :=
  validateEntityIDValue value canonicalEntityIDParts canonicalEntityIDParts

def isValidEntityID (value : String) : Bool := validateEntityID value = .ok ()

/-! ## Predicates -/

def maxPredicateSegmentBytes : ℕ := 64

def maxPredicateBytes : ℕ := 3 * maxPredicateSegmentBytes + 2

/-- The reasons of a `PredicateValidationError`. -/
inductive PredicateReason
  | empty
  | length
  | arity
  | segmentEmpty (index : ℕ)
  | segmentLength (index : ℕ)
  | segmentStart (index : ℕ)
  | segmentCharacter (index : ℕ)
  | segmentHyphen (index : ℕ)
deriving DecidableEq

def isLowerASCII (c : Char) : Bool := 'a' ≤ c && c ≤ 'z'

def isDigitASCII (c : Char) : Bool := '0' ≤ c && c ≤ '9'

/-- The loop of `validatePredicateSegment`: no two hyphens in a row, none at
the end. -/
def validateSegmentRest (index : ℕ) (previousHyphen : Bool) : List Char → Except PredicateReason Unit
  | [] => .ok ()
  | c :: rest =>
    if isLowerASCII c || isDigitASCII c then validateSegmentRest index false rest
    else if c = '-' then
      if previousHyphen || rest.isEmpty then .error (.segmentHyphen index)
      else validateSegmentRest index true rest
    else .error (.segmentCharacter index)

def validatePredicateSegment (index : ℕ) (segment : List Char) : Except PredicateReason Unit :=
  match segment with
  | [] => .error (.segmentEmpty index)
  | c :: rest =>
    if byteLength segment > maxPredicateSegmentBytes then .error (.segmentLength index)
    else if !isLowerASCII c then .error (.segmentStart index)
    else validateSegmentRest index false rest

structure PredicateParts where
  domain : String
  category : String
  property : String
deriving DecidableEq

def parsePredicate (predicate : String) : Except PredicateReason PredicateParts :=
  if predicate = "" then .error .empty
  else if byteLength predicate.toList > maxPredicateBytes then .error .length
  else
    match tokens predicate with
    | [domain, category, property] => do
      validatePredicateSegment 0 domain
      validatePredicateSegment 1 category
      validatePredicateSegment 2 property
      .ok ⟨String.ofList domain, String.ofList category, String.ofList property⟩
    | _ => .error .arity

/-- `ParsePredicate` accepts the text. -/
def isValidPredicate (predicate : String) : Bool := (parsePredicate predicate).isOk

/-! ## Keys of the store -/

def maxKVLiteralTokenBytes : ℕ := 512

def maxKVLiteralKeyBytes : ℕ := 1024

def maxKVLiteralKeyTokens : ℕ := 64

/-- The reasons of a key or filter refusal. -/
inductive KVReason
  | empty
  | bytes
  | tokens
  | emptyToken (index : ℕ)
  | tokenBytes (index : ℕ)
  | wildcard (index : ℕ)
  | position (index : ℕ)
  | alphabet (index : ℕ)
deriving DecidableEq

def isKVLiteralAlphabet (c : Char) : Bool :=
  isEntityIDAlphanumeric c || c = '-' || c = '/' || c = '_' || c = '='

/-- One token of a literal key. -/
def validateLiteralPosition (index : ℕ) (token : List Char) : Except KVReason Unit :=
  if token = [] then .error (.emptyToken index)
  else if token.any fun c => c = '*' || c = '>' then .error (.wildcard index)
  else if byteLength token > maxKVLiteralTokenBytes then .error (.tokenBytes index)
  else if !token.all isKVLiteralAlphabet then .error (.alphabet index)
  else .ok ()

/-- The tokens in order, from a position on. -/
def validatePositions (check : ℕ → List Char → Except KVReason Unit) :
    ℕ → List (List Char) → Except KVReason Unit
  | _, [] => .ok ()
  | index, token :: rest => do
    check index token
    validatePositions check (index + 1) rest

def validateKVLiteralKey (key : String) : Except KVReason Unit :=
  if key = "" then .error .empty
  else if byteLength key.toList > maxKVLiteralKeyBytes then .error .bytes
  else if (tokens key).length > maxKVLiteralKeyTokens then .error .tokens
  else validatePositions validateLiteralPosition 0 (tokens key)

/-- One token of a filter with `count` tokens. -/
def validateFilterPosition (count index : ℕ) (token : List Char) : Except KVReason Unit :=
  if token = [] then .error (.emptyToken index)
  else if token = ['>'] then
    if index + 1 ≠ count then .error (.position index) else .ok ()
  else if token = ['*'] then .ok ()
  else validateLiteralPosition index token

def validateKVWildcardFilter (filter : String) : Except KVReason Unit :=
  if filter = "" then .error .empty
  else if byteLength filter.toList > maxKVLiteralKeyBytes then .error .bytes
  else if (tokens filter).length > maxKVLiteralKeyTokens then .error .tokens
  else validatePositions (validateFilterPosition (tokens filter).length) 0 (tokens filter)

/-! ## What the contracts give a key -/

/-- **A text that can be part of a key**: so many tokens, within a number of
bytes, every token plain. -/
structure KeyTokens (text : String) (count bytes : ℕ) : Prop where
  length : (tokens text).length = count
  bytes : byteLength text.toList ≤ bytes
  plain : ∀ t ∈ tokens text, t ≠ [] ∧ ∀ c ∈ t, isKVLiteralAlphabet c = true
  tokenBytes : ∀ t ∈ tokens text, byteLength t ≤ maxKVLiteralTokenBytes

variable {t : List Char}

theorem literal_of_plain (h : ∀ c ∈ t, isKVLiteralAlphabet c) : Literal t := by
  constructor
  · rintro rfl
    exact absurd (h '*' (by simp)) (by decide)
  · rintro rfl
    exact absurd (h '>' (by simp)) (by decide)

variable {count bytes : ℕ}

theorem KeyTokens.literal (h : KeyTokens text count bytes) : ∀ t ∈ tokens text, Literal t :=
  fun t ht => literal_of_plain (h.plain t ht).2

/-- Two parts of a key with a dot between them. -/
theorem byteLength_append_dot (a b : String) :
    byteLength (a ++ "." ++ b).toList = byteLength a.toList + 1 + byteLength b.toList := by
  have hdot : byteLength ".".toList = 1 := by decide
  rw [String.toList_append, String.toList_append, byteLength_append, byteLength_append, hdot]

theorem forall_tokens_append_dot {a b : String} {P : List Char → Prop} (ha : ∀ t ∈ tokens a, P t)
    (hb : ∀ t ∈ tokens b, P t) : ∀ t ∈ tokens (a ++ "." ++ b), P t := by
  rw [tokens_append_dot]
  exact forall_mem_append.2 ⟨ha, hb⟩

theorem KeyTokens.append (ha : KeyTokens a n x) (hb : KeyTokens b m y) :
    KeyTokens (a ++ "." ++ b) (n + m) (x + 1 + y) where
  length := by rw [tokens_append_dot, length_append, ha.length, hb.length]
  bytes := by
    rw [byteLength_append_dot]
    exact Nat.add_le_add (Nat.add_le_add_right ha.bytes 1) hb.bytes
  plain := forall_tokens_append_dot ha.plain hb.plain
  tokenBytes := forall_tokens_append_dot ha.tokenBytes hb.tokenBytes

/-- A text of no more bytes than a token may have. -/
theorem KeyTokens.of_bytes (hlength : (tokens text).length = count)
    (hbytes : byteLength text.toList ≤ bytes) (hle : bytes ≤ maxKVLiteralTokenBytes)
    (hplain : ∀ t ∈ tokens text, t ≠ [] ∧ ∀ c ∈ t, isKVLiteralAlphabet c) :
    KeyTokens text count bytes := by
  refine ⟨hlength, hbytes, hplain, ?_⟩
  intro t ht
  have htoken := byteLength_token_le ht
  omega

variable {c : Char}

theorem isKVLiteralAlphabet_of_remaining (h : isEntityIDRemainingByte c) :
    isKVLiteralAlphabet c := by
  unfold isEntityIDRemainingByte at h
  unfold isKVLiteralAlphabet
  simp only [Bool.or_eq_true, decide_eq_true_eq] at h ⊢
  tauto

theorem keyTokens_entityID (h : isValidEntityID value) :
    KeyTokens value canonicalEntityIDParts maxEntityIDBytes := by
  unfold isValidEntityID validateEntityID validateEntityIDValue at h
  split at h
  · cases h
  split at h
  · cases h
  split at h
  · cases h
  rename_i hbytes harity
  split at h
  · cases h
  rename_i hempty
  split at h
  · cases h
  rename_i hfirst
  split at h
  · cases h
  rename_i hrest
  rw [List.findIdx?_eq_none_iff] at hempty hfirst hrest
  refine .of_bytes (by omega) (Nat.le_of_not_lt hbytes) (by decide) ?_
  intro t ht
  have hhead := hfirst t ht
  have htail := hrest t ht
  cases t with
  | nil => exact absurd (hempty [] ht) (by simp)
  | cons c t =>
    refine ⟨by simp, ?_⟩
    simp only [List.head?_cons, any_some, tail_cons, Bool.not_eq_false',
      List.all_eq_true] at hhead htail
    intro d hd
    rcases mem_cons.1 hd with rfl | hd
    · exact isKVLiteralAlphabet_of_remaining (by simp [isEntityIDRemainingByte, hhead])
    · exact isKVLiteralAlphabet_of_remaining (htail d hd)

theorem isKVLiteralAlphabet_of_lower (h : isLowerASCII c) :
    isKVLiteralAlphabet c := by
  unfold isLowerASCII at h
  simp [isKVLiteralAlphabet, isEntityIDAlphanumeric, h]

variable {index : ℕ}

theorem plain_of_validateSegmentRest (h : validateSegmentRest index previous rest = .ok ()) :
    ∀ c ∈ rest, isKVLiteralAlphabet c := by
  induction rest generalizing previous with
  | nil => exact nofun
  | cons c rest ih =>
    unfold validateSegmentRest at h
    intro d hd
    split at h
    · rename_i hc
      rcases mem_cons.1 hd with rfl | hd
      · simp only [Bool.or_eq_true] at hc
        rcases hc with hc | hc
        · exact isKVLiteralAlphabet_of_lower hc
        · unfold isDigitASCII at hc
          simp [isKVLiteralAlphabet, isEntityIDAlphanumeric, hc]
      · exact ih h d hd
    · split at h
      · rename_i hc
        split at h
        · cases h
        rcases mem_cons.1 hd with rfl | hd
        · rw [hc]
          decide
        · exact ih h d hd
      · cases h

theorem plain_of_validatePredicateSegment {segment : List Char}
    (h : validatePredicateSegment index segment = .ok ()) :
    segment ≠ [] ∧ ∀ c ∈ segment, isKVLiteralAlphabet c := by
  unfold validatePredicateSegment at h
  split at h
  · cases h
  split at h
  · cases h
  split at h
  · cases h
  rename_i hstart
  simp only [Bool.not_eq_true, Bool.not_eq_false'] at hstart
  refine ⟨by simp, ?_⟩
  intro d hd
  rcases mem_cons.1 hd with rfl | hd
  · exact isKVLiteralAlphabet_of_lower hstart
  · exact plain_of_validateSegmentRest h d hd

theorem keyTokens_predicate (h : isValidPredicate predicate) :
    KeyTokens predicate 3 maxPredicateBytes := by
  unfold isValidPredicate parsePredicate at h
  split at h
  · cases h
  split at h
  · cases h
  rename_i hbytes
  split at h
  · rename_i domain category property htokens
    refine .of_bytes (by rw [htokens]; rfl) (Nat.le_of_not_lt hbytes) (by decide) ?_
    cases h₀ : validatePredicateSegment 0 domain with
    | error => rw [h₀] at h; cases h
    | ok =>
      cases h₁ : validatePredicateSegment 1 category with
      | error => rw [h₀, h₁] at h; cases h
      | ok =>
        cases h₂ : validatePredicateSegment 2 property with
        | error => rw [h₀, h₁, h₂] at h; cases h
        | ok =>
          intro t ht
          rw [htokens] at ht
          simp only [mem_cons, not_mem_nil, or_false] at ht
          rcases ht with rfl | rfl | rfl
          · exact plain_of_validatePredicateSegment h₀
          · exact plain_of_validatePredicateSegment h₁
          · exact plain_of_validatePredicateSegment h₂
  · cases h

theorem validatePositions_ok (h : ∀ i t, parts[i]? = some t → check (index + i) t = .ok ()) :
    validatePositions check index parts = .ok () := by
  induction parts generalizing index with
  | nil => rfl
  | cons t parts ih =>
    have hhead : check index t = .ok () := h 0 t rfl
    unfold validatePositions
    rw [hhead]
    refine ih fun i u hu => ?_
    have hnext := h (i + 1) u (by rw [List.getElem?_cons_succ]; exact hu)
    rwa [← Nat.add_assoc, Nat.add_right_comm] at hnext

theorem validateLiteralPosition_ok (hplain : t ≠ [] ∧ ∀ c ∈ t, isKVLiteralAlphabet c)
    (hbytes : byteLength t ≤ maxKVLiteralTokenBytes) (index : ℕ) :
    validateLiteralPosition index t = .ok () := by
  have hwild : (t.any fun c => decide (c = '*') || decide (c = '>')) = false := by
    rw [List.any_eq_false]
    intro c hc
    have halpha := hplain.2 c hc
    simp only [Bool.or_eq_true, decide_eq_true_eq, not_or]
    constructor <;> rintro rfl <;> exact absurd halpha (by decide)
  have hall : t.all isKVLiteralAlphabet := List.all_eq_true.2 hplain.2
  unfold validateLiteralPosition
  rw [if_neg hplain.1, hwild, if_neg (by simp), if_neg (by omega), hall, if_neg (by simp)]

/-- **A key within the budgets is accepted.** -/
theorem KeyTokens.validateKVLiteralKey_ok (h : KeyTokens key count bytes)
    (hcount : count ≤ maxKVLiteralKeyTokens) (hbytes : bytes ≤ maxKVLiteralKeyBytes) :
    validateKVLiteralKey key = .ok () := by
  have hne : key ≠ "" := by
    rintro rfl
    have hplain := h.plain [] (by decide)
    exact hplain.1 rfl
  have hsize := h.bytes
  have hlength := h.length
  unfold validateKVLiteralKey
  rw [if_neg hne, if_neg (by omega), if_neg (by omega)]
  refine validatePositions_ok fun i t ht => ?_
  have hmem := mem_of_getElem? ht
  exact validateLiteralPosition_ok (h.plain t hmem) (h.tokenBytes t hmem) _

/-- **A text that can be part of a filter**: every token a star or plain. -/
structure FilterTokens (text : String) (count bytes : ℕ) : Prop where
  length : (tokens text).length = count
  bytes : byteLength text.toList ≤ bytes
  token : ∀ t ∈ tokens text, t = ['*'] ∨
    (t ≠ [] ∧ ∀ c ∈ t, isKVLiteralAlphabet c = true) ∧ byteLength t ≤ maxKVLiteralTokenBytes

theorem KeyTokens.filter (h : KeyTokens text count bytes) : FilterTokens text count bytes :=
  ⟨h.length, h.bytes, fun t ht => .inr ⟨h.plain t ht, h.tokenBytes t ht⟩⟩

theorem FilterTokens.append (ha : FilterTokens a n x) (hb : FilterTokens b m y) :
    FilterTokens (a ++ "." ++ b) (n + m) (x + 1 + y) where
  length := by rw [tokens_append_dot, length_append, ha.length, hb.length]
  bytes := by
    rw [byteLength_append_dot]
    exact Nat.add_le_add (Nat.add_le_add_right ha.bytes 1) hb.bytes
  token := forall_tokens_append_dot ha.token hb.token

theorem FilterTokens.position_ok (h : FilterTokens text count bytes)
    (ht : t ∈ tokens text) (total index : ℕ) : validateFilterPosition total index t = .ok () := by
  unfold validateFilterPosition
  rcases h.token t ht with rfl | ⟨hplain, hb⟩
  · rw [if_neg (by simp), if_neg (by simp), if_pos rfl]
  · have hlit := literal_of_plain hplain.2
    rw [if_neg hplain.1, if_neg hlit.2, if_neg hlit.1]
    exact validateLiteralPosition_ok hplain hb index

/-- **A filter within the budgets is accepted.** -/
theorem FilterTokens.validateKVWildcardFilter_ok (h : FilterTokens text count bytes)
    (hcount : count ≤ maxKVLiteralKeyTokens) (hbytes : bytes ≤ maxKVLiteralKeyBytes) :
    validateKVWildcardFilter text = .ok () := by
  have hne : text ≠ "" := by
    rintro rfl
    rcases h.token [] (by decide) with hnil | hnil
    · cases hnil
    · exact hnil.1.1 rfl
  have hsize := h.bytes
  have hlength := h.length
  unfold validateKVWildcardFilter
  rw [if_neg hne, if_neg (by omega), if_neg (by omega)]
  exact validatePositions_ok fun i t ht => h.position_ok (mem_of_getElem? ht) _ _

/-- So is the filter of everything below it. -/
theorem FilterTokens.validateKVWildcardFilter_rest_ok (h : FilterTokens text count bytes)
    (hcount : count < maxKVLiteralKeyTokens) (hbytes : bytes + 2 ≤ maxKVLiteralKeyBytes) :
    validateKVWildcardFilter (text ++ "." ++ ">") = .ok () := by
  have htokens : tokens (text ++ "." ++ ">") = tokens text ++ [['>']] := tokens_append_dot _ _
  have hne : text ++ "." ++ ">" ≠ "" := by
    intro hnil
    rw [hnil] at htokens
    have hlen := congrArg List.length htokens
    have hpos := length_pos_iff.2 (tokens_ne_nil text)
    have hone : (tokens "").length = 1 := by decide
    rw [hone, length_append, length_singleton] at hlen
    omega
  have hsize : byteLength (text ++ "." ++ ">").toList ≤ bytes + 2 := by
    have hrest : byteLength ">".toList = 1 := by decide
    rw [byteLength_append_dot, hrest]
    exact Nat.add_le_add_right h.bytes 2
  have hlength := h.length
  unfold validateKVWildcardFilter
  rw [htokens, length_append, length_singleton, if_neg hne, if_neg (by omega), if_neg (by omega)]
  refine validatePositions_ok fun i t ht => ?_
  by_cases hi : i < (tokens text).length
  · rw [List.getElem?_append_left hi] at ht
    exact h.position_ok (mem_of_getElem? ht) _ _
  · have hlast : i = (tokens text).length := by
      have hlt := (List.getElem?_eq_some_iff.1 ht).1
      rw [length_append, length_singleton] at hlt
      omega
    subst hlast
    rw [List.getElem?_append_right (Nat.le_refl _), Nat.sub_self] at ht
    cases ht
    unfold validateFilterPosition
    simp

/-! ## Entity states -/

/-- `message.EntityReferenceDatatype`. -/
def entityReferenceDatatype : String := "@id"

/-- The entity a triple relates to, if it is a relationship: a text object of
reference or no datatype that is an entity id. -/
def Triple.relationshipTarget (t : Triple) : Option String :=
  match t.object with
  | .text object =>
    if (t.datatype = "" ∨ t.datatype = entityReferenceDatatype) ∧ isValidEntityID object = true then
      some object
    else none
  | .json _ => none

/-- `Triple.IsRelationship`. -/
def Triple.isRelationship (t : Triple) : Bool := t.relationshipTarget.isSome

theorem isValidEntityID_of_relationshipTarget {t : Triple} {target : String}
    (h : t.relationshipTarget = some target) : isValidEntityID target := by
  unfold Triple.relationshipTarget at h
  split at h
  · split at h
    · rename_i hguard
      cases h
      exact hguard.2
    · cases h
  · cases h

/-- The explicit reference of a triple is an entity id. -/
def Triple.referenceOk (t : Triple) : Bool :=
  t.datatype ≠ entityReferenceDatatype ||
    match t.object with
    | .text object => isValidEntityID object
    | .json _ => false

/-- `ValidateEntityStateContract`: the id, the subjects, the explicit
references and the predicates. -/
def validateEntityStateContract (entity : EntityState) : Bool :=
  isValidEntityID entity.id &&
    entity.triples.all (fun t => t.subject = entity.id || isValidEntityID t.subject) &&
    entity.triples.all Triple.referenceOk &&
    entity.triples.all fun t => isValidPredicate t.predicate

/-- The gate passes the id and the predicates. -/
theorem contract_id (h : validateEntityStateContract entity) :
    isValidEntityID entity.id := by
  unfold validateEntityStateContract at h
  simp only [Bool.and_eq_true] at h
  exact h.1.1.1

theorem contract_predicate (h : validateEntityStateContract entity) {t : Triple}
    (ht : t ∈ entity.triples) : isValidPredicate t.predicate := by
  unfold validateEntityStateContract at h
  simp only [Bool.and_eq_true, List.all_eq_true] at h
  exact h.2 t ht

end SemStreams.Graph
