import SemStreams.Lib.Rdf.NTriples
import SemStreams.Graph.Contract
/-!
# vocabulary/export — what a triple is exported as

A triple is exported if it has a subject, a predicate and an object that can be
classified. The subject becomes an IRI under the base, the predicate its registered
IRI or one under the base, and the object an IRI or a literal: by the triple's own
datatype first, then by what the predicate declares where the value can carry it, and
by the value's Go type last.

A Go string is a sequence of bytes. It is taken here as what ranging over it yields:
characters, and bytes that belong to none.
-/

namespace SemStreams.Export

open SemStreams.Graph

/-! ## Strings -/

inductive Rune
  | char (c : Char)
  | stray (byte : UInt8)
deriving DecidableEq

abbrev GoString := List Rune

def lift (text : List Char) : GoString := text.map .char

def lit (text : String) : GoString := lift text.toList

/-- The text of a string, where all of it is text. -/
def utf8 : GoString → Option (List Char)
  | [] => some []
  | .char c :: s => (utf8 s).map (c :: ·)
  | .stray _ :: _ => none

/-- U+FFFD for a byte that belongs to no character. -/
def Rune.toChar : Rune → Char
  | .char c => c
  | .stray _ => '\ufffd'

/-- The characters `range` yields. -/
def ranged (s : GoString) : List Char := s.map Rune.toChar

/-- `IsValidEntityID` on a string. -/
def isEntityID (s : GoString) : Bool := (utf8 s).any fun text => isValidEntityID (String.ofList text)

section Strings

@[simp] theorem utf8_lift (text : List Char) : utf8 (lift text) = some text := by
  induction text with
  | nil => rfl
  | cons c text ih => simpa [lift, utf8] using ih

theorem utf8_eq_some : utf8 s = some text ↔ s = lift text := by
  refine ⟨?_, fun h => by rw [h, utf8_lift]⟩
  intro h
  induction s generalizing text with
  | nil =>
    simp only [utf8, Option.some.injEq] at h
    rw [← h]
    rfl
  | cons r s ih =>
    cases r with
    | stray b => cases h
    | char c =>
      obtain ⟨_, hrest, rfl⟩ := Option.map_eq_some_iff.1 h
      rw [ih hrest]
      rfl

theorem lift_append (a b : List Char) : lift (a ++ b) = lift a ++ lift b := List.map_append

theorem lift_injective : Function.Injective lift := by
  intro a b h
  have hsome := utf8_lift a
  rw [h, utf8_lift] at hsome
  exact (Option.some.inj hsome).symm

@[simp] theorem ranged_lift (text : List Char) : ranged (lift text) = text := by
  unfold ranged lift
  rw [List.map_map]
  exact List.map_id text

theorem isText_of_append (h : s ++ t = lift text) : s = lift (ranged s) ∧ t = lift (ranged t) := by
  obtain ⟨a, b, -, rfl, rfl⟩ := List.append_eq_map_iff.1 h
  exact ⟨by rw [← lift, ranged_lift, lift], by rw [← lift, ranged_lift, lift]⟩

end Strings

/-! ## Triples and the registry -/

/-- A value of type `any`; the types of floats, times and other values are left open. -/
inductive GoValue (F T V : Type*)
  | nil
  | string (s : GoString)
  | bool (b : Bool)
  | int (i : ℤ)
  | float (f : F)
  | time (t : T)
  | other (v : V)

/-- What the standard library says of floats, times, other values and JSON texts. -/
structure GoLib (F T V : Type*) where
  /-- `%v` and `%g` of a float. -/
  formatG : F → GoString
  isFinite : F → Bool
  /-- The integer a float is, within the bound for exact ones. -/
  whole : F → Option ℤ
  ofInt : ℤ → F
  formatRFC3339 : T → GoString
  parseRFC3339 : GoString → Option T
  /-- `%v` of a time. -/
  printTime : T → GoString
  /-- `%v` of any other value. -/
  printOther : V → GoString
  jsonValid : GoString → Bool

/-- `message.Triple`, as far as the exporter reads it. -/
structure ExportTriple (F T V : Type*) where
  subject : GoString
  predicate : GoString
  object : GoValue F T V
  datatype : GoString := []

/-- The declared datatypes the exporter acts on. -/
inductive DataType
  | entityID
  | int
  | float
  | bool
  | dateTime
  | json
  | other
deriving DecidableEq

/-- `vocabulary.PredicateMetadata`; no IRI is the empty one. -/
structure PredicateMetadata where
  standardIRI : GoString := []
  dataType : Option DataType := none

structure Options where
  baseIRI : GoString
  subjectIRIFn : Option (GoString → GoString) := none

/-- `vocabulary.SemStreamsBase`. -/
def semStreamsBase : GoString := lit "https://semstreams.semanticstream.ing"

def defaultOptions : Options := { baseIRI := semStreamsBase }

/-- `ReplaceAll(s, ".", "/")`. -/
def slashed (s : GoString) : GoString := s.map fun r => if r = .char '.' then .char '/' else r

def subjectToIRI (subject base : GoString) : GoString :=
  if subject = [] then []
  else
    match utf8 subject with
    | some text =>
      if isValidEntityID (String.ofList text) then
        base ++ lit "/entities/" ++ lift (['/'].intercalate (tokens (String.ofList text)))
      else base ++ lit "/subjects/" ++ slashed subject
    | none => base ++ lit "/subjects/" ++ slashed subject

def resolveSubjectIRI (opts : Options) (subject : GoString) : GoString :=
  match opts.subjectIRIFn with
  | some fn => fn subject
  | none => subjectToIRI subject opts.baseIRI

/-- `resolvePredicateIRI`, with the registry. -/
def resolvePredicateIRI (registry : GoString → Option PredicateMetadata) (predicate base : GoString) :
    GoString :=
  if predicate = [] then []
  else
    match registry predicate with
    | some metadata =>
      if metadata.standardIRI ≠ [] then metadata.standardIRI
      else base ++ lit "/predicates/" ++ slashed predicate
    | none => base ++ lit "/predicates/" ++ slashed predicate

/-! ## Objects -/

def xsdNamespace : GoString := lit "http://www.w3.org/2001/XMLSchema#"

def rdfNamespace : GoString := lit "http://www.w3.org/1999/02/22-rdf-syntax-ns#"

def xsdString : GoString := lift Rdf.xsdString

def xsdInteger : GoString := xsdNamespace ++ lit "integer"

def xsdDouble : GoString := xsdNamespace ++ lit "double"

def xsdBoolean : GoString := xsdNamespace ++ lit "boolean"

def xsdDateTime : GoString := xsdNamespace ++ lit "dateTime"

def rdfJSON : GoString := rdfNamespace ++ lit "JSON"

inductive ClassifiedObject
  | literal (lexical datatype : GoString) (bare : Bool)
  | resource (iri : GoString)
  | invalid
deriving DecidableEq

/-- `%d`. -/
def formatInt (i : ℤ) : GoString := lit (toString i)

/-- `%t`. -/
def formatBool (b : Bool) : GoString := lit (if b then "true" else "false")

def isAbsoluteIRI (s : GoString) : Bool :=
  (lit "http://").isPrefixOf s || (lit "https://").isPrefixOf s || (lit "urn:").isPrefixOf s

def expandDatatypePrefix (dt : GoString) : GoString :=
  if (lit "xsd:").isPrefixOf dt then xsdNamespace ++ dt.drop 4
  else if (lit "rdf:").isPrefixOf dt then rdfNamespace ++ dt.drop 4
  else dt

variable {F T V : Type*} (go : GoLib F T V) (opts : Options)

def formatFloat (f : F) : GoString :=
  let s := go.formatG f
  if s.any fun r => r = .char '.' || r = .char 'e' || r = .char 'E' then s else s ++ lit ".0"

/-- `fmt.Sprintf("%v", obj)`. -/
def sprint : GoValue F T V → GoString
  | .nil => lit "<nil>"
  | .string s => s
  | .bool b => formatBool b
  | .int i => formatInt i
  | .float f => go.formatG f
  | .time t => go.printTime t
  | .other v => go.printOther v

def classifyString (s : GoString) : ClassifiedObject :=
  if isEntityID s then .resource (resolveSubjectIRI opts s)
  else if isAbsoluteIRI s then .resource s
  else .literal s [] false

def classifyFloat (f : F) : ClassifiedObject :=
  if go.isFinite f then .literal (formatFloat go f) xsdDouble false else .invalid

def classifyByGoType : GoValue F T V → ClassifiedObject
  | .string s => classifyString opts s
  | .bool b => .literal (formatBool b) xsdBoolean true
  | .int i => .literal (formatInt i) xsdInteger true
  | .float f => classifyFloat go f
  | .time t => .literal (go.formatRFC3339 t) xsdDateTime false
  | v => .literal (sprint go v) [] false

def classifyWithExplicitDatatype (object : GoValue F T V) (datatype : GoString) :
    ClassifiedObject :=
  if datatype = lit entityReferenceDatatype then
    match object with
    | .string s =>
      if isEntityID s then .resource (resolveSubjectIRI opts s)
      else classifyByGoType go opts object
    | _ => classifyByGoType go opts object
  else .literal (sprint go object) (expandDatatypePrefix datatype) false

def integerLexical : GoValue F T V → Option GoString
  | .int i => some (formatInt i)
  | .float f => (go.whole f).map formatInt
  | _ => none

def floatValue : GoValue F T V → Option F
  | .int i => some (go.ofInt i)
  | .float f => some f
  | _ => none

def dateTimeLexical : GoValue F T V → Option GoString
  | .time t => some (go.formatRFC3339 t)
  | .string s => (go.parseRFC3339 s).map go.formatRFC3339
  | _ => none

/-- `classifyByDeclaredDataType`; `none` where the value cannot carry the datatype. -/
def classifyByDeclaredDataType (declared : DataType) (object : GoValue F T V) :
    Option ClassifiedObject :=
  match declared with
  | .entityID =>
    match object with
    | .string s => if isEntityID s then some (.resource (resolveSubjectIRI opts s)) else none
    | _ => none
  | .int => (integerLexical go object).map fun lexical => .literal lexical xsdInteger true
  | .float =>
    (floatValue go object).bind fun f =>
      if classifyFloat go f = .invalid then none else some (classifyFloat go f)
  | .bool =>
    match object with
    | .bool b => some (.literal (formatBool b) xsdBoolean true)
    | _ => none
  | .dateTime => (dateTimeLexical go object).map fun lexical => .literal lexical xsdDateTime false
  | .json =>
    match object with
    | .string s => if go.jsonValid s then some (.literal s rdfJSON false) else none
    | _ => none
  | .other => none

def classifyObject (registry : GoString → Option PredicateMetadata) (t : ExportTriple F T V) :
    ClassifiedObject :=
  match t.object with
  | .nil => .invalid
  | object =>
    if t.datatype ≠ [] then classifyWithExplicitDatatype go opts object t.datatype
    else
      match (registry t.predicate).bind PredicateMetadata.dataType with
      | some declared =>
        (classifyByDeclaredDataType go opts declared object).getD (classifyByGoType go opts object)
      | none => classifyByGoType go opts object

/-! ## What is kept -/

/-- A kept triple with its IRIs. -/
structure ResolvedTriple where
  subjectIRI : GoString
  predicateIRI : GoString
  obj : ClassifiedObject
deriving DecidableEq

/-- The checks of both writers before a triple is written. -/
def resolve (registry : GoString → Option PredicateMetadata) (t : ExportTriple F T V) :
    Option ResolvedTriple :=
  if t.subject = [] ∨ t.predicate = [] then none
  else if classifyObject go opts registry t = .invalid then none
  else
    some ⟨resolveSubjectIRI opts t.subject, resolvePredicateIRI registry t.predicate opts.baseIRI,
      classifyObject go opts registry t⟩

/-- The term an object stands for: a literal without a datatype is a string. -/
def ClassifiedObject.ground : ClassifiedObject → Rdf.GroundObject Rune
  | .literal lexical datatype _ => .literal lexical (if datatype = [] then xsdString else datatype)
  | .resource iri => .iri iri
  | .invalid => .iri []

/-- **The statement a kept triple means.** -/
def ResolvedTriple.ground (t : ResolvedTriple) : Rdf.Ground Rune :=
  ⟨t.subjectIRI, t.predicateIRI, t.obj.ground⟩

theorem resolve_ne_invalid {go : GoLib F T V} {opts : Options}
    (h : resolve go opts registry t = some r) : r.obj ≠ .invalid := by
  unfold resolve at h
  split at h
  · cases h
  split at h
  · cases h
  · next hvalid =>
    cases h
    exact hvalid

def escapeTurtleString (s : GoString) : GoString := lift (Rdf.escapeString (ranged s))

end SemStreams.Export
