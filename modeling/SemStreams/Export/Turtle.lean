import SemStreams.Lib.Rdf.Reading
import SemStreams.Export.NTriples
import Mathlib.Data.List.Sort
/-!
# vocabulary/export — Turtle

`writeTurtle` groups the kept triples by subject, shortens every IRI that starts with
a known namespace and has no slash after it, and writes integers and booleans bare.
What is left of a shortened IRI is not always a local name of the grammar. So, with a
prefix table in order, Turtle states what N-Triples states exactly if it is, for every
IRI that is shortened.
-/

namespace SemStreams.Export

open List Function Option

open Rdf (Ground GroundObject Statement Token isPNPrefix isPNLocal LegalIRI takeLocal skipSpace
  isLineEnd Lead tokenIRI xsd isSign isDigit quoted listTokens Machine writing Term)

/-! ## Prefixes -/

/-- A name with its namespace. -/
abbrev Entry := List Char × List Char

/-- The table `Register` fills: a map, so no name stands twice. A namespace that is not text
is the start of no legal IRI, and is left out. -/
structure Prefixes where
  entries : List Entry
  names_nodup : (entries.map Prod.fst).Nodup

def defaultPrefixes : Prefixes where
  entries :=
    [("rdf".toList, "http://www.w3.org/1999/02/22-rdf-syntax-ns#".toList),
      ("owl".toList, "http://www.w3.org/2002/07/owl#".toList),
      ("skos".toList, "http://www.w3.org/2004/02/skos/core#".toList),
      ("rdfs".toList, "http://www.w3.org/2000/01/rdf-schema#".toList),
      ("dc".toList, "http://purl.org/dc/terms/".toList),
      ("schema".toList, "https://schema.org/".toList),
      ("foaf".toList, "http://xmlns.com/foaf/0.1/".toList),
      ("prov".toList, "http://www.w3.org/ns/prov#".toList),
      ("ssn".toList, "http://www.w3.org/ns/ssn/".toList),
      ("sosa".toList, "http://www.w3.org/ns/sosa/".toList),
      ("xsd".toList, "http://www.w3.org/2001/XMLSchema#".toList),
      ("ss".toList, "https://semstreams.semanticstream.ing/".toList)]
  names_nodup := by decide +kernel

def ensureTrailingSlash (s : List Char) : List Char :=
  if s = [] ∨ s.getLast? = some '/' ∨ s.getLast? = some '#' then s else s ++ ['/']

/-- `scanPrefixes` looks every IRI up before the body is written. -/
inductive Pass
  | scan
  | write

/-- The order in which a range over the map meets its entries: any, at every look-up of
either pass. -/
structure MapRange where
  order : Pass → GoString → List Entry → List Entry
  perm : ∀ pass iri entries, (order pass iri entries).Perm entries

/-- `prefixMap`, with the orders it is ranged over in. -/
structure PrefixMap extends Prefixes where
  range : MapRange

/-- `newPrefixMap`. A base that is not text gives a namespace no legal IRI starts with, and
is left out. -/
def newPrefixMap (defaults : Prefixes) (range : MapRange) (base : GoString) : PrefixMap where
  entries :=
    if base = [] ∨ base = semStreamsBase then defaults.entries
    else ((utf8 base).map fun text => (['s', 's'], ensureTrailingSlash text)).toList ++
      defaults.entries.filter (·.1 ≠ ['s', 's'])
  names_nodup := by
    split
    · exact defaults.names_nodup
    · rw [map_append]
      refine Nodup.append ?_ (defaults.names_nodup.sublist (filter_sublist.map _)) ?_
      · cases utf8 base <;> simp
      · cases utf8 base <;> simp
  range := range

namespace PrefixMap

variable (pm : PrefixMap)

/-- A longer namespace that the IRI starts with. -/
def better (iri : GoString) (found : Option Entry) (e : Entry) : Option Entry :=
  if (lift e.2).isPrefixOf iri && (found.elim 0 fun f => f.2.length) < e.2.length then some e
  else found

/-- The entry with the longest namespace the IRI starts with. -/
def best (entries : List Entry) (iri : GoString) : Option Entry :=
  entries.foldl (better iri) none

/-- `compact`: the name and what is left of the IRI. -/
def compact (pass : Pass) (iri : GoString) : Option (List Char × GoString) :=
  (best (pm.range.order pass iri pm.entries) iri).bind fun e =>
    let rest := iri.drop e.2.length
    if rest.contains (.char '/') then none else some (e.1, rest)

/-- **A table in order**: the grammar accepts its names, and no two of them stand for one
namespace. `Register` and a custom base ask for neither. -/
structure Clear : Prop where
  name_ok : ∀ e ∈ pm.entries, isPNPrefix e.1 = true
  namespaces_nodup : (pm.entries.map Prod.snd).Nodup

end PrefixMap

structure ClearMap extends PrefixMap where
  clear : toPrefixMap.Clear

instance : CoeOut ClearMap PrefixMap := ⟨ClearMap.toPrefixMap⟩

/-! ## The writer -/

section Format

variable (pm : PrefixMap)

def formatTurtleTerm (iri : GoString) : GoString :=
  match pm.compact .write iri with
  | some (label, rest) => lift label ++ lit ":" ++ rest
  | none => lit "<" ++ iri ++ lit ">"

def formatTurtleLiteral (lexical datatype : GoString) (bare : Bool) : GoString :=
  if bare then lexical
  else if datatype = [] ∨ datatype = xsdString then
    lit "\"" ++ escapeTurtleString lexical ++ lit "\""
  else lit "\"" ++ escapeTurtleString lexical ++ lit "\"^^" ++ formatTurtleTerm pm datatype

def formatTurtleObject : ClassifiedObject → GoString
  | .resource iri => formatTurtleTerm pm iri
  | .literal lexical datatype bare => formatTurtleLiteral pm lexical datatype bare
  | .invalid => lit "\"\""

/-- The IRIs `scanPrefixes` looks at. -/
def scannedIRIs (t : ResolvedTriple) : List GoString :=
  t.subjectIRI :: t.predicateIRI ::
    match t.obj with
    | .resource iri => [iri]
    | .literal _ datatype _ => if datatype = [] ∨ datatype = xsdString then [] else [datatype]
    | .invalid => []

/-- `usedPrefixes`, with their namespaces. -/
def usedPrefixes (ts : List ResolvedTriple) : List Entry :=
  (pm.entries.filter fun e =>
    (ts.flatMap scannedIRIs).any fun iri => (pm.compact .scan iri).any fun c => c.1 = e.1).insertionSort
      fun a b => String.ofList a.1 ≤ String.ofList b.1

def writeTurtlePrefixes (ts : List ResolvedTriple) : GoString :=
  (usedPrefixes pm ts).flatMap (fun e =>
    lit "@prefix " ++ lift e.1 ++ lit ": <" ++ lift e.2 ++ lit "> .\n") ++
    if usedPrefixes pm ts = [] then [] else lit "\n"

/-- `sort.Slice`, of which triples with one predicate come in any order. -/
structure SortSlice where
  apply : List ResolvedTriple → List ResolvedTriple
  perm : ∀ ts, (apply ts).Perm ts

variable (sort : SortSlice)

/-- The subjects in the order they first occur. -/
def subjectOrder (ts : List ResolvedTriple) : List GoString :=
  (ts.map ResolvedTriple.subjectIRI).eraseDups

def groupOf (ts : List ResolvedTriple) (subject : GoString) : List ResolvedTriple :=
  sort.apply (ts.filter fun t => t.subjectIRI = subject)

/-- A verb with its object. -/
def formatPair (t : ResolvedTriple) : GoString :=
  formatTurtleTerm pm t.predicateIRI ++ lit " " ++ formatTurtleObject pm t.obj

/-- One group of `writeTurtleBody`. -/
def writeGroup (ts : List ResolvedTriple) (subject : GoString) : GoString :=
  formatTurtleTerm pm subject ++ lit " " ++
    (lit " ;\n    ").intercalate ((groupOf sort ts subject).map (formatPair pm)) ++ lit " .\n"

/-- `writeTurtle`, on the kept triples. -/
def writeResolved (ts : List ResolvedTriple) : GoString :=
  if ts = [] then []
  else
    writeTurtlePrefixes pm ts ++
      (lit "\n").intercalate ((subjectOrder ts).map (writeGroup pm sort ts))

end Format

def writeTurtle {F T V : Type*} (defaults : Prefixes) (range : MapRange) (sort : SortSlice)
    (go : GoLib F T V) (opts : Options) (registry : GoString → Option PredicateMetadata)
    (triples : List (ExportTriple F T V)) : GoString :=
  writeResolved (newPrefixMap defaults range opts.baseIRI) sort (kept go opts registry triples)

/-- What the Turtle grammar makes of a string. -/
def readTurtle (resolve : List Char → List Char → List Char) (text : GoString) :
    Option (List (Statement Rune)) :=
  ((utf8 text).bind (Rdf.parseTurtle resolve)).map (List.map (Statement.map .char))

/-! ## What is shortened well -/

/-- What is left of a shortened IRI is a local name of the grammar. -/
def termOk (pm : PrefixMap) (iri : GoString) : Bool :=
  match pm.compact .write iri with
  | some (_, rest) => isPNLocal (ranged rest)
  | none => true

/-- A literal's datatype is written only where the literal is not bare and not a plain
string. -/
def ClassifiedObject.shortensWell (pm : PrefixMap) : ClassifiedObject → Bool
  | .resource iri => termOk pm iri
  | .literal _ datatype bare => bare || datatype = [] || datatype = xsdString || termOk pm datatype
  | .invalid => true

/-- **Every IRI of the triple that Turtle shortens is shortened to a name.** -/
def ResolvedTriple.shortensWell (pm : PrefixMap) (t : ResolvedTriple) : Bool :=
  termOk pm t.subjectIRI && termOk pm t.predicateIRI && t.obj.shortensWell pm

open ResolvedTriple

def ClassifiedObject.legalIRIs : ClassifiedObject → Bool
  | .resource iri => legalIRI iri
  | .literal _ datatype _ => legalIRI datatype
  | .invalid => true

/-- The IRIs of the triple, a literal's datatype among them, are made of what an IRI
reference may hold. -/
def ResolvedTriple.legalIRIs (t : ResolvedTriple) : Bool :=
  legalIRI t.subjectIRI && legalIRI t.predicateIRI && t.obj.legalIRIs

/-! ## Terms -/

section Terms

variable {pm : ClearMap} {iri : GoString}

theorem ranged_append (a b : GoString) : ranged (a ++ b) = ranged a ++ ranged b :=
  map_append

@[simp] theorem ranged_lit (text : String) : ranged (lit text) = text.toList := ranged_lift _

theorem lift_isPrefixOf : (lift a).isPrefixOf s ↔ ∃ b, s = lift a ++ b := by
  rw [ isPrefixOf_iff_prefix]
  exact exists_congr fun b => eq_comm

/-- The entry found is one whose namespace the IRI starts with. -/
theorem foldl_better_spec {entries : List Entry}
    {found : Option Entry} {e : Entry}
    (h : entries.foldl (PrefixMap.better iri) found = some e) :
    found = some e ∨ e ∈ entries ∧ ∃ b, iri = lift e.2 ++ b := by
  induction entries generalizing found with
  | nil => exact .inl h
  | cons d entries ih =>
    rcases ih h with hfound | ⟨hmem, hstarts⟩
    · unfold PrefixMap.better at hfound
      split at hfound
      · next hbetter =>
        rw [Bool.and_eq_true] at hbetter
        cases hfound
        exact .inr ⟨by simp, lift_isPrefixOf.1 hbetter.1⟩
      · exact .inl hfound
    · exact .inr ⟨by simp [hmem], hstarts⟩

theorem compact_spec {pass : Pass} (h : pm.compact pass iri = some (label, rest)) :
    ∃ ns, (label, ns) ∈ pm.entries ∧ iri = lift ns ++ rest := by
  obtain ⟨⟨_, ns⟩, hbest, h⟩ := bind_eq_some_iff.1 h
  obtain ⟨hmem, b, rfl⟩ := (foldl_better_spec hbest).resolve_left nofun
  have hdrop : (lift ns ++ b).drop ns.length = b := by
    have hlen : ns.length = (lift ns).length := by simp [lift]
    rw [hlen, drop_left]
  simp only [hdrop] at h
  obtain ⟨_, h⟩ := ite_none_left_eq_some.1 h
  obtain ⟨rfl, rfl⟩ := h
  exact ⟨ns, (pm.range.perm _ _ _).mem_iff.1 hmem, rfl⟩

/-- Two namespaces an IRI starts with differ in length, so it does not matter which is met
first. -/
theorem better_comm (hx : x ∈ pm.entries)
    (hy : y ∈ pm.entries) : PrefixMap.better iri (PrefixMap.better iri found x) y =
      PrefixMap.better iri (PrefixMap.better iri found y) x := by
  by_cases hlen : (lift x.2).isPrefixOf iri ∧ (lift y.2).isPrefixOf iri ∧
      x.2.length = y.2.length
  · obtain ⟨hstart, hstart', hlen⟩ := hlen
    obtain ⟨⟨_, rfl⟩, _, h⟩ := And.intro (lift_isPrefixOf.1 hstart) (lift_isPrefixOf.1 hstart')
    have hlift : lift x.2 = lift y.2 := (append_inj h (by simp [lift, hlen])).1
    have hns : x.2 = y.2 := by rw [← ranged_lift x.2, hlift, ranged_lift]
    rw [inj_on_of_nodup_map pm.clear.namespaces_nodup hx hy hns]
  · cases found <;> simp only [PrefixMap.better] <;> grind

theorem compact_pass (pass pass' : Pass) : pm.compact pass iri = pm.compact pass' iri := by
  have hperm := fun pass => pm.range.perm pass iri pm.entries
  have hbest := ((hperm pass).trans (hperm pass').symm).foldl_eq' (f := PrefixMap.better iri)
    (fun x hx y hy found => better_comm ((hperm pass).mem_iff.1 hx) ((hperm pass).mem_iff.1 hy))
    none
  simp only [PrefixMap.compact, PrefixMap.best, hbest]

/-- The token a reader finds where an IRI was written, and what it leaves of it. -/
def termToken (pm : ClearMap) (iri : GoString) : Token :=
  match pm.compact .write iri with
  | some (label, rest) => .pname label (takeLocal (ranged rest)).1
  | none => .iriref (ranged iri)

def termLeft (pm : ClearMap) (iri : GoString) : List Char :=
  match pm.compact .write iri with
  | some (_, rest) => (takeLocal (ranged rest)).2
  | none => []

theorem termLeft_of_ok (h : termOk pm iri) : termLeft pm iri = [] := by
  unfold termOk at h
  unfold termLeft
  split
  · next heq =>
    rw [heq] at h
    simp only [isPNLocal, decide_eq_true_eq] at h
    rw [h]
  · rfl

/-- A text that starts with no space and no comment. -/
theorem skipSpace_cons
    (hp : [' ', '\t', '\n', '\r', '#'].any p = false) (h : p c) (text : List Char) :
    skipSpace false (c :: text) = c :: text := by
  have hne : ∀ d ∈ [' ', '\t', '\n', '\r', '#'], c ≠ d := by
    rintro d hd rfl
    exact any_eq_false.1 hp c hd h
  have hspace : (decide (c = ' ') || decide (c = '\t') || isLineEnd c) = false := by
    simp [isLineEnd, hne]
  rw [skipSpace, hspace, if_neg (by simp), if_neg (hne '#' (by simp))]

theorem legal_append : legalIRI (a ++ b) ↔ legalIRI a ∧ legalIRI b := by
  simp [legalIRI, all_append]

theorem legal_rest (h : legalIRI (a ++ b)) : '\x5c' ∉ ranged b := by
  intro hslash
  exact absurd ((legalIRI_iff.1 (legal_append.1 h).2).2 _ hslash) (by decide)

theorem lead_iriref {iri : List Char} (h : LegalIRI iri) (text : List Char) :
    Lead ('<' :: (iri ++ '>' :: text)) [.iriref iri] text := by
  refine .one rfl ?_ (Rdf.readToken_iriref h)
  simp only [length_cons, length_append]
  omega

/-- A prefixed name, as far as it is one. -/
theorem lead_pname {name : List Char} (hlabel : isPNPrefix label) (hname : '\x5c' ∉ name)
    (text : List Char) : Lead (label ++ ':' :: (name ++ ' ' :: text))
      [.pname label (takeLocal name).1] ((takeLocal name).2 ++ ' ' :: text) := by
  have hread := Rdf.readToken_pname hlabel (name ++ ' ' :: text)
  rw [Rdf.readLocal, Rdf.takeLocal_append] at hread
  have hlen := congrArg List.length (Rdf.takeLocal_fst_append_snd hname)
  refine .one ?_ ?_ hread
  · cases label with
    | nil => cases hlabel
    | cons c label =>
      simp only [isPNPrefix, Bool.and_eq_true] at hlabel
      exact skipSpace_cons (by decide) hlabel.1 _
  · simp only [length_append, length_cons] at hlen ⊢
    omega

/-- **How a written IRI is read**: as a reference, or as a prefixed name as far as it is
one. -/
theorem lead_term (h : legalIRI iri) (text : List Char) :
    Lead (ranged (formatTurtleTerm pm iri) ++ ' ' :: text) [termToken pm iri]
      (termLeft pm iri ++ ' ' :: text) := by
  unfold formatTurtleTerm termToken termLeft
  cases hcompact : pm.compact .write iri with
  | none =>
    have htext : ranged (lit "<" ++ iri ++ lit ">") ++ ' ' :: text =
        '<' :: (ranged iri ++ '>' :: ' ' :: text) := by
      simp [ranged_append]
    rw [htext]
    exact lead_iriref (legalIRI_iff.1 h).2 _
  | some found =>
    obtain ⟨label, rest⟩ := found
    obtain ⟨_, hmem, rfl⟩ := compact_spec hcompact
    have htext : ranged (lift label ++ lit ":" ++ rest) ++ ' ' :: text =
        label ++ ':' :: (ranged rest ++ ' ' :: text) := by
      simp [ranged_append]
    rw [htext]
    exact lead_pname (pm.clear.name_ok _ hmem) (legal_rest h) text

/-- The labels a reader knows are the ones the IRI is shortened with. -/
def Labelled (pm : ClearMap) (labels : List Entry) (iri : GoString) : Prop :=
  ∀ label rest ns, pm.compact .write iri = some (label, rest) → (label, ns) ∈ pm.entries →
    labels.lookup label = some ns

/-- **The token stands for the IRI exactly if it is shortened well.** -/
theorem tokenIRI_termToken (hlegal : legalIRI iri) (hlabels : Labelled pm labels iri) :
    ∃ value, tokenIRI labels (termToken pm iri) = some value ∧
      (value = ranged iri ↔ termOk pm iri) := by
  unfold termToken termOk
  cases hcompact : pm.compact .write iri with
  | none => exact ⟨ranged iri, rfl, by simp⟩
  | some found =>
    obtain ⟨label, rest⟩ := found
    obtain ⟨ns, hmem, rfl⟩ := compact_spec hcompact
    have hlookup := hlabels label rest ns hcompact hmem
    refine ⟨ns ++ (takeLocal (ranged rest)).1, by simp [tokenIRI, hlookup], ?_⟩
    rw [ranged_append, ranged_lift, append_right_inj, Rdf.isPNLocal_iff (legal_rest hlegal)]

theorem tokenIRI_of_ok (hlegal : legalIRI iri) (hlabels : Labelled pm labels iri)
    (hok : termOk pm iri) : tokenIRI labels (termToken pm iri) = some (ranged iri) := by
  obtain ⟨_, hvalue, heq⟩ := tokenIRI_termToken hlegal hlabels
  rw [hvalue, heq.2 hok]

end Terms

/-! ## Objects -/

section Objects

variable {pm : ClearMap}

def bareToken (lexical : GoString) : Token :=
  if lexical = formatBool true then .boolean true
  else if lexical = formatBool false then .boolean false
  else .number (ranged lexical) (xsd "integer")

/-- The tokens of an object that is shortened well. -/
def objectTokens (pm : ClearMap) : ClassifiedObject → List Token
  | .resource iri => [termToken pm iri]
  | .literal lexical datatype bare =>
    if bare then [bareToken lexical]
    else if datatype = [] ∨ datatype = xsdString then [.string (ranged lexical)]
    else [.string (ranged lexical), .datatypeMark, termToken pm datatype]
  | .invalid => []

/-- A bare literal is an integer or a boolean. -/
def ClassifiedObject.BareOk : ClassifiedObject → Prop
  | .literal lexical datatype true =>
    (∃ i, lexical = formatInt i ∧ datatype = xsdInteger) ∨
      ∃ b, lexical = formatBool b ∧ datatype = xsdBoolean
  | _ => True

theorem formatInt_eq (i : ℤ) : ∃ sign digits, ranged (formatInt i) = sign ++ digits ∧
    isSign sign ∧ digits ≠ [] ∧ ∀ c ∈ digits, isDigit c := by
  have hdigits : ∀ n : ℕ, ∀ c ∈ (Nat.toDigits 10 n), isDigit c := by
    intro n c hc
    have hdigit := Nat.isDigit_of_mem_toDigits (by decide) (by decide) hc
    simp only [Char.isDigit, Bool.and_eq_true, decide_eq_true_eq, ge_iff_le] at hdigit
    simp only [isDigit, Bool.and_eq_true, decide_eq_true_eq]
    exact hdigit
  cases i with
  | ofNat n =>
    refine ⟨[], Nat.toDigits 10 n, ?_, rfl, Nat.toDigits_ne_nil, hdigits n⟩
    rw [formatInt, ranged_lit]
    show (Nat.repr n).toList = _
    simp [Nat.repr]
  | negSucc n =>
    refine ⟨['-'], Nat.toDigits 10 (n + 1), ?_, rfl, Nat.toDigits_ne_nil, hdigits (n + 1)⟩
    rw [formatInt, ranged_lit]
    show ("-" ++ Nat.repr (n + 1)).toList = _
    simp [Nat.repr]

theorem skipSpace_integer (hsign : isSign sign)
    (hne : digits ≠ []) (hdigits : ∀ c ∈ digits, isDigit c) (text : List Char) :
    skipSpace false (sign ++ digits ++ text) = sign ++ digits ++ text := by
  simp only [isSign, Bool.or_eq_true, decide_eq_true_eq] at hsign
  rcases hsign with rfl | rfl
  · cases digits with
    | nil => exact absurd rfl hne
    | cons d digits => exact skipSpace_cons (by decide) (hdigits d (by simp)) _
  · rfl

theorem formatBool_ne_formatInt (b : Bool) (i : ℤ) : formatInt i ≠ formatBool b := by
  intro heq
  obtain ⟨_, digits, htext, _, hne, hdigits⟩ := formatInt_eq i
  rw [heq, formatBool, ranged_lit] at htext
  -- the last letter would be a digit
  have hlast : ∀ c ∈ digits.getLast?, isDigit c :=
    fun c hc => hdigits c (mem_of_getLast? hc)
  have hsame := congrArg List.getLast? htext
  rw [List.getLast?_append_of_ne_nil _ hne] at hsame
  rw [← hsame] at hlast
  cases b <;> exact absurd (hlast 'e' rfl) (by decide)

theorem lead_bare {lexical datatype : GoString} {bare : Bool} (hbare : bare)
    (h : ClassifiedObject.BareOk (.literal lexical datatype bare)) (text : List Char) :
    Lead (ranged lexical ++ ' ' :: text) [bareToken lexical] (' ' :: text) := by
  subst hbare
  rcases h with ⟨i, rfl, -⟩ | ⟨b, rfl, -⟩
  · obtain ⟨sign, digits, htext, hsign, hne, hdigits⟩ := formatInt_eq i
    have htoken : bareToken (formatInt i) = .number (sign ++ digits) (xsd "integer") := by
      rw [bareToken, if_neg (formatBool_ne_formatInt true i),
        if_neg (formatBool_ne_formatInt false i), htext]
    rw [htoken, htext]
    refine .one (skipSpace_integer hsign hne hdigits _) ?_
      (Rdf.readToken_integer hsign hne hdigits text)
    have := length_pos_iff.2 hne
    simp only [length_append, length_cons]
    omega
  · have htoken : bareToken (formatBool b) = .boolean b := by
      cases b
      · rw [bareToken, if_neg (by decide), if_pos rfl]
      · rw [bareToken, if_pos rfl]
    rw [htoken, formatBool, ranged_lit]
    refine .one ?_ ?_ (Rdf.readToken_boolean b text)
    · cases b <;> rfl
    · cases b <;> simp

theorem lead_quoted (lexical : GoString) (hc : c ≠ '\x22') (text : List Char) :
    Lead (quoted (ranged lexical) ++ c :: text) [.string (ranged lexical)] (c :: text) := by
  refine .one rfl ?_ (Rdf.readToken_quoted _ hc text)
  simp only [quoted, length_append, length_cons]
  omega

theorem ranged_quoted (lexical : GoString) :
    ranged (lit "\"" ++ escapeTurtleString lexical ++ lit "\"") = quoted (ranged lexical) := by
  simp [ranged_append, escapeTurtleString, quoted]

/-- A typed literal, as far as its datatype. -/
theorem lead_typed (lexical datatype : GoString) (hlegal : legalIRI datatype)
    (text : List Char) :
    Lead (ranged (lit "\"" ++ escapeTurtleString lexical ++ lit "\"^^" ++
        formatTurtleTerm pm datatype) ++ ' ' :: text)
      [.string (ranged lexical), .datatypeMark, termToken pm datatype]
      (termLeft pm datatype ++ ' ' :: text) := by
  have htext : ranged (lit "\"" ++ escapeTurtleString lexical ++ lit "\"^^" ++
      formatTurtleTerm pm datatype) ++ ' ' :: text =
      quoted (ranged lexical) ++ '^' :: '^' ::
        (ranged (formatTurtleTerm pm datatype) ++ ' ' :: text) := by
    simp [ranged_append, escapeTurtleString, quoted]
  rw [htext]
  have hmark : Lead ('^' :: '^' :: (ranged (formatTurtleTerm pm datatype) ++ ' ' :: text))
      [.datatypeMark] (ranged (formatTurtleTerm pm datatype) ++ ' ' :: text) := by
    refine .one rfl ?_ (Rdf.readToken_datatypeMark _)
    simp only [length_cons]
    omega
  exact (lead_quoted lexical (by decide) _).trans (hmark.trans (lead_term hlegal text))

/-- **How a written object is read.** -/
theorem lead_object {obj : ClassifiedObject} (hvalid : obj ≠ .invalid) (hbare : obj.BareOk)
    (hlegal : obj.legalIRIs) (hok : obj.shortensWell pm) (text : List Char) :
    Lead (ranged (formatTurtleObject pm obj) ++ ' ' :: text) (objectTokens pm obj)
      (' ' :: text) := by
  cases obj with
  | invalid => exact absurd rfl hvalid
  | resource iri =>
    have hlead := @lead_term pm _ hlegal text
    rwa [termLeft_of_ok hok] at hlead
  | literal lexical datatype bare =>
    simp only [formatTurtleObject, formatTurtleLiteral, objectTokens]
    cases bare with
    | true => exact lead_bare rfl hbare text
    | false =>
      simp only [Bool.false_eq_true, if_false]
      split
      · rw [ranged_quoted]
        exact lead_quoted lexical (by decide) text
      · next hplain =>
        rw [not_or] at hplain
        have hdatatype : termOk pm datatype := by
          simpa [ClassifiedObject.shortensWell, hplain.1, hplain.2] using hok
        have hlead := @lead_typed pm lexical datatype hlegal text
        rwa [termLeft_of_ok hdatatype] at hlead

/-- The term of an object, as its line states it. -/
theorem objectTokens_spec (hvalid : t.obj ≠ .invalid) (hbare : t.obj.BareOk) (hlegal : t.legalIRIs)
    (hok : t.shortensWell pm) (hlabels : ∀ iri ∈ scannedIRIs t, Labelled pm labels iri) :
    Rdf.ObjectTokens labels (objectTokens pm t.obj) t.stated.object.term := by
  obtain ⟨s, p, obj⟩ := t
  simp only [legalIRIs, shortensWell, Bool.and_eq_true] at hlegal hok
  cases obj with
  | invalid => exact absurd rfl hvalid
  | resource iri => exact .iri (tokenIRI_of_ok hlegal.2 (hlabels iri (by simp [scannedIRIs])) hok.2)
  | literal lexical datatype bare =>
    cases bare with
    | true =>
      rcases hbare with ⟨i, rfl, rfl⟩ | ⟨b, rfl, rfl⟩
      · have htoken : objectTokens pm (.literal (formatInt i) xsdInteger true) =
            [.number (ranged (formatInt i)) (xsd "integer")] := by
          simp [objectTokens, bareToken, formatBool_ne_formatInt]
        have hterm : (stated ⟨s, p, .literal (formatInt i) xsdInteger true⟩).object.term =
            .literal (ranged (formatInt i)) (xsd "integer") [] := rfl
        rw [htoken, hterm]
        exact .number _ _
      · have htoken : objectTokens pm (.literal (formatBool b) xsdBoolean true) = [.boolean b] := by
          cases b <;> rfl
        have hterm : (stated ⟨s, p, .literal (formatBool b) xsdBoolean true⟩).object.term =
            .literal (if b then "true" else "false").toList (xsd "boolean") [] := by
          cases b <;> rfl
        rw [htoken, hterm]
        exact .boolean b
    | false =>
      by_cases hplain : datatype = [] ∨ datatype = xsdString
      · have hterm : (stated ⟨s, p, .literal lexical datatype false⟩).object.term =
            .literal (ranged lexical) Rdf.xsdString [] := by
          rcases hplain with rfl | rfl <;> rfl
        have htoken : objectTokens pm (.literal lexical datatype false) =
            [.string (ranged lexical)] := by
          simp [objectTokens, hplain]
        rw [hterm, htoken]
        exact .plain _
      · have hplain' := not_or.1 hplain
        have hdatatype : termOk pm datatype := by
          simpa [ClassifiedObject.shortensWell, hplain'.1, hplain'.2] using hok.2
        have hterm : (stated ⟨s, p, .literal lexical datatype false⟩).object.term =
            .literal (ranged lexical) (ranged datatype) [] := by
          simp [stated, ClassifiedObject.ground, hplain'.1, GroundObject.term]
        have htoken : objectTokens pm (.literal lexical datatype false) =
            [.string (ranged lexical), .datatypeMark, termToken pm datatype] := by
          simp [objectTokens, hplain]
        rw [hterm, htoken]
        exact .typed _ (tokenIRI_of_ok hlegal.2
          (hlabels datatype (by simp [scannedIRIs, hplain])) hdatatype)

end Objects

/-! ## Documents -/

section Documents

variable {pm : ClearMap} {sort : SortSlice} {ts : List ResolvedTriple}

/-- What a triple has to be for its tokens to be what they are meant to be. -/
structure Writes (pm : ClearMap) (t : ResolvedTriple) : Prop where
  valid : t.obj ≠ .invalid
  bare : t.obj.BareOk
  legal : t.legalIRIs = true
  short : t.shortensWell pm = true

variable {t : ResolvedTriple}

theorem legal_parts (h : t.legalIRIs) :
    legalIRI t.subjectIRI ∧ legalIRI t.predicateIRI ∧ t.obj.legalIRIs := by
  simp only [legalIRIs, Bool.and_eq_true] at h
  exact ⟨h.1.1, h.1.2, h.2⟩

theorem Writes.parts (h : Writes pm t) :
    (legalIRI t.subjectIRI ∧ legalIRI t.predicateIRI ∧ t.obj.legalIRIs) ∧
      termOk pm t.subjectIRI ∧ termOk pm t.predicateIRI ∧
        t.obj.shortensWell pm := by
  have hshort := h.short
  simp only [shortensWell, Bool.and_eq_true] at hshort
  exact ⟨legal_parts h.legal, hshort.1.1, hshort.1.2, hshort.2⟩

/-- The tokens of a verb with its object. -/
def pairTokens (pm : ClearMap) (t : ResolvedTriple) : Token × List Token :=
  (termToken pm t.predicateIRI, objectTokens pm t.obj)

theorem lead_pair (h : Writes pm t) (text : List Char) :
    Lead (ranged (formatPair pm t) ++ ' ' :: text)
      ((pairTokens pm t).1 :: (pairTokens pm t).2) (' ' :: text) := by
  obtain ⟨⟨-, hlegal, hlegal'⟩, -, hok, hok'⟩ := h.parts
  have htext : ranged (formatPair pm t) ++ ' ' :: text =
      ranged (formatTurtleTerm pm t.predicateIRI) ++ ' ' ::
        (ranged (formatTurtleObject pm t.obj) ++ ' ' :: text) := by
    simp [formatPair, ranged_append]
  have hverb := @lead_term pm _ hlegal (ranged (formatTurtleObject pm t.obj) ++ ' ' :: text)
  rw [termLeft_of_ok hok] at hverb
  rw [htext]
  exact hverb.trans ((Lead.space rfl).trans (lead_object h.valid h.bare hlegal' hok' text))

/-- What stands after the last object of a group, and after another one. -/
def stopMark : List Char := [' ', '.', '\n']

def nextMark : List Char := [' ', ';', '\n', ' ', ' ', ' ', ' ']

theorem lead_stop (text : List Char) : Lead (stopMark ++ text) [.dot] text := by
  have hdot : Lead ('.' :: '\n' :: text) [.dot] ('\n' :: text) :=
    .one rfl (by simp) (Rdf.readToken_dot _)
  exact (Lead.space rfl).trans (hdot.trans (Lead.space rfl))

theorem lead_next (text : List Char) : Lead (nextMark ++ text) [.semicolon] text := by
  have hmark : Lead (';' :: '\n' :: ' ' :: ' ' :: ' ' :: ' ' :: text) [.semicolon]
      ('\n' :: ' ' :: ' ' :: ' ' :: ' ' :: text) :=
    .one rfl (by simp) (Rdf.readToken_semicolon _)
  have hindent : Lead ('\n' :: ' ' :: ' ' :: ' ' :: ' ' :: text) [] text :=
    (Lead.space rfl).trans ((Lead.space rfl).trans ((Lead.space rfl).trans
      ((Lead.space rfl).trans (Lead.space rfl))))
  exact (Lead.space rfl).trans (hmark.trans hindent)

theorem ranged_intercalate (sep : GoString) (parts : List GoString) :
    ranged (sep.intercalate parts) = (ranged sep).intercalate (parts.map ranged) := by
  induction parts with
  | nil => rfl
  | cons x parts ih =>
    cases parts with
    | nil => simp [ranged]
    | cons y parts =>
      rw [intercalate_cons_cons, ranged_append, ranged_append, ih]
      simp only [map_cons]
      rw [intercalate_cons_cons]

/-- The verbs and objects of a group. -/
theorem lead_list (hne : items ≠ []) (h : ∀ t ∈ items, Writes pm t) (text : List Char) :
    Lead (nextMark.intercalate (items.map fun t => ranged (formatPair pm t)) ++
      (stopMark ++ text)) (listTokens (items.map (pairTokens pm))) text := by
  induction items with
  | nil => exact absurd rfl hne
  | cons t items ih =>
    have ht := h t (by simp)
    cases items with
    | nil =>
      simp only [map_cons, map_nil, intercalate_singleton]
      exact (lead_pair ht _).trans (lead_stop text)
    | cons t' items =>
      have hrest := ih (by simp) fun u hu => h u (by simp [hu])
      simp only [map_cons] at hrest ⊢
      have htokens : listTokens (pairTokens pm t :: pairTokens pm t' ::
          items.map (pairTokens pm)) = ((pairTokens pm t).1 :: (pairTokens pm t).2) ++
            ([.semicolon] ++ listTokens (pairTokens pm t' :: items.map (pairTokens pm))) := by
        simp [listTokens]
      rw [intercalate_cons_cons, append_assoc, append_assoc, htokens]
      exact (lead_pair ht _).trans ((lead_next _).trans hrest)

def groupTokens (pm : ClearMap) (sort : SortSlice) (ts : List ResolvedTriple) (subject : GoString) :
    List Token :=
  termToken pm subject :: listTokens ((groupOf sort ts subject).map (pairTokens pm))

theorem mem_groupOf {subject : GoString} :
    t ∈ groupOf sort ts subject ↔ t ∈ ts ∧ t.subjectIRI = subject := by
  rw [groupOf, (sort.perm _).mem_iff, mem_filter]
  simp

theorem mem_subjectOrder {subject : GoString} :
    subject ∈ subjectOrder ts ↔ ∃ t ∈ ts, t.subjectIRI = subject := by
  rw [subjectOrder, mem_eraseDups, List.mem_map]

theorem groupOf_ne_nil (h : subject ∈ subjectOrder ts) :
    groupOf sort ts subject ≠ [] := by
  obtain ⟨t, ht, heq⟩ := mem_subjectOrder.1 h
  exact ne_nil_of_mem (mem_groupOf.2 ⟨ht, heq⟩)

theorem lead_group (h : ∀ t ∈ ts, Writes pm t) {subject : GoString}
    (hsubject : subject ∈ subjectOrder ts) (text : List Char) :
    Lead (ranged (writeGroup pm sort ts subject) ++ text) (groupTokens pm sort ts subject)
      text := by
  obtain ⟨t, ht, heq⟩ := mem_subjectOrder.1 hsubject
  obtain ⟨⟨hlegal, -, -⟩, hok, -, -⟩ := (h t ht).parts
  rw [heq] at hlegal hok
  have hne : groupOf sort ts subject ≠ [] := groupOf_ne_nil hsubject
  have hlist := lead_list hne (fun u hu => h u (mem_groupOf.1 hu).1) text
  have hterm := @lead_term pm _ hlegal (nextMark.intercalate
    ((groupOf sort ts subject).map fun t => ranged (formatPair pm t)) ++ (stopMark ++ text))
  rw [termLeft_of_ok hok] at hterm
  have htext : ranged (writeGroup pm sort ts subject) ++ text =
      ranged (formatTurtleTerm pm subject) ++ ' ' :: (nextMark.intercalate
        ((groupOf sort ts subject).map fun t => ranged (formatPair pm t)) ++
          (stopMark ++ text)) := by
    simp [writeGroup, ranged_append, ranged_intercalate, comp_def, nextMark, stopMark]
  rw [htext]
  exact hterm.trans ((Lead.space rfl).trans hlist)

theorem lead_groups (h : ∀ t ∈ ts, Writes pm t) {subjects : List GoString}
    (hsubjects : ∀ s ∈ subjects, s ∈ subjectOrder ts) :
    Lead (ranged ((lit "\n").intercalate (subjects.map (writeGroup pm sort ts))))
      (subjects.flatMap (groupTokens pm sort ts)) [] := by
  induction subjects with
  | nil => exact Lead.refl _
  | cons s subjects ih =>
    have hs := @lead_group pm sort ts h s (hsubjects s (by simp))
    have hrest := ih fun s' hs' => hsubjects s' (by simp [hs'])
    cases subjects with
    | nil =>
      have hone := hs []
      simpa using hone
    | cons s' subjects =>
      simp only [map_cons] at hrest ⊢
      rw [intercalate_cons_cons, ranged_append, ranged_append, append_assoc]
      exact (hs _).trans ((Lead.space rfl).trans hrest)

/-! ### Directives -/

def directive (e : Entry) : List Token :=
  [.atPrefix, .pname e.1 [], .iriref e.2, .dot]

variable {e : Entry}

theorem lead_directive (he : e ∈ pm.entries) (hlegal : LegalIRI e.2) (text : List Char) :
    Lead (ranged (lit "@prefix " ++ lift e.1 ++ lit ": <" ++ lift e.2 ++ lit "> .\n") ++ text)
      (directive e) text := by
  have htext : ranged (lit "@prefix " ++ lift e.1 ++ lit ": <" ++ lift e.2 ++ lit "> .\n") ++ text =
      "@prefix".toList ++ ' ' :: (e.1 ++ ':' :: ([] ++ ' ' :: '<' :: (e.2 ++ '>' ::
        (stopMark ++ text)))) := by
    simp [ranged_append, stopMark]
  have hat : ∀ rest, Lead ("@prefix".toList ++ ' ' :: rest) [.atPrefix] (' ' :: rest) :=
    fun _ => .one rfl (by simp) (Rdf.readToken_atPrefix _)
  rw [htext]
  exact (hat _).trans ((Lead.space rfl).trans
    ((lead_pname (pm.clear.name_ok e he) not_mem_nil _).trans ((Lead.space rfl).trans
      ((lead_iriref hlegal _).trans (lead_stop text)))))

theorem mem_usedPrefixes : e ∈ usedPrefixes pm ts ↔ e ∈ pm.entries ∧
      ∃ t ∈ ts, ∃ iri ∈ scannedIRIs t, ∃ rest, pm.compact .scan iri = some (e.1, rest) := by
  rw [usedPrefixes, mem_insertionSort, mem_filter]
  simp only [List.any_eq_true, mem_flatMap, Option.any_eq_true, decide_eq_true_eq, Prod.exists]
  refine and_congr_right fun _ => ?_
  constructor
  · rintro ⟨iri, ⟨t, ht, hiri⟩, _, rest, hcompact, rfl⟩
    exact ⟨t, ht, iri, hiri, rest, hcompact⟩
  · rintro ⟨t, ht, iri, hiri, rest, hcompact⟩
    exact ⟨iri, ⟨t, ht, hiri⟩, e.1, rest, hcompact, rfl⟩

theorem lead_directives {used : List Entry}
    (hused : ∀ e ∈ used, e ∈ pm.entries ∧ LegalIRI e.2) (text : List Char) :
    Lead (ranged (used.flatMap fun e =>
      lit "@prefix " ++ lift e.1 ++ lit ": <" ++ lift e.2 ++ lit "> .\n") ++ text)
      (used.flatMap directive) text := by
  induction used with
  | nil => exact Lead.refl _
  | cons e used ih =>
    have hrest := ih fun e' he' => hused e' (by simp [he'])
    rw [flatMap_cons, flatMap_cons, ranged_append, append_assoc]
    obtain ⟨he, hlegal⟩ := hused e (by simp)
    exact (lead_directive he hlegal _).trans hrest

theorem legal_scanned (h : t.legalIRIs) (hiri : iri ∈ scannedIRIs t) :
    legalIRI iri := by
  obtain ⟨s, p, obj⟩ := t
  simp only [legalIRIs, Bool.and_eq_true] at h
  rcases mem_cons.1 hiri with rfl | hiri
  · exact h.1.1
  rcases mem_cons.1 hiri with rfl | hiri
  · exact h.1.2
  cases obj with
  | invalid => cases hiri
  | resource value =>
    rw [mem_singleton.1 hiri]
    exact h.2
  | literal lexical datatype bare =>
    dsimp only at hiri
    split at hiri
    · cases hiri
    · rw [mem_singleton.1 hiri]
      exact h.2

/-- A namespace that is declared is the start of a legal IRI. -/
theorem legal_of_used (h : ∀ t ∈ ts, t.legalIRIs) (he : e ∈ usedPrefixes pm ts) :
    e ∈ pm.entries ∧ LegalIRI e.2 := by
  obtain ⟨hmem, t, ht, _, hiri, _, hcompact⟩ := mem_usedPrefixes.1 he
  obtain ⟨ns, hns, rfl⟩ := compact_spec hcompact
  have hlegal := (legalIRI_iff.1 (legal_append.1 (legal_scanned (h t ht) hiri)).1).2
  rw [ranged_lift] at hlegal
  have heq : (e.1, ns) = e := inj_on_of_nodup_map pm.names_nodup hns hmem rfl
  rw [← heq]
  exact ⟨hns, hlegal⟩

theorem lead_prefixes (h : ∀ t ∈ ts, t.legalIRIs) (text : List Char) :
    Lead (ranged (writeTurtlePrefixes pm ts) ++ text) ((usedPrefixes pm ts).flatMap directive)
      text := by
  have hused : ∀ e ∈ usedPrefixes pm ts, e ∈ pm.entries ∧ LegalIRI e.2 :=
    fun e he => legal_of_used h he
  unfold writeTurtlePrefixes
  rw [ranged_append, append_assoc]
  have hlead := lead_directives hused
  split
  · exact hlead text
  · have hline : Lead (ranged (lit "\n") ++ text) [] text := Lead.space rfl
    have hall := (hlead (ranged (lit "\n") ++ text)).trans hline
    rwa [append_nil] at hall

/-! ### Runs -/

theorem lookup_of_mem {α β : Type*} [BEq α] [LawfulBEq α] {l : List (α × β)} {k : α} {v : β}
    (hnodup : (l.map Prod.fst).Nodup) (h : (k, v) ∈ l) : l.lookup k = some v := by
  obtain ⟨front, back, rfl⟩ := append_of_mem h
  rw [map_append, nodup_append] at hnodup
  refine lookup_eq_some_iff.2 ⟨front, back, rfl, fun e he => ?_⟩
  have hne := hnodup.2.2 e.1 (mem_map_of_mem he) k (by simp)
  simpa using hne.symm

/-- The labels a reader knows after the directives. -/
def declared (pm : ClearMap) (ts : List ResolvedTriple) : List Entry :=
  (usedPrefixes pm ts).reverse

theorem labelled_declared (ht : t ∈ ts) {iri : GoString} (hiri : iri ∈ scannedIRIs t) :
    Labelled pm (declared pm ts) iri := by
  intro _ rest _ hcompact hmem
  rw [compact_pass .write .scan] at hcompact
  refine lookup_of_mem ?_ (mem_reverse.2 (mem_usedPrefixes.2 ⟨hmem, t, ht, iri, hiri, rest, hcompact⟩))
  have hperm : (usedPrefixes pm ts).Perm _ := perm_insertionSort _ _
  rw [declared, map_reverse, nodup_reverse]
  exact ((hperm.map Prod.fst).nodup_iff).2 (pm.names_nodup.sublist (filter_sublist.map _))

variable (resolve : List Char → List Char → List Char)

theorem run_directives (used labels : List Entry) (out : List (Statement Char)) :
    run (Machine.step resolve) (writing labels out .statement) (used.flatMap directive) =
      some (writing (used.reverse ++ labels) out .statement) := by
  induction used generalizing labels with
  | nil => rfl
  | cons e used ih =>
    rw [flatMap_cons, run_append, directive, Rdf.run_directive, bind_some, ih]
    simp

theorem run_declared : run (Machine.step resolve) (writing [] [] .statement)
        ((usedPrefixes pm ts).flatMap directive) =
      some (writing (declared pm ts) [] .statement) := by
  rw [run_directives, append_nil, declared]

theorem run_group (h : ∀ t ∈ ts, Writes pm t)
    (hsubject : subject ∈ subjectOrder ts) (out : List (Statement Char)) :
    run (Machine.step resolve) (writing (declared pm ts) out .statement)
        (groupTokens pm sort ts subject) =
      some (writing (declared pm ts)
        (((groupOf sort ts subject).map fun t => t.stated.statement).reverse ++ out)
        .statement) := by
  obtain ⟨t, ht, heq⟩ := mem_subjectOrder.1 hsubject
  obtain ⟨⟨hlegal, -, -⟩, hok, -, -⟩ := (h t ht).parts
  rw [heq] at hlegal hok
  have hlabelled : Labelled pm (declared pm ts) subject :=
    labelled_declared ht (by simp [scannedIRIs, heq])
  have hsubjectIRI := tokenIRI_of_ok hlegal hlabelled hok
  rw [groupTokens, run_cons, Rdf.step_subject resolve hsubjectIRI, bind_some,
    Rdf.run_list resolve (pairTokens pm) (fun t => ranged t.predicateIRI)
      (fun t => t.stated.object.term) (groupOf_ne_nil hsubject)]
  · have hstatements : ((groupOf sort ts subject).map fun t =>
        (⟨.iri (ranged subject), .iri (ranged t.predicateIRI), t.stated.object.term⟩ :
          Statement Char)) = (groupOf sort ts subject).map fun t => t.stated.statement := by
      refine map_congr_left ?_
      intro u hu
      rw [← (mem_groupOf.1 hu).2]
      rfl
    rw [hstatements]
  · intro u hu
    have hu' := (mem_groupOf.1 hu).1
    obtain ⟨⟨-, hp, -⟩, -, hpok, -⟩ := (h u hu').parts
    exact tokenIRI_of_ok hp (labelled_declared hu' (by simp [scannedIRIs])) hpok
  · intro u hu
    have hu' := (mem_groupOf.1 hu).1
    have hw := h u hu'
    exact objectTokens_spec hw.valid hw.bare hw.legal hw.short
      fun iri hiri => labelled_declared hu' hiri

theorem run_groups (h : ∀ t ∈ ts, Writes pm t) {subjects : List GoString}
    (hsubjects : ∀ s ∈ subjects, s ∈ subjectOrder ts) (out : List (Statement Char)) :
    run (Machine.step resolve) (writing (declared pm ts) out .statement)
        (subjects.flatMap (groupTokens pm sort ts)) =
      some (writing (declared pm ts)
        ((subjects.flatMap fun s => (groupOf sort ts s).map fun t => t.stated.statement).reverse ++
          out) .statement) := by
  induction subjects generalizing out with
  | nil => rfl
  | cons s subjects ih =>
    rw [flatMap_cons, run_append, run_group resolve h (hsubjects s (by simp)),
      bind_some, ih fun s' hs' => hsubjects s' (by simp [hs'])]
    simp

end Documents

/-! ## Texts -/

section Texts

variable {pm : ClearMap} {sort : SortSlice} {a : GoString}

@[simp] theorem isText_append : isText (a ++ b) ↔ isText a ∧ isText b := by
  simp only [isText_iff]
  refine ⟨isText_of_append, ?_⟩
  rintro ⟨ha, hb⟩
  rw [ranged_append, lift_append, ← ha, ← hb]

theorem isText_flatMap {α : Type*} {l : List α} {f : α → GoString} (h : ∀ x, isText (f x)) :
    isText (l.flatMap f) := by
  induction l with
  | nil => rfl
  | cons x l ih =>
    rw [flatMap_cons, isText_append]
    exact ⟨h x, ih⟩

@[simp] theorem isText_lift (text : List Char) : isText (lift text) := by
  rw [isText_iff, ranged_lift]

@[simp] theorem isText_lit (text : String) : isText (lit text) := isText_lift _

theorem isText_of_legal (h : legalIRI a) : isText a :=
  isText_iff.2 (legalIRI_iff.1 h).1

theorem isText_intercalate {parts : List GoString} (ha : isText a)
    (hparts : ∀ p ∈ parts, isText p) : isText (a.intercalate parts) := by
  induction parts with
  | nil => rfl
  | cons p parts ih =>
    have hrest := ih fun q hq => hparts q (mem_cons_of_mem _ hq)
    have hp := hparts p mem_cons_self
    cases parts with
    | nil => simpa using hp
    | cons q parts =>
      rw [intercalate_cons_cons, isText_append, isText_append]
      exact ⟨⟨hp, ha⟩, hrest⟩

theorem isText_formatTurtleTerm (h : legalIRI a) : isText (formatTurtleTerm pm a) := by
  unfold formatTurtleTerm
  split
  · next _ _ hcompact =>
    obtain ⟨_, -, rfl⟩ := compact_spec hcompact
    simp [isText_of_legal (legal_append.1 h).2]
  · simp [isText_of_legal h]

theorem isText_formatTurtleObject {obj : ClassifiedObject} (hbare : obj.BareOk)
    (h : obj.legalIRIs) : isText (formatTurtleObject pm obj) := by
  have hescape : ∀ lexical, isText (escapeTurtleString lexical) := fun _ => isText_lift _
  cases obj with
  | invalid => exact isText_lift _
  | resource iri => exact isText_formatTurtleTerm h
  | literal lexical datatype bare =>
    simp only [formatTurtleObject, formatTurtleLiteral]
    split
    · next htrue =>
      subst htrue
      rcases hbare with ⟨i, rfl, -⟩ | ⟨b, rfl, -⟩ <;> exact isText_lift _
    · split
      · simp [hescape]
      · simp [hescape, isText_formatTurtleTerm h]

/-- A document with legal IRIs is a text. -/
theorem isText_writeResolved (hbare : ∀ t ∈ ts, t.obj.BareOk) (hlegal : ∀ t ∈ ts, t.legalIRIs) :
    isText (writeResolved pm sort ts) := by
  unfold writeResolved
  split
  · rfl
  simp only [writeTurtlePrefixes, isText_append]
  refine ⟨⟨?_, ?_⟩, isText_intercalate (isText_lift _) ?_⟩
  · exact isText_flatMap fun e => by simp
  · split
    · rfl
    · exact isText_lift _
  · intro g hg
    obtain ⟨s, hs, rfl⟩ := List.mem_map.1 hg
    obtain ⟨t, ht, rfl⟩ := mem_subjectOrder.1 hs
    have hlist : isText ((lit " ;\n    ").intercalate
        ((groupOf sort ts t.subjectIRI).map (formatPair pm))) := by
      refine isText_intercalate (isText_lift _) fun p hp => ?_
      obtain ⟨u, hu, rfl⟩ := List.mem_map.1 hp
      have hu' := (mem_groupOf.1 hu).1
      obtain ⟨-, hp, ho⟩ := legal_parts (hlegal u hu')
      simp [formatPair, isText_formatTurtleTerm hp, isText_formatTurtleObject (hbare u hu') ho]
    simp [writeGroup, isText_formatTurtleTerm (legal_parts (hlegal t ht)).1, hlist]

end Texts

/-! ## Agreement -/

section Agreement

variable {pm : ClearMap} {sort : SortSlice} {resolve : List Char → List Char → List Char}
  {ts : List ResolvedTriple} {t : ResolvedTriple}

/-- **Turtle that is shortened well states the lines of N-Triples**, in some order. -/
theorem readTurtle_writeResolved (h : ∀ t ∈ ts, Writes pm t) :
    readTurtle resolve (writeResolved pm sort ts) =
      some (((subjectOrder ts).flatMap fun s =>
        (groupOf sort ts s).map fun t => t.stated.statement).map (Statement.map .char)) := by
  have htext : utf8 (writeResolved pm sort ts) = some (ranged (writeResolved pm sort ts)) :=
    utf8_eq_some.2 (isText_iff.1 (isText_writeResolved (fun t ht => (h t ht).bare)
      fun t ht => (h t ht).legal))
  rw [readTurtle, htext, bind_some]
  by_cases hne : ts = []
  · subst hne
    rfl
  · have hlead : Lead (ranged (writeResolved pm sort ts))
        ((usedPrefixes pm ts).flatMap directive ++
          (subjectOrder ts).flatMap (groupTokens pm sort ts)) [] := by
      rw [writeResolved, if_neg hne, ranged_append]
      exact (lead_prefixes (fun t ht => (h t ht).legal) _).trans (lead_groups h fun _ hs => hs)
    have hrun := run_append_of (run_declared resolve)
      (@run_groups pm sort ts resolve h _ (fun _ hs => hs) [])
    have hstart : ({} : Machine) = writing [] [] .statement := rfl
    simp only [Rdf.parseTurtle, hlead.readTokens_eq, hstart, hrun, bind_eq_bind, bind_some]
    simp [writing]

theorem textIRIs_of_legal (h : t.legalIRIs) : t.TextIRIs := by
  obtain ⟨s, p, o⟩ := t
  simp only [legalIRIs, Bool.and_eq_true] at h
  refine ⟨(legalIRI_iff.1 h.1.1).1, (legalIRI_iff.1 h.1.2).1, ?_⟩
  cases o with
  | invalid => trivial
  | resource | literal => exact (legalIRI_iff.1 h.2).1

theorem stated_legal (hvalid : t.obj ≠ .invalid) (h : t.legalIRIs) : t.stated.Legal := by
  obtain ⟨s, p, o⟩ := t
  simp only [legalIRIs, Bool.and_eq_true] at h
  refine ⟨(legalIRI_iff.1 h.1.1).2, (legalIRI_iff.1 h.1.2).2, ?_⟩
  cases o with
  | invalid => exact absurd rfl hvalid
  | resource iri => exact (legalIRI_iff.1 h.2).2
  | literal lexical datatype bare =>
    show Rdf.LegalIRI (ranged (if datatype = [] then xsdString else datatype))
    split
    · rw [xsdString, ranged_lift]
      exact Rdf.legal_xsdString
    · exact (legalIRI_iff.1 h.2).2

/-- The N-Triples of triples with legal IRIs. -/
theorem readNTriples_lines (hvalid : ∀ t ∈ ts, t.obj ≠ .invalid)
    (hlegal : ∀ t ∈ ts, t.legalIRIs) :
    readNTriples (ts.flatMap ntriplesLine) =
      some ((ts.map fun t => t.stated.statement).map (Statement.map .char)) := by
  have htext := (utf8_lines hvalid).2 ⟨fun t ht => textIRIs_of_legal (hlegal t ht), rfl⟩
  have hparse := Rdf.parse_lines_iff.2 (List.forall_mem_map.2 fun t ht =>
    stated_legal (hvalid t ht) (hlegal t ht))
  rw [readNTriples, htext, bind_some, hparse, map_some, List.map_map]
  simp [comp_def]

/-! ### A single triple -/

theorem groupOf_singleton : groupOf sort [t] t.subjectIRI = [t] := by
  rw [groupOf, filter_cons_of_pos (by simp), filter_nil]
  exact perm_singleton.1 (sort.perm _)

theorem ranged_writeResolved_singleton : ranged (writeResolved pm sort [t]) =
      ranged (writeTurtlePrefixes pm [t]) ++ (ranged (formatTurtleTerm pm t.subjectIRI) ++ ' ' ::
        (ranged (formatTurtleTerm pm t.predicateIRI) ++ ' ' ::
          (ranged (formatTurtleObject pm t.obj) ++ ' ' :: ['.', '\n']))) := by
  have horder : subjectOrder [t] = [t.subjectIRI] := rfl
  rw [writeResolved, if_neg (by simp), horder]
  simp [writeGroup, groupOf_singleton, ranged_append, formatPair]

theorem statement_char_injective : Function.Injective (Statement.map Rune.char) := by
  have hterm : ∀ u : Term Char, (u.map Rune.char).map Rune.toChar = u := by
    intro u
    cases u with
    | blank node => cases node <;> simp [Term.map, Rdf.BlankNode.map, comp_def, Rune.toChar]
    | _ => simp [Term.map, comp_def, Rune.toChar]
  refine Function.LeftInverse.injective (g := Statement.map Rune.toChar) ?_
  rintro ⟨s, p, o⟩
  simp [Statement.map, hterm]

/-- **A text that is read as one statement**, with what the reader went through. -/
structure ReadAs (resolve : List Char → List Char → List Char) (text : List Char)
    (st : Statement Char) : Prop where
  reads : ∃ tokens m, Rdf.readTokens (text.length + 1) text = some tokens ∧
    run (Machine.step resolve) (writing [] [] .statement) tokens = some m ∧
      m.goal = .statement ∧ m.stack = [] ∧ ∀ st' ∈ m.out, st' = st

variable {st : Statement Char}

theorem readAs_of_readTurtle
    (h : readTurtle resolve text = some sts) (hall : ∀ st' ∈ sts, st' = st.map .char) :
    ReadAs resolve (ranged text) st := by
  obtain ⟨sts, hsts, rfl⟩ := map_eq_some_iff.1 h
  obtain ⟨_, htext, hparse⟩ := bind_eq_some_iff.1 hsts
  obtain ⟨tokens, htokens, hmachine⟩ := bind_eq_some_iff.1 hparse
  obtain ⟨m, hrun, hdone⟩ := bind_eq_some_iff.1 hmachine
  rw [utf8_eq_some.1 htext, ranged_lift]
  split at hdone
  · next hend =>
    cases hdone
    refine ⟨tokens, m, htokens, hrun, hend.1, hend.2, ?_⟩
    intro st' hst'
    refine statement_char_injective (hall _ (List.mem_map.2 ⟨st', ?_, rfl⟩))
    exact mem_reverse.2 hst'
  · cases hdone

/-- The tokens a text leads with bring the machine to a place from which the statement
is read. -/
theorem ReadAs.from_lead {text rest : List Char} {tokens : List Token} {m : Machine}
    (h : ReadAs resolve text st) (hlead : Lead text tokens rest)
    (hrun : run (Machine.step resolve) (writing [] [] .statement) tokens = some m) :
    ∃ tokens' m', run (Machine.step resolve) m tokens' = some m' ∧ m'.goal = .statement ∧
      m'.stack = [] ∧ ∀ st' ∈ m'.out, st' = st := by
  obtain ⟨_, m', hread, hall, hgoal, hstack, hout⟩ := h.reads
  obtain ⟨tokens', rfl⟩ := hlead.tokens_of_readTokens hread
  rw [run_append, hrun, bind_some] at hall
  exact ⟨tokens', m', hall, hgoal, hstack, hout⟩

/-- What the machine has begun there is the statement. -/
theorem ReadAs.of_pending {text rest : List Char} {tokens : List Token} {m : Machine}
    {Q : Statement Char → Prop} (h : ReadAs resolve text st) (hlead : Lead text tokens rest)
    (hrun : run (Machine.step resolve) (writing [] [] .statement) tokens = some m)
    (hpending : Rdf.Pending Q m) : Q st := by
  obtain ⟨_, _, hm, hgoal, hstack, hout⟩ := h.from_lead hlead hrun
  obtain ⟨st', hst', hQ⟩ := Rdf.said_of_run hpending hm hgoal hstack
  rwa [hout st' hst'] at hQ

theorem tokenIRI_scanned {iri : GoString} (hiri : iri ∈ scannedIRIs t)
    (hlegal : legalIRI iri) :
    ∃ value, tokenIRI (declared pm [t]) (termToken pm iri) = some value ∧
      (value = ranged iri ↔ termOk pm iri) :=
  tokenIRI_termToken hlegal (labelled_declared (mem_singleton_self t) hiri)

/-- What is read as one triple has its subject shortened well. -/
theorem termOk_subject (hlegal : t.legalIRIs)
    (h : ReadAs resolve (ranged (writeResolved pm sort [t])) t.stated.statement) :
    termOk pm t.subjectIRI := by
  obtain ⟨hs, -, -⟩ := legal_parts hlegal
  obtain ⟨_, hvalue, heq⟩ := @tokenIRI_scanned pm t _ (by simp [scannedIRIs]) hs
  rw [ranged_writeResolved_singleton] at h
  have hrun := run_append_of (run_declared resolve)
    (run_cons_eq_some.2 ⟨_, Rdf.step_subject resolve hvalue, run_nil⟩)
  obtain ⟨_, m, hm, hgoal, hstack, hout⟩ :=
    h.from_lead ((lead_prefixes (by simpa using hlegal) _).trans (lead_term hs _)) hrun
  obtain ⟨st, hst, hsubject⟩ := Rdf.said_of_run_verb hm hgoal hstack
  rw [hout st hst] at hsubject
  exact heq.1 (Term.iri.inj hsubject).symm

/-- The tokens of a single triple, up to its verb. -/
theorem lead_verb (hlegal : t.legalIRIs) (hs : termOk pm t.subjectIRI) :
    Lead (ranged (writeResolved pm sort [t]))
      ((usedPrefixes pm [t]).flatMap directive ++
        ([termToken pm t.subjectIRI] ++ [termToken pm t.predicateIRI]))
      (termLeft pm t.predicateIRI ++ ' ' ::
        (ranged (formatTurtleObject pm t.obj) ++ ' ' :: ['.', '\n'])) := by
  obtain ⟨hsubject, hpredicate, -⟩ := legal_parts hlegal
  have hlead := @lead_term pm _ hsubject (ranged (formatTurtleTerm pm t.predicateIRI) ++ ' ' ::
    (ranged (formatTurtleObject pm t.obj) ++ ' ' :: ['.', '\n']))
  rw [termLeft_of_ok hs] at hlead
  rw [ranged_writeResolved_singleton]
  exact (lead_prefixes (by simpa using hlegal) _).trans
    (hlead.trans ((Lead.space rfl).trans (lead_term hpredicate _)))

theorem run_verb (hlegal : t.legalIRIs) (hs : termOk pm t.subjectIRI)
    (hvalue : tokenIRI (declared pm [t]) (termToken pm t.predicateIRI) = some value) :
    run (Machine.step resolve) (writing [] [] .statement)
        ((usedPrefixes pm [t]).flatMap directive ++
          ([termToken pm t.subjectIRI] ++ [termToken pm t.predicateIRI])) =
      some (writing (declared pm [t]) [] (.object (.iri (ranged t.subjectIRI)) (.iri value))) := by
  have hsubject := tokenIRI_of_ok (legal_parts hlegal).1
    (labelled_declared (mem_singleton_self t) (by simp [scannedIRIs])) hs
  exact run_append_of (run_declared resolve)
    (run_cons_eq_some.2 ⟨_, Rdf.step_subject resolve hsubject,
      run_cons_eq_some.2 ⟨_, Rdf.step_verb resolve hvalue, run_nil⟩⟩)

theorem termOk_predicate (hlegal : t.legalIRIs)
    (h : ReadAs resolve (ranged (writeResolved pm sort [t])) t.stated.statement)
    (hs : termOk pm t.subjectIRI) : termOk pm t.predicateIRI := by
  obtain ⟨value, hvalue, heq⟩ := @tokenIRI_scanned pm t t.predicateIRI (by simp [scannedIRIs])
    (legal_parts hlegal).2.1
  have hverb : t.stated.statement.predicate = .iri value :=
    h.of_pending (Q := fun st => st.predicate = .iri value) (lead_verb hlegal hs)
      (run_verb hlegal hs hvalue) (.inr (.inl fun _ => rfl))
  exact heq.1 (Term.iri.inj hverb).symm

/-- The object of a single triple is what its tokens stand for. -/
theorem object_of_readAs (hlegal : t.legalIRIs)
    (h : ReadAs resolve (ranged (writeResolved pm sort [t])) t.stated.statement)
    (hs : termOk pm t.subjectIRI) (hp : termOk pm t.predicateIRI)
    {tokens : List Token} {term : Term Char} {rest : List Char}
    (hlead : Lead (ranged (formatTurtleObject pm t.obj) ++ ' ' :: ['.', '\n']) tokens rest)
    (hrun : ∀ {s p : Term Char},
      run (Machine.step resolve) (writing (declared pm [t]) [] (.object s p)) tokens =
        some (writing (declared pm [t]) [⟨s, p, term⟩] (.afterObject s p))) :
    t.stated.object.term = term := by
  have hverb := @lead_verb pm sort t hlegal hs
  rw [termLeft_of_ok hp] at hverb
  have hpredicate := tokenIRI_of_ok (legal_parts hlegal).2.1
    (labelled_declared (mem_singleton_self t) (by simp [scannedIRIs])) hp
  exact h.of_pending (Q := fun st => st.object = term)
    (hverb.trans ((Lead.space rfl).trans hlead))
    (run_append_of (run_verb hlegal hs hpredicate) hrun) (.inl ⟨_, mem_singleton_self _, rfl⟩)

theorem shortensWell_object (hlegal : t.legalIRIs)
    (h : ReadAs resolve (ranged (writeResolved pm sort [t])) t.stated.statement)
    (hs : termOk pm t.subjectIRI) (hp : termOk pm t.predicateIRI) :
    t.obj.shortensWell pm := by
  have hobject := @object_of_readAs pm sort resolve t hlegal h hs hp
  have hscanned := @tokenIRI_scanned pm t
  obtain ⟨-, -, hlegal'⟩ := legal_parts hlegal
  obtain ⟨s, p, obj⟩ := t
  cases obj with
  | invalid => rfl
  | resource iri =>
    obtain ⟨value, hvalue, heq⟩ := hscanned (by simp [scannedIRIs]) hlegal'
    have hterm := hobject (lead_term hlegal' _)
      (run_cons_eq_some.2 ⟨_, Rdf.step_object resolve hvalue, run_nil⟩)
    exact heq.1 (Term.iri.inj hterm).symm
  | literal lexical datatype bare =>
    by_cases hplain : bare ∨ datatype = [] ∨ datatype = xsdString
    · rcases hplain with rfl | rfl | rfl <;> simp [ClassifiedObject.shortensWell]
    · rw [not_or, not_or] at hplain
      obtain ⟨hbare, hne, hstring⟩ := hplain
      obtain ⟨value, hvalue, heq⟩ := @hscanned datatype
        (by simp [scannedIRIs, hne, hstring]) hlegal'
      have hformat : formatTurtleObject pm (.literal lexical datatype bare) =
          lit "\"" ++ escapeTurtleString lexical ++ lit "\"^^" ++ formatTurtleTerm pm datatype := by
        simp [formatTurtleObject, formatTurtleLiteral, hbare, hne, hstring]
      simp only [hformat] at hobject
      have hterm := hobject (lead_typed lexical datatype hlegal' _)
        (run_cons_eq_some.2 ⟨_, rfl, run_cons_eq_some.2 ⟨_, rfl,
          run_cons_eq_some.2 ⟨_, Rdf.step_datatype resolve hvalue, run_nil⟩⟩⟩)
      have hdatatype : (stated ⟨s, p, .literal lexical datatype bare⟩).object.term =
          .literal (ranged lexical) (ranged datatype) [] := by
        simp [stated, ClassifiedObject.ground, hne, GroundObject.term]
      rw [hdatatype] at hterm
      have hok := heq.1 (Term.literal.inj hterm).2.1.symm
      simp [ClassifiedObject.shortensWell, hok]

/-- **A single triple that is read as it was meant is shortened well.** -/
theorem shortensWell_of_readAs (hlegal : t.legalIRIs)
    (h : ReadAs resolve (ranged (writeResolved pm sort [t])) t.stated.statement) :
    t.shortensWell pm := by
  have hs := termOk_subject hlegal h
  have hp := termOk_predicate hlegal h hs
  simp [shortensWell, hs, hp, shortensWell_object hlegal h hs hp]

end Agreement

/-! ## Both formats -/

variable {F T V : Type*} {go : GoLib F T V} {opts : Options}
  {registry : GoString → Option PredicateMetadata}

theorem bareOk_classifyByGoType (v : GoValue F T V) : (classifyByGoType go opts v).BareOk := by
  cases v with
  | string s =>
    simp only [classifyByGoType, classifyString]
    split
    · trivial
    split <;> trivial
  | bool b => exact .inr ⟨b, rfl, rfl⟩
  | int i => exact .inl ⟨i, rfl, rfl⟩
  | float f =>
    simp only [classifyByGoType, classifyFloat]
    split <;> trivial
  | nil | time t | other v => trivial

theorem bareOk_classifyByDeclaredDataType {declared : DataType} {v : GoValue F T V}
    {obj : ClassifiedObject} (h : classifyByDeclaredDataType go opts declared v = some obj) :
    obj.BareOk := by
  cases declared with
  | int =>
    obtain ⟨lexical, hlexical, rfl⟩ := map_eq_some_iff.1 h
    cases v with
    | int i => exact .inl ⟨i, (Option.some.inj hlexical).symm, rfl⟩
    | float f =>
      obtain ⟨i, -, rfl⟩ := map_eq_some_iff.1 hlexical
      exact .inl ⟨i, rfl, rfl⟩
    | _ => cases hlexical
  | bool =>
    cases v with
    | bool b =>
      cases h
      exact .inr ⟨b, rfl, rfl⟩
    | _ => cases h
  | float =>
    obtain ⟨f, -, h⟩ := bind_eq_some_iff.1 h
    obtain ⟨_, h⟩ := ite_none_left_eq_some.1 h
    rw [← Option.some.inj h, classifyFloat]
    split <;> trivial
  | dateTime =>
    obtain ⟨lexical, -, rfl⟩ := map_eq_some_iff.1 h
    trivial
  | other => cases h
  | entityID | json =>
    simp only [classifyByDeclaredDataType] at h
    split at h
    · obtain ⟨_, h⟩ := ite_none_right_eq_some.1 h
      cases h
      trivial
    · cases h

/-- A kept triple is bare only where it is an integer or a boolean. -/
theorem bareOk_of_resolve (h : resolve go opts registry t = some r) : r.obj.BareOk := by
  have hclassify : (classifyObject go opts registry t).BareOk := by
    have hdeclared : ∀ declared (v : GoValue F T V),
        ((classifyByDeclaredDataType go opts declared v).getD (classifyByGoType go opts v)).BareOk := by
      intro declared v
      cases hd : classifyByDeclaredDataType go opts declared v with
      | none => exact bareOk_classifyByGoType v
      | some obj => exact bareOk_classifyByDeclaredDataType hd
    unfold classifyObject
    split
    · trivial
    split
    · unfold classifyWithExplicitDatatype
      split
      · split
        · split
          · trivial
          · exact bareOk_classifyByGoType _
        · exact bareOk_classifyByGoType _
      · trivial
    · split
      · exact hdeclared _ _
      · exact bareOk_classifyByGoType _
  unfold resolve at h
  split at h
  · cases h
  obtain ⟨_, h⟩ := ite_none_left_eq_some.1 h
  cases h
  exact hclassify

variable (defaults : Prefixes) (range : MapRange) (sort : SortSlice)
  (reference : List Char → List Char → List Char)

/-- **Both texts of a list are read, and as the same set of statements.** -/
def Agree (go : GoLib F T V) (opts : Options) (registry : GoString → Option PredicateMetadata)
    (triples : List (ExportTriple F T V)) : Prop :=
  ∃ sts sts', readTurtle reference (writeTurtle defaults range sort go opts registry triples) =
      some sts ∧
    readNTriples (writeNTriples go opts registry triples) = some sts' ∧ ∀ st, st ∈ sts ↔ st ∈ sts'

theorem agree_of_shortensWell (hclear : (newPrefixMap defaults range opts.baseIRI).Clear)
    (hlegal : ∀ t ∈ kept go opts registry triples, t.legalIRIs)
    (hshort : ∀ t ∈ kept go opts registry triples, t.shortensWell
      (newPrefixMap defaults range opts.baseIRI)) :
    Agree defaults range sort reference go opts registry triples := by
  have hlines := readNTriples_lines (fun t ht => mem_kept_ne_invalid ht) hlegal
  rw [← writeNTriples_eq] at hlines
  refine ⟨_, _, @readTurtle_writeResolved ⟨_, hclear⟩ _ _ _ ?_, hlines, ?_⟩
  · intro t ht
    obtain ⟨x, -, hx⟩ := mem_filterMap.1 ht
    exact ⟨resolve_ne_invalid hx, bareOk_of_resolve hx, hlegal t ht, hshort t ht⟩
  · intro st
    constructor
    · intro h
      obtain ⟨st, hst, rfl⟩ := List.mem_map.1 h
      obtain ⟨s, -, hgroup⟩ := mem_flatMap.1 hst
      obtain ⟨t, ht, rfl⟩ := List.mem_map.1 hgroup
      exact List.mem_map_of_mem (List.mem_map.2 ⟨t, (mem_groupOf.1 ht).1, rfl⟩)
    · intro h
      obtain ⟨st, hst, rfl⟩ := List.mem_map.1 h
      obtain ⟨t, ht, rfl⟩ := List.mem_map.1 hst
      exact List.mem_map_of_mem (mem_flatMap.2 ⟨t.subjectIRI, mem_subjectOrder.2 ⟨t, ht, rfl⟩,
        List.mem_map.2 ⟨t, mem_groupOf.2 ⟨ht, rfl⟩, rfl⟩⟩)

/-- A map that is always ranged over in the order of its entries. -/
def inOrder : MapRange := ⟨fun _ _ entries => entries, fun _ _ _ => .refl _⟩

/-- A sort that leaves the order as it is. -/
def unsorted : SortSlice := ⟨id, fun _ => .refl _⟩

/-- A page that links to another one. -/
def linkTo (target : String) : ExportTriple Unit Unit Unit where
  subject := lit "acme.ops.web.crawl.page.7"
  predicate := lit "page.link.target"
  object := .string (lit target)

/-- A map whose order is another one when the body is written. -/
def shuffled : MapRange where
  order
    | .scan, _, entries => entries
    | .write, _, entries => entries.reverse
  perm := by
    rintro (_ | _) _ entries
    · exact .refl _
    · exact reverse_perm entries

/-- **A name that is not declared.** With a base that another name stands for, the body may
use a name the scan did not meet. -/
theorem turtle_undeclared_of_base :
    readTurtle (fun _ r => r) (writeTurtle defaultPrefixes shuffled unsorted stringsOnly
      { defaultOptions with baseIRI := lit "https://schema.org" } (fun _ => none)
      [linkTo "https://schema.org/Thing"]) = none := by
  decide +kernel

end SemStreams.Export
