import SemStreams.Export.Objects
/-!
# vocabulary/export — N-Triples

`writeNTriples` writes a line for every kept triple. It escapes what a string literal
excludes, and writes subjects, predicates, object IRIs and datatypes as they are. So
the text is read back as it was meant exactly if every IRI written is made of what an
IRI reference may hold; a byte that is no text is lost in a literal, too.
-/

namespace SemStreams.Export

open List Function Option

open Rdf (Ground GroundObject Statement parseNTriples isIRIChar LegalIRI bracketed quoted Term)

/-! ## The writer -/

def formatNTriplesObject : ClassifiedObject → GoString
  | .resource iri => lit "<" ++ iri ++ lit ">"
  | .literal lexical datatype _ =>
    if datatype = [] ∨ datatype = xsdString then
      lit "\"" ++ escapeTurtleString lexical ++ lit "\""
    else lit "\"" ++ escapeTurtleString lexical ++ lit "\"^^<" ++ datatype ++ lit ">"
  | .invalid => lit "\"\""

def ntriplesLine (t : ResolvedTriple) : GoString :=
  lit "<" ++ t.subjectIRI ++ lit "> <" ++ t.predicateIRI ++ lit "> " ++
    formatNTriplesObject t.obj ++ lit " .\n"

variable {F T V : Type*} (go : GoLib F T V) (opts : Options)
  (registry : GoString → Option PredicateMetadata)

def writeNTriples : List (ExportTriple F T V) → GoString
  | [] => []
  | t :: triples =>
    match resolve go opts registry t with
    | none => writeNTriples triples
    | some resolved => ntriplesLine resolved ++ writeNTriples triples

def kept (triples : List (ExportTriple F T V)) : List ResolvedTriple :=
  triples.filterMap (resolve go opts registry)

theorem writeNTriples_eq (triples : List (ExportTriple F T V)) :
    writeNTriples go opts registry triples =
      (kept go opts registry triples).flatMap ntriplesLine := by
  induction triples with
  | nil => rfl
  | cons t triples ih =>
    unfold writeNTriples kept
    cases h : resolve go opts registry t with
    | none => rw [filterMap_cons_none h, ih, kept]
    | some resolved => rw [filterMap_cons_some h, flatMap_cons, ih, kept]

/-- What the N-Triples grammar makes of a string. -/
def readNTriples (text : GoString) : Option (List (Statement Rune)) :=
  ((utf8 text).bind parseNTriples).map (List.map (Statement.map .char))

/-! ## What is written cleanly -/

/-- The IRI is made of what an IRI reference may hold. -/
def legalIRI (iri : GoString) : Bool :=
  iri.all fun
    | .char c => isIRIChar c
    | .stray _ => false

def isText (s : GoString) : Bool := (utf8 s).isSome

/-- **Nothing in the triple breaks its line**: its IRIs, a literal's datatype among
them, are legal, and a literal is text. -/
def ResolvedTriple.clean (t : ResolvedTriple) : Bool :=
  legalIRI t.subjectIRI && legalIRI t.predicateIRI &&
    match t.obj with
    | .resource iri => legalIRI iri
    | .literal lexical datatype _ => isText lexical && legalIRI datatype
    | .invalid => true

open ResolvedTriple

variable {t : ResolvedTriple} {s : GoString}

theorem legalIRI_iff : legalIRI s ↔ s = lift (ranged s) ∧ LegalIRI (ranged s) := by
  induction s with
  | nil => simp [legalIRI, lift, ranged, LegalIRI]
  | cons r s ih =>
    cases r with
    | stray b => simp [legalIRI, lift, ranged]
    | char c =>
      have hcons : legalIRI (.char c :: s) = (isIRIChar c && legalIRI s) := rfl
      have htext : (.char c :: s = lift (ranged (.char c :: s))) ↔ s = lift (ranged s) := by
        simp [lift, ranged, Rune.toChar]
      have hlegal : LegalIRI (ranged (.char c :: s)) ↔
          isIRIChar c ∧ LegalIRI (ranged s) := by
        simp [LegalIRI, ranged, Rune.toChar]
      rw [hcons, Bool.and_eq_true, ih, htext, hlegal]
      tauto

theorem isText_iff : isText s ↔ s = lift (ranged s) := by
  unfold isText
  rw [isSome_iff_exists]
  constructor
  · rintro ⟨_, h⟩
    rw [utf8_eq_some.1 h, ranged_lift]
  · intro h
    exact ⟨_, utf8_eq_some.2 h⟩

/-- The statement a line states where its IRIs are texts. -/
def ResolvedTriple.stated (t : ResolvedTriple) : Ground Char :=
  ⟨ranged t.subjectIRI, ranged t.predicateIRI, match t.obj.ground with
    | .iri value => .iri (ranged value)
    | .literal lexical datatype => .literal (ranged lexical) (ranged datatype)⟩

def ResolvedTriple.TextIRIs (t : ResolvedTriple) : Prop :=
  t.subjectIRI = lift (ranged t.subjectIRI) ∧ t.predicateIRI = lift (ranged t.predicateIRI) ∧
    match t.obj with
    | .resource iri => iri = lift (ranged iri)
    | .literal _ datatype _ => datatype = lift (ranged datatype)
    | .invalid => True

/-- Where the IRIs are texts, the line is the plain rendering of what it states. -/
theorem ntriplesLine_eq (hvalid : t.obj ≠ .invalid) (h : t.TextIRIs) :
    ntriplesLine t = lift t.stated.line := by
  obtain ⟨s, p, o⟩ := t
  obtain ⟨hs, hp, ho⟩ := h
  have hobject : formatNTriplesObject o = lift (stated ⟨s, p, o⟩).object.render := by
    cases o with
    | invalid => exact absurd rfl hvalid
    | resource iri =>
      obtain ⟨value, rfl⟩ : ∃ value, iri = lift value := ⟨_, ho⟩
      simp only [formatNTriplesObject, stated, ClassifiedObject.ground,
        GroundObject.render, bracketed, ranged_lift]
      simp [lift, lit]
    | literal lexical datatype bare =>
      obtain ⟨value, rfl⟩ : ∃ value, datatype = lift value := ⟨_, ho⟩
      simp only [formatNTriplesObject, stated, ClassifiedObject.ground, GroundObject.render]
      by_cases hplain : lift value = [] ∨ lift value = xsdString
      · have hdatatype : ranged (if lift value = [] then xsdString else lift value) =
            Rdf.xsdString := by
          split
          · exact ranged_lift _
          · next hnil => rw [hplain.resolve_left hnil, xsdString, ranged_lift]
        rw [if_pos hplain, if_pos hdatatype]
        simp [escapeTurtleString, quoted, lift, lit]
      · rw [not_or] at hplain
        have hdatatype : value ≠ Rdf.xsdString := fun heq => hplain.2 (by rw [heq, xsdString])
        rw [if_neg (not_or.2 hplain), if_neg hplain.1, ranged_lift, if_neg hdatatype]
        simp [escapeTurtleString, quoted, bracketed, lift, lit]
  obtain ⟨subject, rfl⟩ : ∃ subject, s = lift subject := ⟨_, hs⟩
  obtain ⟨predicate, rfl⟩ : ∃ predicate, p = lift predicate := ⟨_, hp⟩
  have hframe : (stated ⟨lift subject, lift predicate, o⟩).subject = subject ∧
      (stated ⟨lift subject, lift predicate, o⟩).predicate = predicate :=
    ⟨ranged_lift _, ranged_lift _⟩
  unfold ntriplesLine Ground.line
  simp only [hobject, hframe.1, hframe.2, bracketed]
  simp [lift, lit]

variable {text : List Char}

/-- A line that is text has texts for IRIs. -/
theorem textIRIs_of_line (h : ntriplesLine t = lift text) : t.TextIRIs := by
  obtain ⟨s, p, o⟩ := t
  obtain ⟨h, -⟩ := isText_of_append h
  obtain ⟨h, ho⟩ := isText_of_append h
  obtain ⟨h, -⟩ := isText_of_append h
  obtain ⟨h, hp⟩ := isText_of_append h
  obtain ⟨h, -⟩ := isText_of_append h
  obtain ⟨-, hs⟩ := isText_of_append h
  refine ⟨hs, hp, ?_⟩
  cases o with
  | invalid => trivial
  | resource iri =>
    obtain ⟨h, -⟩ := isText_of_append ho
    exact (isText_of_append h).2
  | literal lexical datatype bare =>
    simp only [formatNTriplesObject] at ho
    split at ho
    · next hplain =>
      show datatype = lift (ranged datatype)
      rcases hplain with rfl | rfl
      · rfl
      · rw [xsdString, ranged_lift]
    · obtain ⟨h, -⟩ := isText_of_append ho
      exact (isText_of_append h).2

variable {ts : List ResolvedTriple}

/-- The lines of a document are texts exactly if it is one. -/
theorem utf8_lines (hvalid : ∀ t ∈ ts, t.obj ≠ .invalid) :
    utf8 (ts.flatMap ntriplesLine) = some text ↔
      (∀ t ∈ ts, t.TextIRIs) ∧ text = (ts.map stated).flatMap Ground.line := by
  rw [utf8_eq_some]
  induction ts generalizing text with
  | nil =>
    simp only [flatMap_nil, map_nil, not_mem_nil, false_implies, implies_true, true_and]
    constructor
    · intro h
      exact (map_eq_nil_iff.1 h.symm)
    · rintro rfl
      rfl
  | cons t ts ih =>
    have hvalid' : ∀ t ∈ ts, t.obj ≠ .invalid := fun t' ht => hvalid t' (by simp [ht])
    rw [flatMap_cons, map_cons, flatMap_cons, forall_mem_cons]
    constructor
    · intro h
      obtain ⟨hline, hrest⟩ := isText_of_append h
      have ht := textIRIs_of_line hline
      obtain ⟨hts, heq⟩ := (ih hvalid').1 hrest
      refine ⟨⟨ht, hts⟩, lift_injective ?_⟩
      rw [← h, ntriplesLine_eq (hvalid t (by simp)) ht, lift_append, hrest, heq]
    · rintro ⟨⟨ht, hts⟩, rfl⟩
      rw [ntriplesLine_eq (hvalid t (by simp)) ht, (ih hvalid').2 ⟨hts, rfl⟩, lift_append]

/-- A clean triple is what its line states. -/
theorem clean_iff (hvalid : t.obj ≠ .invalid) : t.clean ↔
    t.TextIRIs ∧ t.ground = t.stated.map .char ∧ t.stated.Legal := by
  obtain ⟨s, p, o⟩ := t
  have hlift : ∀ text : List Char, text.map Rune.char = lift text := fun _ => rfl
  cases o with
  | invalid => exact absurd rfl hvalid
  | resource iri =>
    simp only [clean, TextIRIs, stated,
      ground, ClassifiedObject.ground, Ground.map, GroundObject.map, Ground.Legal,
      GroundObject.Legal, Bool.and_eq_true, legalIRI_iff, hlift, Ground.mk.injEq,
      GroundObject.iri.injEq]
    tauto
  | literal lexical datatype bare =>
    have hdatatype : (datatype = lift (ranged datatype) ∧ LegalIRI (ranged datatype)) ↔
        datatype = lift (ranged datatype) ∧
          (if datatype = [] then xsdString else datatype) =
            lift (ranged (if datatype = [] then xsdString else datatype)) ∧
          LegalIRI (ranged (if datatype = [] then xsdString else datatype)) := by
      split
      · next hnil =>
        have hempty : LegalIRI (ranged datatype) := by simp [hnil, ranged, LegalIRI]
        simp [hempty, xsdString, Rdf.legal_xsdString]
      · tauto
    simp only [clean, TextIRIs, stated,
      ground, ClassifiedObject.ground, Ground.map, GroundObject.map, Ground.Legal,
      GroundObject.Legal, Bool.and_eq_true, isText_iff, legalIRI_iff, hlift, Ground.mk.injEq,
      GroundObject.literal.injEq, hdatatype]
    tauto

/-- What is read as the statement a triple means is what its line states. -/
theorem stated_of_statement (hvalid : t.obj ≠ .invalid) (h : st.map .char = t.ground.statement) :
    st = t.stated.statement ∧ t.ground = t.stated.map .char := by
  obtain ⟨s, p, o⟩ := t
  obtain ⟨_, _, object⟩ := st
  simp only [Statement.map, Ground.statement, ground, Statement.mk.injEq] at h
  obtain ⟨hs, hp, ho⟩ := h
  have hiri : ∀ {term : Term Char} {iri : GoString}, term.map .char = .iri iri →
      term = .iri (ranged iri) ∧ iri = lift (ranged iri) := by
    intro term iri h
    cases term with
    | iri value =>
      simp only [Term.map, Term.iri.injEq] at h
      have hvalue : iri = lift value := h.symm
      rw [hvalue, ranged_lift]
      exact ⟨rfl, rfl⟩
    | blank | literal => cases h
  obtain ⟨rfl, hsubject⟩ := hiri hs
  obtain ⟨rfl, hpredicate⟩ := hiri hp
  cases o with
  | invalid => exact absurd rfl hvalid
  | resource iri =>
    obtain ⟨rfl, hobject⟩ := hiri ho
    refine ⟨rfl, ?_⟩
    simp only [ground, ClassifiedObject.ground, stated, Ground.map,
      GroundObject.map, Ground.mk.injEq, GroundObject.iri.injEq]
    exact ⟨hsubject, hpredicate, hobject⟩
  | literal lexical datatype bare =>
    cases object with
    | iri | blank => cases ho
    | literal lex dt lang =>
      simp only [Term.map, ClassifiedObject.ground, GroundObject.term, Term.literal.injEq,
        map_eq_nil_iff] at ho
      obtain ⟨hlex, hdt, rfl⟩ := ho
      have hlex' : ranged lexical = lex := by rw [← hlex]; exact ranged_lift lex
      have hdt' : ranged (if datatype = [] then xsdString else datatype) = dt := by
        rw [← hdt]
        exact ranged_lift dt
      simp only [ground, ClassifiedObject.ground, stated, Ground.map,
        GroundObject.map, Ground.statement, GroundObject.term, Ground.mk.injEq,
        GroundObject.literal.injEq, hlex', hdt', true_and]
      exact ⟨hsubject, hpredicate, hlex.symm, hdt.symm⟩

theorem stated_of_statements (hvalid : ∀ t ∈ ts, t.obj ≠ .invalid)
    (h : sts.map (Statement.map .char) = ts.map fun t => t.ground.statement) :
    sts = (ts.map stated).map Ground.statement ∧
      ∀ t ∈ ts, t.ground = t.stated.map .char := by
  induction ts generalizing sts with
  | nil => simpa using h
  | cons t ts ih =>
    cases sts with
    | nil => cases h
    | cons st sts =>
      simp only [map_cons, List.cons.injEq] at h
      obtain ⟨rfl, ht⟩ := stated_of_statement (hvalid t (by simp)) h.1
      obtain ⟨rfl, hts⟩ := ih (fun t' ht' => hvalid t' (by simp [ht'])) h.2
      exact ⟨rfl, forall_mem_cons.2 ⟨ht, hts⟩⟩

/-! ## The round trip -/

variable {go} {opts} {registry}

theorem mem_kept_ne_invalid (h : t ∈ kept go opts registry triples) : t.obj ≠ .invalid := by
  obtain ⟨x, -, hx⟩ := mem_filterMap.1 h
  exact resolve_ne_invalid hx

/-- **When the export is read back as it was meant.** The text of any list of triples
is read, under the N-Triples grammar, as the statements of the kept triples in their
order, exactly if every kept triple is clean. -/
theorem ntriples_round_trip_iff (triples : List (ExportTriple F T V)) :
    readNTriples (writeNTriples go opts registry triples) =
        some ((kept go opts registry triples).map fun t => t.ground.statement) ↔
      ∀ t ∈ kept go opts registry triples, t.clean = true := by
  have hvalid : ∀ t ∈ kept go opts registry triples, t.obj ≠ .invalid :=
    fun t ht => mem_kept_ne_invalid ht
  rw [writeNTriples_eq, readNTriples]
  constructor
  · intro h
    obtain ⟨_, hparse, hsts⟩ := map_eq_some_iff.1 h
    obtain ⟨_, htext, hparse⟩ := bind_eq_some_iff.1 hparse
    obtain ⟨hiris, rfl⟩ := (utf8_lines hvalid).1 htext
    obtain ⟨rfl, hground⟩ := stated_of_statements hvalid hsts
    have hlegal := Rdf.parse_lines_iff.1 hparse
    intro t ht
    exact (clean_iff (hvalid t ht)).2
      ⟨hiris t ht, hground t ht, hlegal _ (List.mem_map_of_mem ht)⟩
  · intro hclean
    have hspec := fun t ht => (clean_iff (hvalid t ht)).1 (hclean t ht)
    rw [(utf8_lines hvalid).2 ⟨fun t ht => (hspec t ht).1, rfl⟩, bind_some, Rdf.parse_lines_iff.2]
    · simp only [map_some, List.map_map, Option.some.injEq]
      refine map_congr_left ?_
      intro t ht
      simp only [comp_apply]
      rw [Ground.map_statement, ← (hspec t ht).2.1]
    · intro g hg
      obtain ⟨t, ht, rfl⟩ := List.mem_map.1 hg
      exact (hspec t ht).2.2

/-! ## An object that ends its own line -/

/-- A standard library of which nothing but strings is used. -/
def stringsOnly : GoLib Unit Unit Unit where
  formatG := fun _ => []
  isFinite := fun _ => false
  whole := fun _ => none
  ofInt := fun _ => ()
  formatRFC3339 := fun _ => []
  parseRFC3339 := fun _ => none
  printTime := fun _ => []
  printOther := fun _ => []
  jsonValid := fun _ => false

/-- A page with an address nobody checked. -/
def forgedPage : ExportTriple Unit Unit Unit where
  subject := lit "acme.ops.web.crawl.page.7"
  predicate := lit "page.link.target"
  object := .string (lit "http://e> .\n<urn:s> <urn:p> <urn:o")

/-- **One triple, two statements.** The object is taken for an absolute IRI by its first
letters and written as it is: it closes its own reference and the line, and states
something else on the next one. -/
theorem object_forges_statement :
    (kept stringsOnly defaultOptions (fun _ => none) [forgedPage]).length = 1 ∧
      (readNTriples (writeNTriples stringsOnly defaultOptions (fun _ => none) [forgedPage])).map
          (List.drop 1) =
        some [⟨.iri (lit "urn:s"), .iri (lit "urn:p"), .iri (lit "urn:o")⟩] := by
  decide +kernel

end SemStreams.Export
