import Mathlib.Data.List.Basic
/-!
# RDF statements and the N-Triples grammar

A text is a list of characters. Terms are read as the grammar's terminals say:
an IRI reference holds no control character, no blank and none of nine marks,
except as a numeric escape; a string literal holds no quote, no backslash and no
line end, except as an escape. One statement stands on a line.

`parse_lines_iff` is the round trip of the plain rendering: it is read back as it
was meant exactly if every IRI in it is free of what an IRI reference excludes.
-/

namespace SemStreams.Rdf

open List Option

variable {α β : Type*}

/-! ## Terms -/

/-- A blank node: one with a label, or one of its own. -/
inductive BlankNode (α : Type*)
  | labelled (label : List α)
  | fresh (number : ℕ)
deriving DecidableEq

/-- A term over characters of type `α`; the language tag is empty where there is
none. -/
inductive Term (α : Type*)
  | iri (value : List α)
  | blank (node : BlankNode α)
  | literal (lexical datatype language : List α)
deriving DecidableEq

structure Statement (α : Type*) where
  subject : Term α
  predicate : Term α
  object : Term α
deriving DecidableEq

/-- The object of a statement of IRIs and literals only. -/
inductive GroundObject (α : Type*)
  | iri (value : List α)
  | literal (lexical datatype : List α)
deriving DecidableEq

open GroundObject

/-- A statement of IRIs and literals only, without language tags. -/
structure Ground (α : Type*) where
  subject : List α
  predicate : List α
  object : GroundObject α
deriving DecidableEq

def GroundObject.term : GroundObject α → Term α
  | .iri value => .iri value
  | .literal lexical datatype => .literal lexical datatype []

def Ground.statement (g : Ground α) : Statement α :=
  ⟨.iri g.subject, .iri g.predicate, g.object.term⟩

def GroundObject.map (f : α → β) : GroundObject α → GroundObject β
  | .iri value => .iri (value.map f)
  | .literal lexical datatype => .literal (lexical.map f) (datatype.map f)

def Ground.map (f : α → β) (g : Ground α) : Ground β :=
  ⟨g.subject.map f, g.predicate.map f, g.object.map f⟩

def BlankNode.map (f : α → β) : BlankNode α → BlankNode β
  | .labelled label => .labelled (label.map f)
  | .fresh number => .fresh number

def Term.map (f : α → β) : Term α → Term β
  | .iri value => .iri (value.map f)
  | .blank node => .blank (node.map f)
  | .literal lexical datatype language => .literal (lexical.map f) (datatype.map f) (language.map f)

def Statement.map (f : α → β) (st : Statement α) : Statement β :=
  ⟨st.subject.map f, st.predicate.map f, st.object.map f⟩

theorem Ground.map_statement (f : α → β) (g : Ground α) :
    g.statement.map f = (g.map f).statement := by
  cases g with
  | mk s p o => cases o <;> rfl

def xsdString : List Char := "http://www.w3.org/2001/XMLSchema#string".toList

def rdfLangString : List Char := "http://www.w3.org/1999/02/22-rdf-syntax-ns#langString".toList

/-! ## Terminals -/

/-- The character stands for itself in an IRI reference. -/
def isIRIChar (c : Char) : Bool :=
  0x20 < c.toNat && c.toNat ∉ [0x3c, 0x3e, 0x22, 0x7b, 0x7d, 0x7c, 0x5e, 0x60, 0x5c]

def hexValue (c : Char) : Option ℕ :=
  if '0' ≤ c ∧ c ≤ '9' then some (c.toNat - 0x30)
  else if 'a' ≤ c ∧ c ≤ 'f' then some (c.toNat - 0x61 + 10)
  else if 'A' ≤ c ∧ c ≤ 'F' then some (c.toNat - 0x41 + 10)
  else none

/-- The character with a number, unless it is none. -/
def scalar (n : ℕ) : Option Char := if n.isValidChar then some (Char.ofNat n) else none

/-- How far a reader is in an escape: in none, after the backslash, or before so
many further digits of a number. -/
inductive Escape
  | none
  | begun
  | digits (left value : ℕ)
deriving DecidableEq

/-- What one character does to an escape that has begun: it ends it with a
character, or goes on with it. `short` are the one-letter escapes. -/
def Escape.next (short : Char → Option Char) (c : Char) : Escape → Option (Char ⊕ Escape)
  | .none => Option.none
  | .begun =>
    if c = 'u' then some (.inr (.digits 3 0))
    else if c = 'U' then some (.inr (.digits 7 0))
    else (short c).map .inl
  | .digits left value => do
    let v ← hexValue c
    if left = 0 then (scalar (16 * value + v)).map .inl
    else some (.inr (.digits (left - 1) (16 * value + v)))

/-- Reads characters up to a terminator, with escapes. -/
def readUntil (terminator : Char) (allowed : Char → Bool) (short : Char → Option Char) :
    Escape → List Char → Option (List Char × List Char)
  | _, [] => Option.none
  | .none, c :: rest =>
    if c = terminator then some ([], rest)
    else if c = '\x5c' then readUntil terminator allowed short .begun rest
    else if allowed c then
      (readUntil terminator allowed short .none rest).map fun r => (c :: r.1, r.2)
    else Option.none
  | e, c :: rest =>
    match e.next short c with
    | Option.none => Option.none
    | some (.inl d) => (readUntil terminator allowed short .none rest).map fun r => (d :: r.1, r.2)
    | some (.inr e') => readUntil terminator allowed short e' rest

/-- `IRIREF`, after its opening bracket. -/
def readIRI (text : List Char) : Option (List Char × List Char) :=
  readUntil '>' isIRIChar (fun _ => Option.none) .none text

/-- The one-letter escapes of a string. -/
def shortEscape (c : Char) : Option Char :=
  if c = 't' then some '\t'
  else if c = 'b' then some '\x08'
  else if c = 'n' then some '\n'
  else if c = 'r' then some '\r'
  else if c = 'f' then some '\x0c'
  else if c = '\x22' ∨ c = '\x27' ∨ c = '\x5c' then some c
  else Option.none

def isLineEnd (c : Char) : Bool := c = '\n' || c = '\r'

/-- A string literal on one line, after its opening quote. -/
def readString (quote : Char) (text : List Char) : Option (List Char × List Char) :=
  readUntil quote (fun c => !isLineEnd c) shortEscape .none text

def isLetter (c : Char) : Bool := ('a' ≤ c && c ≤ 'z') || ('A' ≤ c && c ≤ 'Z')

def isDigit (c : Char) : Bool := '0' ≤ c && c ≤ '9'

/-- `PN_CHARS_BASE`. -/
def isPNCharsBase (c : Char) : Bool :=
  isLetter c || [(0xc0, 0xd6), (0xd8, 0xf6), (0xf8, 0x2ff), (0x370, 0x37d), (0x37f, 0x1fff),
    (0x200c, 0x200d), (0x2070, 0x218f), (0x2c00, 0x2fef), (0x3001, 0xd7ff), (0xf900, 0xfdcf),
    (0xfdf0, 0xfffd), (0x10000, 0xeffff)].any fun r => r.1 ≤ c.toNat && c.toNat ≤ r.2

/-- `PN_CHARS_U`. -/
def isPNCharsU (c : Char) : Bool := isPNCharsBase c || c = '_'

/-- `PN_CHARS`. -/
def isPNChars (c : Char) : Bool :=
  isPNCharsU c || c = '-' || isDigit c || c.toNat = 0xb7 ||
    (0x300 ≤ c.toNat && c.toNat ≤ 0x36f) || (0x203f ≤ c.toNat && c.toNat ≤ 0x2040)

/-- A run of name characters with dots inside it, and what follows: a dot belongs to
the run only where more of it follows. -/
def takeDotted (p : Char → Bool) : List Char → List Char × List Char
  | [] => ([], [])
  | c :: rest =>
    if p c then (c :: (takeDotted p rest).1, (takeDotted p rest).2)
    else if c = '.' ∧ (takeDotted p rest).1 ≠ [] then
      (c :: (takeDotted p rest).1, (takeDotted p rest).2)
    else ([], c :: rest)

/-- `BLANK_NODE_LABEL`, after its mark. -/
def readLabel : List Char → Option (List Char × List Char)
  | [] => none
  | c :: rest =>
    if isPNCharsU c || isDigit c then
      some (c :: (takeDotted isPNChars rest).1, (takeDotted isPNChars rest).2)
    else none

/-- The letters of a language tag and its parts. -/
def takeTag : List Char → List Char × List Char
  | [] => ([], [])
  | c :: rest =>
    if isLetter c || isDigit c then (c :: (takeTag rest).1, (takeTag rest).2)
    else if c = '-' ∧ (takeTag rest).1 ≠ [] ∧ (takeTag rest).1.head? ≠ some '-' then
      (c :: (takeTag rest).1, (takeTag rest).2)
    else ([], c :: rest)

/-- `LANGTAG`, after its mark. -/
def readLanguage (text : List Char) : Option (List Char × List Char) :=
  let (tag, rest) := takeTag text
  if tag ≠ [] ∧ (tag.takeWhile (· ≠ '-')).all isLetter then some (tag, rest) else none

/-! ## The grammar of N-Triples -/

/-- Blanks and tabs. -/
def skipBlank (text : List Char) : List Char := text.dropWhile fun c => c = ' ' || c = '\t'

/-- A comment goes to the end of its line. -/
def skipComment : List Char → List Char
  | [] => []
  | c :: rest => if c = '#' then rest.dropWhile fun c => !isLineEnd c else c :: rest

/-- A subject. -/
def readNode : List Char → Option (Term Char × List Char)
  | '<' :: rest => (readIRI rest).map fun r => (.iri r.1, r.2)
  | '_' :: ':' :: rest => (readLabel rest).map fun r => (.blank (.labelled r.1), r.2)
  | _ => none

/-- A literal's datatype or language, after its string. -/
def readSuffix (lexical : List Char) : List Char → Option (Term Char × List Char)
  | '^' :: '^' :: '<' :: rest => (readIRI rest).map fun r => (.literal lexical r.1 [], r.2)
  | '^' :: _ => none
  | '@' :: rest => (readLanguage rest).map fun r => (.literal lexical rdfLangString r.1, r.2)
  | rest => some (.literal lexical xsdString [], rest)

/-- An object. -/
def readObject : List Char → Option (Term Char × List Char)
  | '\x22' :: rest => (readString '\x22' rest).bind fun r => readSuffix r.1 r.2
  | text => readNode text

def Term.isIRI : Term α → Bool
  | .iri _ => true
  | _ => false

/-- `triple`. -/
def readStatement (text : List Char) : Option (Statement Char × List Char) := do
  let (subject, text) ← readNode text
  let (predicate, text) ← readNode (skipBlank text)
  let (object, text) ← readObject (skipBlank text)
  match skipBlank text with
  | '.' :: rest => if predicate.isIRI then some (⟨subject, predicate, object⟩, rest) else none
  | _ => none

/-- The lines of a document, so many at most. -/
def readLines : ℕ → List Char → Option (List (Statement Char))
  | 0, _ => none
  | n + 1, text =>
    match skipComment (skipBlank text) with
    | [] => some []
    | c :: rest =>
      if isLineEnd c then readLines n rest
      else
        (readStatement (c :: rest)).bind fun r =>
          match skipComment (skipBlank r.2) with
          | [] => some [r.1]
          | c :: rest => if isLineEnd c then (readLines n rest).map (r.1 :: ·) else none

/-- **`ntriplesDoc`**: the statements of a document. -/
def parseNTriples (text : List Char) : Option (List (Statement Char)) :=
  readLines (text.length + 1) text

/-! ## The plain rendering -/

/-- The escapes a writer of string literals needs. -/
def escapeChar (c : Char) : List Char :=
  if c = '\x5c' then ['\x5c', '\x5c']
  else if c = '\x22' then ['\x5c', '\x22']
  else if c = '\n' then ['\x5c', 'n']
  else if c = '\r' then ['\x5c', 'r']
  else if c = '\t' then ['\x5c', 't']
  else [c]

def escapeString (text : List Char) : List Char := text.flatMap escapeChar

def bracketed (iri : List Char) : List Char := '<' :: iri ++ ['>']

def quoted (lexical : List Char) : List Char := '\x22' :: escapeString lexical ++ ['\x22']

def GroundObject.render : GroundObject Char → List Char
  | .iri value => bracketed value
  | .literal lexical datatype =>
    if datatype = xsdString then quoted lexical
    else quoted lexical ++ ['^', '^'] ++ bracketed datatype

def Ground.line (g : Ground Char) : List Char :=
  bracketed g.subject ++ [' '] ++ bracketed g.predicate ++ [' '] ++ g.object.render ++
    [' ', '.', '\n']

/-- Nothing of the IRI is excluded from an IRI reference. -/
def LegalIRI (iri : List Char) : Prop := ∀ c ∈ iri, isIRIChar c = true

def GroundObject.Legal : GroundObject Char → Prop
  | .iri value => LegalIRI value
  | .literal _ datatype => LegalIRI datatype

def Ground.Legal (g : Ground Char) : Prop :=
  LegalIRI g.subject ∧ LegalIRI g.predicate ∧ g.object.Legal

/-! ## Reading back what was rendered -/

variable {iri lexical rest text : List Char}

theorem ne_of_isIRIChar (h : isIRIChar c) : c ≠ '>' ∧ c ≠ '\x5c' := by
  constructor
  · rintro rfl
    exact absurd h (by decide)
  · rintro rfl
    exact absurd h (by decide)

theorem readIRI_append (h : LegalIRI iri) : readIRI (iri ++ '>' :: rest) = some (iri, rest) := by
  unfold readIRI
  induction iri with
  | nil => simp [readUntil]
  | cons c iri ih =>
    have hc := h c (by simp)
    obtain ⟨hend, hslash⟩ := ne_of_isIRIChar hc
    have hrest := ih fun d hd => h d (by simp [hd])
    simp [readUntil, hend, hslash, hc, hrest]

/-- The terminator does not go on with an escape. -/
structure EndsOnly (terminator : Char) (short : Char → Option Char) : Prop where
  slash : terminator ≠ '\x5c'
  short : short terminator = none
  marks : terminator ≠ 'u' ∧ terminator ≠ 'U'
  hex : hexValue terminator = none

variable {short : Char → Option Char} {terminator : Char}

theorem EndsOnly.next (h : EndsOnly terminator short) (e : Escape) :
    e.next short terminator = none := by
  cases e with
  | none => rfl
  | begun => simp [Escape.next, h.marks.1, h.marks.2, h.short]
  | digits left value => simp [Escape.next, h.hex]

/-- What a reader took from the text: up to the first terminator, and the value is what
stands there, or shorter. -/
theorem readUntil_spec (hends : EndsOnly terminator short)
    (h : readUntil terminator allowed short e text = some (value, rest)) :
    ∃ raw, text = raw ++ terminator :: rest ∧ terminator ∉ raw ∧
      (value.length < raw.length ∨
        value.length = raw.length ∧ (e = .none → value = raw ∧ ∀ c ∈ raw, allowed c)) := by
  -- on the text; an escape takes more characters than it gives, so lengths tell them apart
  induction text generalizing e value with
  | nil => simp [readUntil] at h
  | cons c text ih =>
    by_cases hnone : e = .none
    · subst hnone
      rw [readUntil] at h
      split at h
      · next heq =>
        obtain ⟨rfl, rfl⟩ := h
        exact ⟨[], by simp [heq], by simp, .inr ⟨rfl, fun _ => ⟨rfl, by simp⟩⟩⟩
      · next hne =>
        split at h
        · obtain ⟨raw, htext, hnot, hlen⟩ := ih h
          refine ⟨c :: raw, by simp [htext], by simp [hnot, Ne.symm hne], .inl ?_⟩
          simp only [length_cons]
          omega
        · split at h
          · next hallowed =>
            obtain ⟨⟨v, r⟩, hread, heq⟩ := map_eq_some_iff.1 h
            obtain ⟨rfl, rfl⟩ := heq
            obtain ⟨raw, htext, hnot, hlen⟩ := ih hread
            refine ⟨c :: raw, by simp [htext], by simp [hnot, Ne.symm hne], ?_⟩
            rcases hlen with hlt | ⟨hlen, hsame⟩
            · exact .inl (by simpa using hlt)
            · obtain ⟨rfl, hall⟩ := hsame rfl
              exact .inr ⟨rfl, fun _ => ⟨rfl, by simpa [hallowed] using hall⟩⟩
          · cases h
    · have hne : c ≠ terminator := by
        rintro rfl
        cases e <;> simp [readUntil, hends.next] at h hnone
      have hread : (match e.next short c with
          | Option.none => Option.none
          | some (.inl d) =>
            (readUntil terminator allowed short .none text).map fun r => (d :: r.1, r.2)
          | some (.inr e') => readUntil terminator allowed short e' text) = some (value, rest) := by
        cases e with
        | none => exact absurd rfl hnone
        | begun | digits => exact h
      split at hread
      · cases hread
      · next d _ =>
        obtain ⟨⟨v, r⟩, hv, heq⟩ := map_eq_some_iff.1 hread
        obtain ⟨rfl, rfl⟩ := heq
        obtain ⟨raw, htext, hnot, hlen⟩ := ih hv
        refine ⟨c :: raw, by simp [htext], by simp [hnot, Ne.symm hne], ?_⟩
        rcases hlen with hlt | ⟨hlen, -⟩
        · exact .inl (by simpa using hlt)
        · exact .inr ⟨by simpa using hlen, fun he => absurd he hnone⟩
      · obtain ⟨raw, htext, hnot, hlen⟩ := ih hread
        refine ⟨c :: raw, by simp [htext], by simp [hnot, Ne.symm hne], .inl ?_⟩
        simp only [length_cons]
        omega

/-- Texts up to the first of a mark are the same. -/
theorem append_cons_inj_of_notMem {c : α} {a b x y : List α} (ha : c ∉ a)
    (h : a ++ c :: x = b ++ c :: y) : a <+: b := by
  induction a generalizing b with
  | nil => exact nil_prefix
  | cons d a ih =>
    cases b with
    | nil =>
      simp only [cons_append, nil_append, List.cons.injEq] at h
      exact absurd h.1.symm (ne_of_not_mem_cons ha)
    | cons e b =>
      simp only [cons_append, List.cons.injEq] at h
      obtain ⟨rfl, h⟩ := h
      exact (prefix_cons_inj d).2 (ih (fun hc => ha (by simp [hc])) h)

/-- **An IRI read back as it was meant is legal**, and it was all that was read. -/
theorem legal_of_readIRI (h : readIRI (iri ++ '>' :: rest) = some (iri, text)) :
    LegalIRI iri ∧ text = rest := by
  have hends : EndsOnly '>' (fun _ => none) := ⟨by decide, rfl, by decide, by decide⟩
  obtain ⟨_, htext, hnot, hlen⟩ := readUntil_spec hends h
  have hle := (append_cons_inj_of_notMem hnot htext.symm).length_le
  rcases hlen with _ | ⟨-, hsame⟩
  · omega
  · obtain ⟨rfl, hall⟩ := hsame rfl
    refine ⟨hall, ?_⟩
    simpa using htext.symm

theorem readString_escape (lexical rest : List Char) :
    readString '\x22' (escapeString lexical ++ '\x22' :: rest) = some (lexical, rest) := by
  unfold readString
  induction lexical with
  | nil => simp [escapeString, readUntil]
  | cons c lexical ih =>
    have hrest : ∀ e, readUntil '\x22' (fun c => !isLineEnd c) shortEscape e
        (escapeString (c :: lexical) ++ '\x22' :: rest) =
        readUntil '\x22' (fun c => !isLineEnd c) shortEscape e
          (escapeChar c ++ (escapeString lexical ++ '\x22' :: rest)) := by
      simp [escapeString]
    rw [hrest]
    unfold escapeChar
    iterate 5
      split
      · next h => simp [h, readUntil, Escape.next, shortEscape, ih]
    · next hslash hquote hn hr _ =>
      have hallowed : (!isLineEnd c) := by simp [isLineEnd, hn, hr]
      rw [singleton_append, readUntil, if_neg hquote, if_neg hslash, if_pos hallowed, ih]
      rfl

theorem readNode_iri (text : List Char) :
    readNode ('<' :: text) = (readIRI text).map fun r => (.iri r.1, r.2) := rfl

theorem readObject_iri (text : List Char) : readObject ('<' :: text) = readNode ('<' :: text) := rfl

theorem readObject_quote (text : List Char) :
    readObject ('\x22' :: text) = (readString '\x22' text).bind fun r => readSuffix r.1 r.2 := rfl

theorem readSuffix_datatype (lexical text : List Char) :
    readSuffix lexical ('^' :: '^' :: '<' :: text) =
      (readIRI text).map fun r => (.literal lexical r.1 [], r.2) := rfl

/-- The three ways an object is written. -/
theorem readObject_render_iri (value rest : List Char) :
    readObject ((GroundObject.iri value).render ++ ' ' :: rest) =
      (readIRI (value ++ '>' :: ' ' :: rest)).map fun r => (.iri r.1, r.2) := by
  have hform : (iri value).render ++ ' ' :: rest = '<' :: (value ++ '>' :: ' ' :: rest) := by
    simp [render, bracketed]
  rw [hform, readObject_iri, readNode_iri]

theorem readObject_render_plain (lexical rest : List Char) :
    readObject ((literal lexical xsdString).render ++ ' ' :: rest) =
      some (.literal lexical xsdString [], ' ' :: rest) := by
  have hform : (literal lexical xsdString).render ++ ' ' :: rest =
      '\x22' :: (escapeString lexical ++ '\x22' :: ' ' :: rest) := by
    simp [render, quoted]
  rw [hform, readObject_quote, readString_escape]
  rfl

theorem readObject_render_typed (h : datatype ≠ xsdString) (lexical rest : List Char) :
    readObject ((literal lexical datatype).render ++ ' ' :: rest) =
      (readIRI (datatype ++ '>' :: ' ' :: rest)).map fun r => (.literal lexical r.1 [], r.2) := by
  have hform : (literal lexical datatype).render ++ ' ' :: rest =
      '\x22' :: (escapeString lexical ++ '\x22' :: '^' :: '^' :: '<' ::
        (datatype ++ '>' :: ' ' :: rest)) := by
    simp [render, h, quoted, bracketed]
  rw [hform, readObject_quote, readString_escape, bind_some, readSuffix_datatype]

theorem legal_xsdString : LegalIRI xsdString := by
  have hall : xsdString.all isIRIChar := by decide +kernel
  exact List.all_eq_true.1 hall

variable {o : GroundObject Char}

/-- A blank before the full stop ends every object. -/
theorem readObject_render (h : o.Legal) (rest : List Char) :
    readObject (o.render ++ ' ' :: rest) = some (o.term, ' ' :: rest) := by
  cases o with
  | iri value =>
    rw [readObject_render_iri, readIRI_append h]
    rfl
  | literal lexical datatype =>
    by_cases hplain : datatype = xsdString
    · rw [hplain, readObject_render_plain]
      rfl
    · rw [readObject_render_typed hplain, readIRI_append h]
      rfl

/-- And an object read back as it was meant is legal. -/
theorem legal_of_readObject (h : readObject (o.render ++ ' ' :: rest) = some (o.term, text)) :
    o.Legal := by
  cases o with
  | iri value =>
    rw [readObject_render_iri, map_eq_some_iff] at h
    obtain ⟨⟨_, rest'⟩, hread, heq⟩ := h
    simp only [term, Prod.mk.injEq, Term.iri.injEq] at heq
    rw [heq.1] at hread
    exact (legal_of_readIRI hread).1
  | literal lexical datatype =>
    by_cases hplain : datatype = xsdString
    · rw [Legal, hplain]
      exact legal_xsdString
    · rw [readObject_render_typed hplain, map_eq_some_iff] at h
      obtain ⟨⟨_, rest'⟩, hread, heq⟩ := h
      simp only [term, Prod.mk.injEq, Term.literal.injEq] at heq
      rw [heq.1.2.1] at hread
      exact (legal_of_readIRI hread).1

variable {g : Ground Char} {gs : List (Ground Char)} {n : ℕ}

theorem line_append (g : Ground Char) (text : List Char) :
    g.line ++ text = '<' :: (g.subject ++ '>' :: ' ' :: '<' :: (g.predicate ++
      '>' :: ' ' :: (g.object.render ++ ' ' :: '.' :: '\n' :: text))) := by
  simp [Ground.line, bracketed]

theorem skipBlank_cons_blank (text : List Char) : skipBlank (' ' :: text) = skipBlank text := rfl

theorem skipBlank_iri (text : List Char) : skipBlank ('<' :: text) = '<' :: text := rfl

/-- An object starts with a mark, not with a blank. -/
theorem skipBlank_render (o : GroundObject Char) (text : List Char) :
    skipBlank (o.render ++ text) = o.render ++ text := by
  cases o with
  | iri value => rfl
  | literal lexical datatype =>
    rw [render]
    split <;> rfl

theorem readStatement_line (h : g.Legal) (text : List Char) :
    readStatement (g.line ++ text) = some (g.statement, '\n' :: text) := by
  obtain ⟨hs, hp, ho⟩ := h
  rw [line_append, readStatement, readNode_iri, readIRI_append hs]
  simp only [map_some, bind_eq_bind, bind_some, skipBlank_cons_blank,
    skipBlank_iri, readNode_iri, readIRI_append hp, skipBlank_render, readObject_render ho]
  rfl

/-- **A statement read back as it was meant is legal.** -/
theorem legal_of_readStatement
    (h : readStatement (g.line ++ text) = some (g.statement, rest)) : g.Legal := by
  rw [line_append, readStatement, readNode_iri] at h
  simp only [bind_eq_bind] at h
  obtain ⟨⟨subject, _⟩, hsubject, h⟩ := bind_eq_some_iff.1 h
  obtain ⟨⟨predicate, _⟩, hpredicate, h⟩ := bind_eq_some_iff.1 h
  obtain ⟨⟨object, _⟩, hobject, h⟩ := bind_eq_some_iff.1 h
  have hstatement : (⟨subject, predicate, object⟩ : Statement Char) = g.statement := by
    split at h
    · split at h
      · simp only [Option.some.injEq, Prod.mk.injEq] at h
        exact h.1
      · cases h
    · cases h
  obtain ⟨rfl, rfl, rfl⟩ := hstatement
  -- term by term; each legal term leaves the reader where the next one starts
  obtain ⟨⟨s, _⟩, hs, heq⟩ := map_eq_some_iff.1 hsubject
  obtain ⟨rfl, rfl⟩ := heq
  obtain ⟨hlegal, rfl⟩ := legal_of_readIRI hs
  obtain ⟨⟨p, _⟩, hp, heq⟩ := map_eq_some_iff.1 hpredicate
  obtain ⟨rfl, rfl⟩ := heq
  obtain ⟨hlegal', rfl⟩ := legal_of_readIRI hp
  rw [skipBlank_cons_blank, skipBlank_render] at hobject
  exact ⟨hlegal, hlegal', legal_of_readObject hobject⟩

theorem readLines_line : readLines (n + 1) (g.line ++ text) =
    (readStatement (g.line ++ text)).bind fun r =>
      match skipComment (skipBlank r.2) with
      | [] => some [r.1]
      | c :: rest => if isLineEnd c then (readLines n rest).map (r.1 :: ·) else none := by
  rfl

/-- **The round trip of a document.** Each line is read back as it was meant exactly if
every IRI written is legal. -/
theorem readLines_lines_iff (hn : gs.length < n) :
    readLines n (gs.flatMap Ground.line) = some (gs.map Ground.statement) ↔
      ∀ g ∈ gs, g.Legal := by
  induction gs generalizing n with
  | nil =>
    obtain ⟨m, rfl⟩ : ∃ m, n = m + 1 := ⟨n - 1, by simp at hn; omega⟩
    simp [readLines, skipBlank, skipComment]
  | cons g gs ih =>
    obtain ⟨m, rfl⟩ : ∃ m, n = m + 1 := ⟨n - 1, by simp at hn; omega⟩
    have hm : gs.length < m := by simpa using hn
    rw [flatMap_cons, readLines_line, map_cons, forall_mem_cons]
    constructor
    · intro h
      obtain ⟨⟨st, _⟩, hread, h⟩ := bind_eq_some_iff.1 h
      have hst : st = g.statement := by
        split at h
        · simp only [Option.some.injEq, List.cons.injEq] at h
          exact h.1
        · split at h
          · obtain ⟨sts, -, heq⟩ := map_eq_some_iff.1 h
            simp only [List.cons.injEq] at heq
            exact heq.1
          · cases h
      rw [hst] at hread
      have hlegal := legal_of_readStatement hread
      rw [readStatement_line hlegal, Option.some.injEq, Prod.mk.injEq] at hread
      obtain ⟨-, rfl⟩ := hread
      refine ⟨hlegal, (ih hm).1 ?_⟩
      obtain ⟨sts, hsts, heq⟩ := map_eq_some_iff.1 h
      simp only [List.cons.injEq] at heq
      rw [hsts, heq.2]
    · rintro ⟨hlegal, hrest⟩
      rw [readStatement_line hlegal, bind_some]
      have hrest := (ih hm).2 hrest
      show (readLines m _).map _ = _
      rw [hrest]
      rfl

theorem parse_lines_iff : parseNTriples (gs.flatMap Ground.line) = some (gs.map Ground.statement) ↔
      ∀ g ∈ gs, g.Legal := by
  refine readLines_lines_iff ?_
  -- every line has characters
  have hlen : gs.length ≤ (gs.flatMap Ground.line).length := by
    induction gs with
    | nil => simp
    | cons g gs ih =>
      have hline : 0 < g.line.length := by
        simp only [Ground.line, length_append, length_cons]
        omega
      simp only [flatMap_cons, length_append, length_cons]
      omega
  omega

end SemStreams.Rdf
