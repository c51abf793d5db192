import SemStreams.Lib.Run
import SemStreams.Lib.Rdf.NTriples
/-!
# The Turtle grammar

A document is read in two passes: into tokens, each the longest the grammar has
there, and from tokens into statements. The second pass is a machine that takes one
token at a time. It holds what it waits for, and a stack of the places that the
blank nodes and collections still open are to fill.

Relative references are resolved against the base a document declares; where it
declares none, an IRI stands as it is written.
-/

namespace SemStreams.Rdf

/-! ## Tokens -/

inductive Token
  | iriref (value : List Char)
  | pname (label name : List Char)
  | blankLabel (label : List Char)
  | string (value : List Char)
  | language (tag : List Char)
  | number (lexical datatype : List Char)
  | boolean (value : Bool)
  | isA
  | atPrefix
  | atBase
  | sparqlPrefix
  | sparqlBase
  | dot
  | semicolon
  | comma
  | bracketOpen
  | bracketClose
  | parenOpen
  | parenClose
  | datatypeMark
deriving DecidableEq

def xsd (name : String) : List Char := "http://www.w3.org/2001/XMLSchema#".toList ++ name.toList

def rdf (name : String) : List Char :=
  "http://www.w3.org/1999/02/22-rdf-syntax-ns#".toList ++ name.toList

def isHex (c : Char) : Bool := (hexValue c).isSome

/-- The characters of `PN_LOCAL_ESC`. -/
def isLocalEscape (c : Char) : Bool := c ∈ "_~.-!$&\x27()*+,;=/?#@%".toList

/-- A percent escape starts here. Its digits are name characters themselves. -/
def percentEscape (c : Char) : List Char → Bool
  | a :: b :: _ => c = '%' && isHex a && isHex b
  | _ => false

/-- A backslash escape starts here. -/
def backslashEscape (c : Char) (rest : List Char) : Bool :=
  c = '\x5c' && rest.head?.any isLocalEscape

/-- `PN_LOCAL` after its first character, and what follows; `taken` where an escape says
that the next character belongs to it. A dot needs more of the name after it. -/
def takeLocalTail : Bool → List Char → List Char × List Char
  | _, [] => ([], [])
  | true, c :: rest => (c :: (takeLocalTail false rest).1, (takeLocalTail false rest).2)
  | false, c :: rest =>
    if isPNChars c || c = ':' || percentEscape c rest then
      (c :: (takeLocalTail false rest).1, (takeLocalTail false rest).2)
    else if backslashEscape c rest then takeLocalTail true rest
    else if c = '.' && (takeLocalTail false rest).1 ≠ [] then
      (c :: (takeLocalTail false rest).1, (takeLocalTail false rest).2)
    else ([], c :: rest)

/-- `PN_LOCAL`, or nothing. -/
def takeLocal : List Char → List Char × List Char
  | [] => ([], [])
  | c :: rest =>
    if isPNCharsU c || isDigit c || c = ':' || percentEscape c rest then
      (c :: (takeLocalTail false rest).1, (takeLocalTail false rest).2)
    else if backslashEscape c rest then takeLocalTail true rest
    else ([], c :: rest)

/-- An exponent, or nothing. -/
def takeExponent : List Char → List Char × List Char
  | [] => ([], [])
  | e :: rest =>
    let sign := rest.takeWhile fun c => c = '+' || c = '-'
    let digits := (rest.drop sign.length).takeWhile isDigit
    if (e = 'e' || e = 'E') && sign.length ≤ 1 && digits ≠ [] then
      (e :: sign ++ digits, rest.drop (sign.length + digits.length))
    else ([], e :: rest)

/-- The part after the integer part: a dot with digits, or one before an exponent. -/
def takeFraction (whole : List Char) : List Char → List Char × List Char
  | [] => ([], [])
  | c :: rest =>
    let digits := rest.takeWhile isDigit
    if c = '.' && (digits ≠ [] || (whole ≠ [] && (takeExponent rest).1 ≠ [])) then
      (c :: digits, rest.drop digits.length)
    else ([], c :: rest)

/-- `INTEGER`, `DECIMAL` or `DOUBLE`. -/
def readNumber (text : List Char) : Option (Token × List Char) :=
  let sign := (text.take 1).takeWhile fun c => c = '+' || c = '-'
  let whole := (text.drop sign.length).takeWhile isDigit
  let (fraction, afterFraction) := takeFraction whole (text.drop (sign.length + whole.length))
  let (exponent, rest) := takeExponent afterFraction
  if whole = [] ∧ fraction = [] then none
  else
    some (.number (sign ++ whole ++ fraction ++ exponent) (if exponent ≠ [] then xsd "double"
        else if fraction ≠ [] then xsd "decimal" else xsd "integer"), rest)

/-- A string in three quotes, after the opening ones; `seen` quotes stand just before. -/
def readLong (quote : Char) : Escape → ℕ → List Char → Option (List Char × List Char)
  | _, _, [] => Option.none
  | .none, seen, c :: rest =>
    if c = quote then
      if seen = 2 then some ([], rest) else readLong quote .none (seen + 1) rest
    else
      (if c = '\x5c' then readLong quote .begun 0 rest
        else (readLong quote .none 0 rest).map fun r => (c :: r.1, r.2)).map
          fun r => (List.replicate seen quote ++ r.1, r.2)
  | e, _, c :: rest =>
    match e.next shortEscape c with
    | Option.none => Option.none
    | some (.inl d) => (readLong quote .none 0 rest).map fun r => (d :: r.1, r.2)
    | some (.inr e') => readLong quote e' 0 rest

/-- The four forms of a string literal, after the first quote. -/
def readQuoted (quote : Char) (text : List Char) : Option (Token × List Char) :=
  if text.take 2 = [quote, quote] then
    (readLong quote .none 0 (text.drop 2)).map fun r => (.string r.1, r.2)
  else (readString quote text).map fun r => (.string r.1, r.2)

/-- A language tag, or the start of a directive. -/
def readAt (text : List Char) : Option (Token × List Char) :=
  (readLanguage text).map fun r =>
    (if r.1 = "prefix".toList then .atPrefix
      else if r.1 = "base".toList then .atBase else .language r.1, r.2)

def keyword (word : List Char) : Option Token :=
  if word = ['a'] then some .isA
  else if word = "true".toList then some (.boolean true)
  else if word = "false".toList then some (.boolean false)
  else if word.map Char.toLower = "prefix".toList then some .sparqlPrefix
  else if word.map Char.toLower = "base".toList then some .sparqlBase
  else none

/-- A prefixed name, after its colon. -/
def readLocal (label text : List Char) : Token × List Char :=
  (.pname label (takeLocal text).1, (takeLocal text).2)

/-- A prefixed name, or a keyword. -/
def readWord (c : Char) (rest : List Char) : Option (Token × List Char) :=
  match (takeDotted isPNChars rest).2 with
  | ':' :: after => some (readLocal (c :: (takeDotted isPNChars rest).1) after)
  | _ =>
    let word := (c :: rest).takeWhile isPNChars
    (keyword word).map fun token => (token, (c :: rest).drop word.length)

/-- The marks that are tokens by themselves. -/
def punctuation (c : Char) : Option Token :=
  if c = ';' then some .semicolon
  else if c = ',' then some .comma
  else if c = '[' then some .bracketOpen
  else if c = ']' then some .bracketClose
  else if c = '(' then some .parenOpen
  else if c = ')' then some .parenClose
  else none

/-- **One token** of a text that starts with one. -/
def readToken : List Char → Option (Token × List Char)
  | [] => none
  | c :: rest =>
    if c = '<' then (readIRI rest).map fun r => (.iriref r.1, r.2)
    else if c = '\x22' ∨ c = '\x27' then readQuoted c rest
    else if isPNCharsBase c then readWord c rest
    else if c = ':' then some (readLocal [] rest)
    else if c = '@' then readAt rest
    else if c = '_' then
      if rest.head? = some ':' then
        (readLabel rest.tail).map fun r => (.blankLabel r.1, r.2)
      else none
    else if c = '^' then
      if rest.head? = some '^' then some (.datatypeMark, rest.tail) else none
    else if c = '.' ∧ ¬ rest.head?.any isDigit then some (.dot, rest)
    else
      match punctuation c with
      | some token => some (token, rest)
      | none => readNumber (c :: rest)

/-- White space and comments. -/
def skipSpace : Bool → List Char → List Char
  | _, [] => []
  | true, c :: rest => skipSpace (!isLineEnd c) rest
  | false, c :: rest =>
    if c = ' ' || c = '\t' || isLineEnd c then skipSpace false rest
    else if c = '#' then skipSpace true rest
    else c :: rest

/-- The tokens of a text, so many at most. -/
def readTokens : ℕ → List Char → Option (List Token)
  | 0, _ => none
  | n + 1, text =>
    match skipSpace false text with
    | [] => some []
    | c :: rest => (readToken (c :: rest)).bind fun r => (readTokens n r.2).map (r.1 :: ·)

/-! ## Statements -/

/-- Where a term goes once it is complete. In a collection, after the nodes it has so
far: the first and the last. -/
inductive Hole
  | subject
  | object (subject predicate : Term Char)
  | item (nodes : Option (ℕ × ℕ))
deriving DecidableEq

/-- What the machine waits for. -/
inductive Goal
  /-- A statement, a directive or the end. -/
  | statement
  | labelName (dotted : Bool)
  | labelIRI (dotted : Bool) (label : List Char)
  | baseIRI (dotted : Bool)
  /-- The dot after a directive. -/
  | directiveEnd
  /-- A verb; `listed` where the subject has one already. -/
  | verb (subject : Term Char) (listed : Bool)
  | object (subject predicate : Term Char)
  | afterObject (subject predicate : Term Char)
  /-- A datatype or a language, if there is one. -/
  | suffix (lexical : List Char) (hole : Hole)
  | datatype (lexical : List Char) (hole : Hole)
  | items (nodes : Option (ℕ × ℕ))
deriving DecidableEq

structure Machine where
  labels : List (List Char × List Char) := []
  base : Option (List Char) := none
  fresh : ℕ := 0
  out : List (Statement Char) := []
  goal : Goal := .statement
  stack : List Hole := []

namespace Machine

-- how a reference is resolved against a base
variable (resolve : List Char → List Char → List Char)

def node (n : ℕ) : Term Char := .blank (.fresh n)

def first : Term Char := .iri (rdf "first")

def restOf : Term Char := .iri (rdf "rest")

/-- The IRI a token stands for. -/
def iri (m : Machine) : Token → Option (Term Char)
  | .iriref value =>
    some (.iri (match m.base with | some base => resolve base value | none => value))
  | .pname label name => (m.labels.lookup label).map fun namespace_ => .iri (namespace_ ++ name)
  | _ => none

/-- A term is complete. -/
def fill (m : Machine) (t : Term Char) : Hole → Machine
  | .subject => { m with goal := .verb t false }
  | .object s p => { m with out := ⟨s, p, t⟩ :: m.out, goal := .afterObject s p }
  | .item none =>
    { m with
      out := ⟨node m.fresh, first, t⟩ :: m.out
      fresh := m.fresh + 1
      goal := .items (some (m.fresh, m.fresh)) }
  | .item (some (head, last)) =>
    { m with
      out := ⟨node m.fresh, first, t⟩ :: ⟨node last, restOf, node m.fresh⟩ :: m.out
      fresh := m.fresh + 1
      goal := .items (some (head, m.fresh)) }

/-- A token at a place for a term. -/
def place (m : Machine) (hole : Hole) (token : Token) : Option Machine :=
  match token with
  | .iriref _ | .pname _ _ => (m.iri resolve token).map fun t => m.fill t hole
  | .blankLabel label => some (m.fill (.blank (.labelled label)) hole)
  | .bracketOpen =>
    some { m with
      fresh := m.fresh + 1, goal := .verb (node m.fresh) false, stack := hole :: m.stack }
  | .parenOpen => some { m with goal := .items none, stack := hole :: m.stack }
  | .string value => if hole = .subject then none else some { m with goal := .suffix value hole }
  | .number lexical datatype =>
    if hole = .subject then none else some (m.fill (.literal lexical datatype []) hole)
  | .boolean b =>
    if hole = .subject then none
    else some (m.fill (.literal (if b then "true" else "false").toList (xsd "boolean") []) hole)
  | _ => none

/-- A closing bracket: the node of the property list is complete. -/
def closeBracket (m : Machine) (t : Term Char) (listed : Bool) : Option Machine :=
  match m.stack with
  | [] => none
  | .subject :: stack => some { m with goal := .verb t listed, stack := stack }
  | hole :: stack => some ({ m with stack := stack }.fill t hole)

def closeParen (m : Machine) (nodes : Option (ℕ × ℕ)) : Option Machine :=
  match m.stack with
  | [] => none
  | hole :: stack =>
    match nodes with
    | none => some ({ m with stack := stack }.fill (.iri (rdf "nil")) hole)
    | some (head, last) =>
      some ({ m with
        out := ⟨node last, restOf, .iri (rdf "nil")⟩ :: m.out, stack := stack }.fill
          (node head) hole)

/-- The full stop of a statement. -/
def finish (m : Machine) : Option Machine :=
  if m.stack = [] then some { m with goal := .statement } else none

/-- A token after a literal's suffix has been settled. -/
def stepSettled (m : Machine) (token : Token) : Option Machine :=
  match m.goal with
  | .statement =>
    match token with
    | .atPrefix => some { m with goal := .labelName true }
    | .sparqlPrefix => some { m with goal := .labelName false }
    | .atBase => some { m with goal := .baseIRI true }
    | .sparqlBase => some { m with goal := .baseIRI false }
    | _ => m.place resolve .subject token
  | .labelName dotted =>
    match token with
    | .pname label [] => some { m with goal := .labelIRI dotted label }
    | _ => none
  | .labelIRI dotted label =>
    match token with
    | .iriref value =>
      some { m with
        labels := (label, match m.base with | some base => resolve base value | none => value) ::
          m.labels
        goal := if dotted then .directiveEnd else .statement }
    | _ => none
  | .baseIRI dotted =>
    match token with
    | .iriref value =>
      some { m with
        base := some (match m.base with | some base => resolve base value | none => value)
        goal := if dotted then .directiveEnd else .statement }
    | _ => none
  | .directiveEnd => if token = .dot then some { m with goal := .statement } else none
  | .verb s listed =>
    match token with
    | .isA => some { m with goal := .object s (.iri (rdf "type")) }
    | .semicolon => if listed then some m else none
    | .dot => if listed then m.finish else none
    | .bracketClose => m.closeBracket s listed
    | _ => (m.iri resolve token).map fun p => { m with goal := .object s p }
  | .object s p => m.place resolve (.object s p) token
  | .afterObject s p =>
    match token with
    | .comma => some { m with goal := .object s p }
    | .semicolon => some { m with goal := .verb s true }
    | .dot => m.finish
    | .bracketClose => m.closeBracket s true
    | _ => none
  | .datatype lexical hole =>
    match m.iri resolve token with
    | some (.iri datatype) => some (m.fill (.literal lexical datatype []) hole)
    | _ => none
  | .items nodes =>
    if token = .parenClose then m.closeParen nodes else m.place resolve (.item nodes) token
  | .suffix _ _ => none

/-- **One token.** A string without a datatype or a language is complete when the next
token is neither. -/
def step (m : Machine) (token : Token) : Option Machine :=
  match m.goal with
  | .suffix lexical hole =>
    match token with
    | .datatypeMark => some { m with goal := .datatype lexical hole }
    | .language tag => some (m.fill (.literal lexical rdfLangString tag) hole)
    | _ => (m.fill (.literal lexical xsdString []) hole).stepSettled resolve token
  | _ => m.stepSettled resolve token

end Machine

/-- **`turtleDoc`**: the statements of a document. -/
def parseTurtle (resolve : List Char → List Char → List Char) (text : List Char) :
    Option (List (Statement Char)) := do
  let tokens ← readTokens (text.length + 1) text
  let m ← run (Machine.step resolve) {} tokens
  if m.goal = .statement ∧ m.stack = [] then some m.out.reverse else none

end SemStreams.Rdf
