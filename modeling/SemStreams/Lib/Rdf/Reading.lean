import SemStreams.Lib.Rdf.Turtle
import Mathlib.Data.Nat.Digits.Defs
/-!
# Reading Turtle that was written plainly

What the terminals of the grammar make of IRIs, prefixed names, quoted strings,
integers and booleans that are followed by a blank, and what the machine makes of
their tokens. A prefixed name is read as far as its local name goes: the rest of it,
where there is any, is left standing.
-/

namespace SemStreams.Rdf

open List Option Machine

/-! ## Tokens at the front of a text -/

section Tokens

variable {rest : List Char}

theorem readToken_iriref {iri : List Char} (h : LegalIRI iri) :
    readToken ('<' :: (iri ++ '>' :: rest)) = some (.iriref iri, rest) := by
  rw [readToken, if_pos rfl, readIRI_append h]
  rfl

/-- `PN_PREFIX`. -/
def isPNPrefix : List Char → Bool
  | [] => false
  | c :: rest => isPNCharsBase c && takeDotted isPNChars rest = (rest, [])

/-- **`PN_LOCAL`, or nothing**: all of the text is read as one local name, and stands for
itself. -/
def isPNLocal (name : List Char) : Bool := takeLocal name = (name, [])

variable {c : Char}

theorem takeDotted_append (hw : takeDotted p w = (w, []))
    (hc : p c = false) (hdot : c ≠ '.') (rest : List Char) :
    takeDotted p (w ++ c :: rest) = (w, c :: rest) := by
  induction w with
  | nil => simp [takeDotted, hc, hdot]
  | cons d w ih =>
    rw [takeDotted] at hw
    have htail : takeDotted p w = (w, []) ∧ (p d ∨ d = '.' ∧ w ≠ []) := by
      split at hw
      · next hd =>
        simp only [Prod.mk.injEq, List.cons.injEq, true_and] at hw
        exact ⟨Prod.ext hw.1 hw.2, .inl hd⟩
      · split at hw
        · next hd =>
          simp only [Prod.mk.injEq, List.cons.injEq, true_and] at hw
          exact ⟨Prod.ext hw.1 hw.2, .inr ⟨hd.1, hw.1 ▸ hd.2⟩⟩
        · simp at hw
    have hrest := ih htail.1
    rw [cons_append, takeDotted, hrest]
    rcases htail.2 with hd | ⟨hd, hne⟩
    · rw [if_pos hd]
    · split
      · rfl
      · rw [if_pos ⟨hd, hne⟩]

theorem readToken_pname (h : isPNPrefix label) (text : List Char) :
    readToken (label ++ ':' :: text) = some (readLocal label text) := by
  cases label with
  | nil => cases h
  | cons c w =>
    simp only [isPNPrefix, Bool.and_eq_true, decide_eq_true_eq] at h
    have hmark : c ≠ '<' ∧ c ≠ '\x22' ∧ c ≠ '\x27' := by
      refine ⟨?_, ?_, ?_⟩ <;> rintro rfl <;> exact absurd h.1 (by decide)
    have hword : readWord c (w ++ ':' :: text) = some (readLocal (c :: w) text) := by
      rw [readWord, takeDotted_append h.2 (by decide) (by decide)]
      rfl
    rw [cons_append, readToken, if_neg hmark.1,
      if_neg (not_or.2 ⟨hmark.2.1, hmark.2.2⟩), if_pos h.1, hword]

/-- A blank ends a local name. -/
theorem percentEscape_append (c : Char) (name : List Char) :
    percentEscape c (name ++ ' ' :: rest) = percentEscape c name := by
  match name with
  | [] =>
    cases rest with
    | nil => rfl
    | cons d rest => simp [percentEscape, show isHex ' ' = false by decide]
  | [a] => simp [percentEscape, show isHex ' ' = false by decide]
  | a :: b :: name => rfl

theorem backslashEscape_append (c : Char) (name : List Char) :
    backslashEscape c (name ++ ' ' :: rest) = backslashEscape c name := by
  cases name with
  | nil => simp [backslashEscape, show isLocalEscape ' ' = false by decide]
  | cons a name => rfl

theorem percentEscape_blank (rest : List Char) : percentEscape ' ' rest = false := by
  unfold percentEscape
  split <;> simp

theorem backslashEscape_eq_false (h : '\x5c' ∉ c :: name) :
    backslashEscape c name = false := by
  have hc : c ≠ '\x5c' := fun hc => h (by simp [hc])
  simp [backslashEscape, hc]

theorem takeLocalTail_blank (rest : List Char) :
    takeLocalTail false (' ' :: rest) = ([], ' ' :: rest) := by
  rw [takeLocalTail, percentEscape_blank]
  simp [backslashEscape, show isPNChars ' ' = false by decide]

theorem takeLocalTail_append {taken : Bool} {name : List Char} (h : taken → name ≠ []) :
    takeLocalTail taken (name ++ ' ' :: rest) =
      ((takeLocalTail taken name).1, (takeLocalTail taken name).2 ++ ' ' :: rest) := by
  induction name generalizing taken with
  | nil =>
    cases taken with
    | true => exact absurd rfl (h rfl)
    | false => exact takeLocalTail_blank rest
  | cons c name ih =>
    have hplain := @ih false (by simp)
    cases taken with
    | true => simp [takeLocalTail, hplain]
    | false =>
      simp only [cons_append, takeLocalTail, percentEscape_append, backslashEscape_append, hplain]
      split
      · rfl
      split
      · next hescape =>
        refine ih ?_
        rintro - rfl
        simp [backslashEscape] at hescape
      split <;> rfl

/-- A local name is read as far as it goes, whatever stands after the blank. -/
theorem takeLocal_append (name : List Char) : takeLocal (name ++ ' ' :: rest) =
      ((takeLocal name).1, (takeLocal name).2 ++ ' ' :: rest) := by
  cases name with
  | nil =>
    simp [takeLocal, percentEscape_blank, backslashEscape, show isPNCharsU ' ' = false by decide,
      show isDigit ' ' = false by decide]
  | cons c name =>
    have hplain := @takeLocalTail_append rest false name (by simp)
    simp only [cons_append, takeLocal, percentEscape_append, backslashEscape_append, hplain]
    split
    · rfl
    split
    · next hescape =>
      refine takeLocalTail_append ?_
      rintro - rfl
      simp [backslashEscape] at hescape
    · rfl

/-- Without backslashes nothing is lost on the way. -/
theorem takeLocalTail_fst_append_snd (h : '\x5c' ∉ name) :
    (takeLocalTail false name).1 ++ (takeLocalTail false name).2 = name := by
  induction name with
  | nil => rfl
  | cons c name ih =>
    have hrest := ih fun hc => h (by simp [hc])
    rw [takeLocalTail, backslashEscape_eq_false h]
    split
    · simpa using hrest
    · simp only [Bool.false_eq_true, if_false]
      split
      · simpa using hrest
      · rfl

theorem takeLocal_fst_append_snd (h : '\x5c' ∉ name) :
    (takeLocal name).1 ++ (takeLocal name).2 = name := by
  cases name with
  | nil => rfl
  | cons c name =>
    have hrest := @takeLocalTail_fst_append_snd name fun hc => h (by simp [hc])
    rw [takeLocal, backslashEscape_eq_false h]
    split
    · simpa using hrest
    · rfl

/-- **What is no local name is read short.** -/
theorem isPNLocal_iff (h : '\x5c' ∉ name) :
    isPNLocal name ↔ (takeLocal name).1 = name := by
  unfold isPNLocal
  rw [decide_eq_true_eq]
  constructor
  · intro heq
    rw [heq]
  · intro heq
    have hsum := takeLocal_fst_append_snd h
    rw [heq, append_right_eq_self] at hsum
    exact Prod.ext heq hsum

/-- A quoted string, before anything but another quote. -/
theorem readToken_quoted (lexical : List Char) (hc : c ≠ '\x22') (rest : List Char) :
    readToken (quoted lexical ++ c :: rest) = some (.string lexical, c :: rest) := by
  have hform : quoted lexical ++ c :: rest =
      '\x22' :: (escapeString lexical ++ '\x22' :: c :: rest) := by
    simp [quoted]
  have hshort : (escapeString lexical ++ '\x22' :: c :: rest).take 2 ≠ ['\x22', '\x22'] := by
    cases lexical with
    | nil => simp [escapeString, hc]
    | cons d lexical =>
      have hhead : ∀ tail, (escapeChar d ++ tail).head? ≠ some '\x22' := by
        unfold escapeChar
        iterate 5
          split
          · simp
        · next hquote _ _ _ => simpa using hquote
      intro htake
      refine hhead (escapeString lexical ++ '\x22' :: c :: rest) ?_
      have hfirst := congrArg List.head? htake
      rw [List.head?_take, if_neg (by decide)] at hfirst
      simpa [escapeString] using hfirst
  rw [hform, readToken, if_neg (by decide), if_pos (.inl rfl), readQuoted, if_neg hshort,
    readString_escape]
  rfl

theorem readToken_datatypeMark (rest : List Char) :
    readToken ('^' :: '^' :: rest) = some (.datatypeMark, rest) := rfl

theorem readToken_semicolon (rest : List Char) :
    readToken (';' :: rest) = some (.semicolon, rest) := rfl

theorem readToken_dot (rest : List Char) :
    readToken ('.' :: '\n' :: rest) = some (.dot, '\n' :: rest) := rfl

theorem readToken_atPrefix (rest : List Char) :
    readToken ("@prefix".toList ++ ' ' :: rest) = some (.atPrefix, ' ' :: rest) := rfl

/-! ### Booleans and integers -/

theorem readToken_boolean (b : Bool) (rest : List Char) :
    readToken ((if b then "true" else "false").toList ++ ' ' :: rest) =
      some (.boolean b, ' ' :: rest) := by
  cases b <;> rfl

theorem toNat_of_isDigit (h : isDigit c) : 48 ≤ c.toNat ∧ c.toNat ≤ 57 := by
  simp only [isDigit, Bool.and_eq_true, decide_eq_true_eq] at h
  exact ⟨h.1, h.2⟩

theorem isPNCharsBase_of_lt (h : c.toNat < 65) : isPNCharsBase c = false := by
  have hletter : isLetter c = false := by
    have hlower : ¬ 'a' ≤ c := fun hle => by
      have : 97 ≤ c.toNat := hle
      omega
    have hupper : ¬ 'A' ≤ c := fun hle => by
      have : 65 ≤ c.toNat := hle
      omega
    simp [isLetter, hlower, hupper]
  simp only [isPNCharsBase, hletter, Bool.false_or, any_cons, any_nil, Bool.or_false,
    Bool.or_eq_false_iff, Bool.and_eq_false_iff, decide_eq_false_iff_not]
  omega

/-- A sign, or none. -/
def isSign (sign : List Char) : Bool := sign = [] || sign = ['-']

theorem readNumber_integer (hsign : isSign sign) (hne : digits ≠ [])
    (hdigits : ∀ c ∈ digits, isDigit c) (rest : List Char) :
    readNumber (sign ++ digits ++ ' ' :: rest) =
      some (.number (sign ++ digits) (xsd "integer"), ' ' :: rest) := by
  have htake : ((sign ++ digits ++ ' ' :: rest).take 1).takeWhile
      (fun c => decide (c = '+') || decide (c = '-')) = sign := by
    simp only [isSign, Bool.or_eq_true, decide_eq_true_eq] at hsign
    rcases hsign with rfl | rfl
    · cases digits with
      | nil => exact absurd rfl hne
      | cons d digits =>
        have hd := toNat_of_isDigit (hdigits d (by simp))
        have hplus : d ≠ '+' := by rintro rfl; exact absurd hd (by decide)
        have hminus : d ≠ '-' := by rintro rfl; exact absurd hd (by decide)
        simp [hplus, hminus]
    · simp
  have hfraction : takeFraction digits (' ' :: rest) = ([], ' ' :: rest) := by simp [takeFraction]
  have hexponent : takeExponent (' ' :: rest) = ([], ' ' :: rest) := by simp [takeExponent]
  have hwhole : (digits ++ ' ' :: rest).takeWhile isDigit = digits := by
    rw [takeWhile_append_of_pos hdigits, takeWhile_cons_of_neg (by decide), append_nil]
  have hdrop : (sign ++ digits ++ ' ' :: rest).drop (sign.length + digits.length) =
      ' ' :: rest := by
    rw [← length_append, drop_left]
  have hdrop' : (sign ++ digits ++ ' ' :: rest).drop sign.length = digits ++ ' ' :: rest := by
    rw [append_assoc, drop_left]
  unfold readNumber
  simp only [htake, hdrop', hwhole, hdrop, hfraction, hexponent]
  simp [hne]

theorem readToken_integer (hsign : isSign sign) (hne : digits ≠ [])
    (hdigits : ∀ c ∈ digits, isDigit c) (rest : List Char) :
    readToken (sign ++ digits ++ ' ' :: rest) =
      some (.number (sign ++ digits) (xsd "integer"), ' ' :: rest) := by
  have hnumber := readNumber_integer hsign hne hdigits rest
  -- the first character is a minus or a digit, and starts no other token
  obtain ⟨c, tail, htext, hc⟩ : ∃ c tail, sign ++ digits ++ ' ' :: rest = c :: tail ∧
      (c = '-' ∨ isDigit c) := by
    simp only [isSign, Bool.or_eq_true, decide_eq_true_eq] at hsign
    rcases hsign with rfl | rfl
    · cases digits with
      | nil => exact absurd rfl hne
      | cons d digits => exact ⟨d, _, rfl, .inr (hdigits d (by simp))⟩
    · exact ⟨'-', _, rfl, .inl rfl⟩
  rw [htext] at hnumber ⊢
  have hrange : c.toNat < 58 ∧ (c.toNat = 45 ∨ 48 ≤ c.toNat) := by
    rcases hc with rfl | hc
    · exact ⟨by decide, .inl (by decide)⟩
    · have := toNat_of_isDigit hc
      omega
  have hother : ∀ d : Char, ¬ (d.toNat < 58 ∧ (d.toNat = 45 ∨ 48 ≤ d.toNat)) → c ≠ d := by
    rintro d hd rfl
    exact hd hrange
  have hmarks : punctuation c = none := by
    simp [punctuation, hother ';' (by decide), hother ',' (by decide), hother '[' (by decide),
      hother ']' (by decide), hother '(' (by decide), hother ')' (by decide)]
  rw [readToken, if_neg (hother '<' (by decide)),
    if_neg (not_or.2 ⟨hother '\x22' (by decide), hother '\x27' (by decide)⟩),
    isPNCharsBase_of_lt (by omega), if_neg (by simp), if_neg (hother ':' (by decide)),
    if_neg (hother '@' (by decide)), if_neg (hother '_' (by decide)), if_neg (hother '^' (by decide)),
    if_neg (fun h => hother '.' (by decide) h.1), hmarks]
  exact hnumber

end Tokens

/-! ## Texts read token by token -/

section Lead

variable {text text' rest : List Char} {tokens tokens' : List Token} {token : Token}

/-- **The text starts with these tokens.** Reading it is reading them and then the rest. -/
structure Lead (text : List Char) (tokens : List Token) (rest : List Char) : Prop where
  length_le : rest.length + tokens.length ≤ text.length
  eq : ∀ n, readTokens (n + 1 + tokens.length) text = (readTokens (n + 1) rest).map (tokens ++ ·)

theorem Lead.refl (text : List Char) : Lead text [] text where
  length_le := Nat.le_refl _
  eq := by
    simp

theorem Lead.trans (h : Lead text tokens text') (h' : Lead text' tokens' rest) :
    Lead text (tokens ++ tokens') rest where
  length_le := by
    have := h.length_le
    have := h'.length_le
    rw [length_append]
    omega
  eq := by
    intro n
    have hn : n + 1 + (tokens ++ tokens').length = n + tokens'.length + 1 + tokens.length := by
      rw [length_append]
      omega
    have hm : n + tokens'.length + 1 = n + 1 + tokens'.length := by omega
    rw [hn, h.eq, hm, h'.eq, Option.map_map]
    congr 1
    funext ts
    simp

/-- A blank or a line end is no token. -/
theorem Lead.space (hc : (c = ' ' || c = '\t' || isLineEnd c)) :
    Lead (c :: text) [] text where
  length_le := by simp
  eq := by
    intro n
    have hskip : skipSpace false (c :: text) = skipSpace false text := by
      rw [skipSpace, if_pos hc]
    simp only [length_nil, Nat.add_zero, nil_append, Option.map_id_fun', id_eq]
    rw [readTokens, readTokens, hskip]

/-- One token, where the text starts with no space and no comment. -/
theorem Lead.one (hstart : skipSpace false text = text) (hlen : rest.length < text.length)
    (h : readToken text = some (token, rest)) : Lead text [token] rest where
  length_le := hlen
  eq := by
    intro n
    cases text with
    | nil => cases h
    | cons c text =>
      rw [length_singleton, readTokens, hstart]
      simp only [h, bind_some]
      rfl

theorem readTokens_mono (hle : n ≤ m) (h : readTokens n text = some tokens) :
    readTokens m text = some tokens := by
  induction n generalizing m text tokens with
  | zero => cases h
  | succ n ih =>
    obtain ⟨k, rfl⟩ : ∃ k, m = k + 1 := ⟨m - 1, by omega⟩
    rw [readTokens] at h ⊢
    split
    · next heq => rwa [heq] at h
    · next heq =>
      rw [heq] at h
      obtain ⟨⟨_, _⟩, htoken, h⟩ := bind_eq_some_iff.1 h
      obtain ⟨_, hts, rfl⟩ := map_eq_some_iff.1 h
      rw [htoken, bind_some, ih (by omega) hts]
      rfl

theorem Lead.readTokens_eq (h : Lead text tokens []) :
    readTokens (text.length + 1) text = some tokens := by
  have hlen := h.length_le
  refine readTokens_mono (n := 0 + 1 + tokens.length) (by simp at hlen; omega) ?_
  rw [h.eq]
  simp [readTokens, skipSpace]

/-- And of one that starts with some. -/
theorem Lead.tokens_of_readTokens (h : Lead text tokens rest)
    (hread : readTokens (text.length + 1) text = some ts) : ∃ ts', ts = tokens ++ ts' := by
  have hlen := h.length_le
  obtain ⟨n, hn⟩ : ∃ n, text.length + 1 = n + 1 + tokens.length :=
    ⟨text.length - tokens.length, by omega⟩
  rw [hn, h.eq] at hread
  obtain ⟨ts', -, rfl⟩ := map_eq_some_iff.1 hread
  exact ⟨ts', rfl⟩

end Lead

/-! ## The machine on a document without brackets -/

section Writing

variable (resolve : List Char → List Char → List Char) {labels : List (List Char × List Char)}
  {out : List (Statement Char)} {token : Token} {s p : Term Char}

/-- The machine at a place that no bracket and no base encloses. -/
def writing (labels : List (List Char × List Char)) (out : List (Statement Char)) (goal : Goal) :
    Machine :=
  { labels, out, goal }

/-- The IRI a token stands for where no base is declared. -/
def tokenIRI (labels : List (List Char × List Char)) : Token → Option (List Char)
  | .iriref value => some value
  | .pname label name => (labels.lookup label).map (· ++ name)
  | _ => none

theorem writing_iri (goal : Goal) :
    (writing labels out goal).iri resolve token = (tokenIRI labels token).map .iri := by
  cases token with
  | pname label name =>
    simp only [iri, tokenIRI, writing, Option.map_map]
    rfl
  | _ => rfl

theorem run_directive (label namespace_ : List Char) :
    run (step resolve) (writing labels out .statement)
        [.atPrefix, .pname label [], .iriref namespace_, .dot] =
      some (writing ((label, namespace_) :: labels) out .statement) := rfl

variable {iri : List Char}

/-- A token for an IRI is one of two kinds. -/
theorem kind_of_tokenIRI (h : tokenIRI labels token = some iri) :
    (∃ value, token = .iriref value) ∨ ∃ label name, token = .pname label name := by
  cases token with
  | iriref value => exact .inl ⟨value, rfl⟩
  | pname label name => exact .inr ⟨label, name, rfl⟩
  | _ => cases h

/-- Where a token for an IRI makes the machine go on with the IRI. -/
theorem step_of_iri {goal : Goal} (next : Term Char → Machine)
    (hiriref : ∀ value, step resolve (writing labels out goal) (.iriref value) =
      ((writing labels out goal).iri resolve (.iriref value)).map next)
    (hpname : ∀ label name, step resolve (writing labels out goal) (.pname label name) =
      ((writing labels out goal).iri resolve (.pname label name)).map next)
    (h : tokenIRI labels token = some iri) :
    step resolve (writing labels out goal) token = some (next (.iri iri)) := by
  have hiri := @writing_iri resolve labels out token goal
  rw [h] at hiri
  rcases kind_of_tokenIRI h with ⟨value, rfl⟩ | ⟨label, name, rfl⟩
  · rw [hiriref, hiri]
    rfl
  · rw [hpname, hiri]
    rfl

theorem step_subject (h : tokenIRI labels token = some iri) :
    step resolve (writing labels out .statement) token =
      some (writing labels out (.verb (.iri iri) false)) :=
  step_of_iri resolve (fun t => writing labels out (.verb t false)) (fun _ => rfl) (fun _ _ => rfl) h

theorem step_verb (h : tokenIRI labels token = some iri) :
    step resolve (writing labels out (.verb s listed)) token =
      some (writing labels out (.object s (.iri iri))) :=
  step_of_iri resolve (fun t => writing labels out (.object s t)) (fun _ => rfl) (fun _ _ => rfl) h

theorem step_object (h : tokenIRI labels token = some iri) :
    step resolve (writing labels out (.object s p)) token =
      some (writing labels (⟨s, p, .iri iri⟩ :: out) (.afterObject s p)) :=
  step_of_iri resolve (fun t => writing labels (⟨s, p, t⟩ :: out) (.afterObject s p))
    (fun _ => rfl) (fun _ _ => rfl) h

theorem step_datatype (h : tokenIRI labels token = some iri) :
    Machine.step resolve (writing labels out (.datatype lexical (.object s p))) token =
      some (writing labels (⟨s, p, .literal lexical iri []⟩ :: out) (.afterObject s p)) := by
  have hiri := @writing_iri resolve labels out token (.datatype lexical (.object s p))
  rw [h] at hiri
  simp only [step, stepSettled]
  rw [hiri]
  rfl

/-- The tokens of an object, and the term they stand for. -/
inductive ObjectTokens (labels : List (List Char × List Char)) : List Token → Term Char → Prop
  | iri {token : Token} {value : List Char} (h : tokenIRI labels token = some value) :
    ObjectTokens labels [token] (.iri value)
  | plain (value : List Char) : ObjectTokens labels [.string value] (.literal value xsdString [])
  | typed (value : List Char) {token : Token} {datatype : List Char}
    (h : tokenIRI labels token = some datatype) :
    ObjectTokens labels [.string value, .datatypeMark, token] (.literal value datatype [])
  | number (lexical datatype : List Char) :
    ObjectTokens labels [.number lexical datatype] (.literal lexical datatype [])
  | boolean (b : Bool) : ObjectTokens labels [.boolean b]
      (.literal (if b then "true" else "false").toList (xsd "boolean") [])

/-- An object is complete at the next mark. -/
theorem run_object {tokens : List Token} (h : ObjectTokens labels tokens t) :
    run (step resolve) (writing labels out (.object s p)) (tokens ++ [.semicolon]) =
        some (writing labels (⟨s, p, t⟩ :: out) (.verb s true)) ∧
      run (step resolve) (writing labels out (.object s p)) (tokens ++ [.dot]) =
        some (writing labels (⟨s, p, t⟩ :: out) .statement) := by
  cases h with
  | iri h => simp only [singleton_append, run_cons, step_object resolve h]; exact ⟨rfl, rfl⟩
  | plain value => exact ⟨rfl, rfl⟩
  | typed value h =>
    have hmark : ∀ rest, run (step resolve) (writing labels out (.object s p))
        (.string value :: .datatypeMark :: rest) =
        run (step resolve) (writing labels out (.datatype value (.object s p))) rest :=
      fun _ => rfl
    simp only [cons_append, nil_append, hmark, run_cons, step_datatype resolve h]
    exact ⟨rfl, rfl⟩
  | number | boolean => exact ⟨rfl, rfl⟩

/-- A list of verbs with one object each. -/
def listTokens : List (Token × List Token) → List Token
  | [] => []
  | [(verb, object)] => verb :: (object ++ [.dot])
  | (verb, object) :: next :: rest => verb :: (object ++ [.semicolon]) ++ listTokens (next :: rest)

/-- **A group of statements about one subject.** -/
theorem run_list {α : Type*} (pair : α → Token × List Token) (verb : α → List Char)
    (object : α → Term Char) {items : List α} (hne : items ≠ [])
    (hverb : ∀ x ∈ items, tokenIRI labels (pair x).1 = some (verb x))
    (hobject : ∀ x ∈ items, ObjectTokens labels (pair x).2 (object x)) {listed : Bool} :
    run (step resolve) (writing labels out (.verb s listed))
        (listTokens (items.map pair)) =
      some (writing labels
        ((items.map fun x => (⟨s, .iri (verb x), object x⟩ : Statement Char)).reverse ++ out)
        .statement) := by
  induction items generalizing out listed with
  | nil => exact absurd rfl hne
  | cons x items ih =>
    have hx := hverb x (by simp)
    have ho := @run_object resolve labels out s (.iri (verb x)) _ _ (hobject x (by simp))
    cases items with
    | nil =>
      simp [listTokens, run_cons, step_verb resolve hx, ho.2]
    | cons y items =>
      have hrest := @ih (⟨s, .iri (verb x), object x⟩ :: out) (by simp)
        (fun z hz => hverb z (by simp [hz])) (fun z hz => hobject z (by simp [hz])) true
      simp only [map_cons, listTokens, cons_append, run_cons, step_verb resolve hx,
        bind_some] at hrest ⊢
      rw [run_append, ho.1, bind_some]
      simpa using hrest

end Writing

/-! ## What is begun is stated -/

variable {resolve : List Char → List Char → List Char} {m m' : Machine} {token : Token}
  {t : Term Char} {hole : Hole} {Q : Statement Char → Prop}

/-- Some statement of the kind was read. -/
def Said (Q : Statement Char → Prop) (out : List (Statement Char)) : Prop := ∃ st ∈ out, Q st

/-- Whatever term comes here, it makes a statement of the kind. -/
def Hole.Makes (Q : Statement Char → Prop) : Hole → Prop
  | .object s p => ∀ t, Q ⟨s, p, t⟩
  | _ => False

/-- The machine waits for a term at such a place. -/
def Goal.Makes (Q : Statement Char → Prop) : Goal → Prop
  | .object s p => ∀ t, Q ⟨s, p, t⟩
  | .suffix _ hole | .datatype _ hole => hole.Makes Q
  | _ => False

/-- **A statement of the kind was read, or will be.** -/
def Pending (Q : Statement Char → Prop) (m : Machine) : Prop :=
  Said Q m.out ∨ m.goal.Makes Q ∨ ∃ hole ∈ m.stack, hole.Makes Q

variable {out : List (Statement Char)}

theorem Said.cons (h : Said Q out) (st : Statement Char) : Said Q (st :: out) := by
  obtain ⟨st', hst, hQ⟩ := h
  exact ⟨st', by simp [hst], hQ⟩

theorem pending_fill (h : Said Q m.out ∨ hole.Makes Q ∨ ∃ hole ∈ m.stack, hole.Makes Q) :
    Pending Q (m.fill t hole) := by
  cases hole with
  | subject => exact h.imp id fun h => .inr (h.resolve_left id)
  | object s p =>
    rcases h with h | h | h
    · exact .inl (h.cons _)
    · exact .inl ⟨⟨s, p, t⟩, by simp [fill], h t⟩
    · exact .inr (.inr h)
  | item nodes =>
    rcases h with h | h | h
    · cases nodes with
      | none => exact .inl (h.cons _)
      | some nodes => exact .inl ((h.cons _).cons _)
    · exact absurd h id
    · cases nodes <;> exact .inr (.inr h)

theorem pending_place (h : Said Q m.out ∨ hole.Makes Q ∨ ∃ hole ∈ m.stack, hole.Makes Q)
    (hplace : m.place resolve hole token = some m') : Pending Q m' := by
  have hopen : ∀ {m' : Machine}, m'.out = m.out → m'.stack = hole :: m.stack → Pending Q m' := by
    intro m' hout hstack
    rcases h with h | h | ⟨hole', hmem, h⟩
    · exact .inl (hout ▸ h)
    · exact .inr (.inr ⟨hole, by simp [hstack], h⟩)
    · exact .inr (.inr ⟨hole', by simp [hstack, hmem], h⟩)
  unfold Machine.place at hplace
  split at hplace
  iterate 2
    · obtain ⟨t, -, rfl⟩ := map_eq_some_iff.1 hplace
      exact pending_fill h
  · cases hplace
    exact pending_fill h
  iterate 2
    · cases hplace
      exact hopen rfl rfl
  · split at hplace <;> cases hplace
    exact h
  iterate 2
    · split at hplace <;> cases hplace
      exact pending_fill h
  · cases hplace

theorem pending_closeBracket (h : Said Q m.out ∨ ∃ hole ∈ m.stack, hole.Makes Q)
    (hclose : m.closeBracket t listed = some m') : Pending Q m' := by
  unfold closeBracket at hclose
  split at hclose
  · cases hclose
  · next stack hstack =>
    cases hclose
    rw [hstack] at h
    exact h.imp id fun h => .inr ((exists_mem_cons_iff _ _ _ |>.1 h).resolve_left id)
  · next hole stack _ hstack =>
    cases hclose
    rw [hstack, exists_mem_cons_iff] at h
    exact pending_fill h

/-- Where the machine waits for something else, nothing is lost. -/
theorem pending_stepSettled (h : Pending Q m)
    (hstep : m.stepSettled resolve token = some m') : Pending Q m' := by
  have hkeep : ∀ {m' : Machine}, ¬ m.goal.Makes Q → m'.out = m.out → m'.stack = m.stack →
      Pending Q m' := by
    intro m' hwaits hout hstack
    rcases h with h | h | h
    · exact .inl (hout ▸ h)
    · exact absurd h hwaits
    · exact .inr (.inr (hstack ▸ h))
  have helsewhere : ¬ m.goal.Makes Q → Said Q m.out ∨ ∃ hole ∈ m.stack, hole.Makes Q :=
    fun hwaits => h.imp id fun h => h.resolve_left hwaits
  have hfinish : ¬ m.goal.Makes Q → m.finish = some m' → Pending Q m' := by
    intro hwaits hfinish
    unfold finish at hfinish
    split at hfinish <;> cases hfinish
    exact hkeep hwaits rfl rfl
  unfold stepSettled at hstep
  split at hstep
  · next hgoal =>
    have hwaits : ¬ m.goal.Makes Q := by simp [hgoal, Goal.Makes]
    split at hstep
    iterate 4
      · cases hstep
        exact hkeep hwaits rfl rfl
    · exact pending_place ((helsewhere hwaits).imp id .inr) hstep
  iterate 4
    · next hgoal =>
      split at hstep <;> cases hstep
      exact hkeep (by simp [hgoal, Goal.Makes]) rfl rfl
  · next s' _ hgoal =>
    have hwaits : ¬ m.goal.Makes Q := by simp [hgoal, Goal.Makes]
    split at hstep
    · cases hstep
      exact hkeep hwaits rfl rfl
    · split at hstep <;> cases hstep
      exact h
    · split at hstep
      · exact hfinish hwaits hstep
      · cases hstep
    · exact pending_closeBracket (helsewhere hwaits) hstep
    · obtain ⟨t, -, rfl⟩ := map_eq_some_iff.1 hstep
      exact hkeep hwaits rfl rfl
  · next s' p' hgoal =>
    rw [Pending, hgoal] at h
    exact pending_place h hstep
  · next s' p' hgoal =>
    have hwaits : ¬ m.goal.Makes Q := by simp [hgoal, Goal.Makes]
    split at hstep
    iterate 2
      · cases hstep
        exact hkeep hwaits rfl rfl
    · exact hfinish hwaits hstep
    · exact pending_closeBracket (helsewhere hwaits) hstep
    · cases hstep
  · next _ hole hgoal =>
    split at hstep <;> cases hstep
    rw [Pending, hgoal] at h
    exact pending_fill h
  · next _ hgoal =>
    have hwaits : ¬ m.goal.Makes Q := by simp [hgoal, Goal.Makes]
    split at hstep
    · have h := helsewhere hwaits
      unfold closeParen at hstep
      split at hstep
      · cases hstep
      next hole stack hstack =>
      rw [hstack, exists_mem_cons_iff] at h
      split at hstep <;> cases hstep
      · exact pending_fill h
      · exact pending_fill (h.imp (fun h => h.cons _) id)
    · exact pending_place ((helsewhere hwaits).imp id .inr) hstep
  · cases hstep

theorem pending_step (h : Pending Q m) (hstep : m.step resolve token = some m') : Pending Q m' := by
  unfold step at hstep
  split at hstep
  · next _ _ hgoal =>
    rw [Pending, hgoal] at h
    split at hstep
    · cases hstep
      exact h
    · cases hstep
      exact pending_fill h
    · exact pending_stepSettled (pending_fill h) hstep
  · exact pending_stepSettled h hstep

variable {tokens : List Token}

/-- **What the machine has begun, a document that is accepted states.** -/
theorem said_of_run (h : Pending Q m) (hrun : run (step resolve) m tokens = some m')
    (hgoal : m'.goal = .statement) (hstack : m'.stack = []) : Said Q m'.out := by
  have hpending : Pending Q m' :=
    run_invariant (I := Pending Q) (fun _ _ _ h hstep => pending_step h hstep) h hrun
  rw [Pending, hgoal, hstack] at hpending
  rcases hpending with h | h | ⟨_, hmem, -⟩
  · exact h
  · exact absurd h id
  · exact absurd hmem not_mem_nil

/-- A subject that has no verb yet gets one, and an object. -/
theorem said_of_run_verb {labels : List (List Char × List Char)} {s : Term Char}
    (hrun : run (step resolve) (writing labels out (.verb s false)) tokens = some m')
    (hgoal : m'.goal = .statement) (hstack : m'.stack = []) :
    Said (fun st => st.subject = s) m'.out := by
  cases tokens with
  | nil =>
    rw [run_nil, Option.some.injEq] at hrun
    rw [← hrun] at hgoal
    exact nomatch hgoal
  | cons token tokens =>
    obtain ⟨m, hstep, hrest⟩ := run_cons_eq_some.1 hrun
    obtain ⟨p, hm⟩ : ∃ p, m.goal = .object s p := by
      have hstep : (writing labels out (.verb s false)).stepSettled resolve token = some m := hstep
      unfold stepSettled at hstep
      dsimp only [writing] at hstep
      split at hstep
      · cases hstep
        exact ⟨_, rfl⟩
      · cases hstep
      · cases hstep
      · cases hstep
      · obtain ⟨p, -, rfl⟩ := map_eq_some_iff.1 hstep
        exact ⟨p, rfl⟩
    refine said_of_run (.inr (.inl ?_)) hrest hgoal hstack
    rw [hm]
    exact fun _ => rfl

end SemStreams.Rdf
