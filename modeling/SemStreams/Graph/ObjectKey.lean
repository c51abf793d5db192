import SemStreams.Graph.TripleIdentity
import Mathlib.Data.List.Lex
import Mathlib.Data.List.Sort
/-!
# Graph — the identity of a triple in memory

A triple read from the store holds valid texts and decoded objects. A triple in
memory may hold any bytes in its fields, and an object that JSON changes: an
integer comes back as a float, an invalid byte as the replacement character.

Texts are byte lists here. `marshal` is Go's JSON encoder and `persist` is what
the decoder makes of its output; the floats and their texts are a parameter.
-/

namespace SemStreams.Graph

open List

/-! ## Texts as bytes -/

/-- What Go reads at the front of a text: a character, or a byte that starts none. -/
inductive Rune
  | valid (c : Char)
  | invalid (byte : UInt8)
deriving DecidableEq

/-- A text read with `utf8.DecodeRune`, at most `fuel` runes of it. -/
def readRunes : ℕ → List UInt8 → List Rune
  | 0, _ => []
  | _ + 1, [] => []
  | fuel + 1, byte :: rest =>
    match (byte :: rest).toByteArray.utf8DecodeChar? 0 with
    | some c => .valid c :: readRunes fuel ((byte :: rest).drop c.utf8Size)
    | none => .invalid byte :: readRunes fuel rest

def runes (bytes : List UInt8) : List Rune := readRunes bytes.length bytes

/-- The encoder writes an invalid byte as an escape, and the replacement character
as it is. -/
def Rune.escape : Rune → List Char
  | .valid c => jsonEscape c
  | .invalid _ => ['\\', 'u', 'f', 'f', 'f', 'd']

def Rune.char : Rune → Char
  | .valid c => c
  | .invalid _ => Char.ofNat 0xFFFD

/-- The text the decoder reads back. -/
def coerced (bytes : List UInt8) : List UInt8 := utf8Bytes ((runes bytes).map Rune.char)

def ValidText (bytes : List UInt8) : Prop := ∀ r ∈ runes bytes, ∀ byte, r ≠ .invalid byte

variable (text : List Char)

theorem readRunes_utf8Bytes (fuel : ℕ) (h : (utf8Bytes text).length ≤ fuel) :
    readRunes fuel (utf8Bytes text) = text.map Rune.valid := by
  induction text generalizing fuel with
  | nil => cases fuel <;> rfl
  | cons c text ih =>
    have hsplit : utf8Bytes (c :: text) = String.utf8EncodeChar c ++ utf8Bytes text := rfl
    have hread : (utf8Bytes (c :: text)).toByteArray.utf8DecodeChar? 0 = some c :=
      List.utf8DecodeChar?_utf8Encode_cons
    have hdrop : (utf8Bytes (c :: text)).drop c.utf8Size = utf8Bytes text := by
      rw [hsplit, ← String.length_utf8EncodeChar, drop_left]
    have hlength : (utf8Bytes (c :: text)).length = c.utf8Size + (utf8Bytes text).length := by
      rw [hsplit, length_append, String.length_utf8EncodeChar]
    have hpos := c.utf8Size_pos
    cases fuel with
    | zero => omega
    | succ fuel =>
      cases hbytes : utf8Bytes (c :: text) with
      | nil => rw [hbytes, length_nil] at hlength; omega
      | cons byte rest =>
        rw [hbytes] at hread hdrop
        rw [readRunes, hread]
        simp only [hdrop, map_cons]
        rw [ih fuel (by omega)]

theorem runes_utf8Bytes : runes (utf8Bytes text) = text.map Rune.valid :=
  readRunes_utf8Bytes text _ le_rfl

variable (bytes : List UInt8)

theorem runes_coerced : runes (coerced bytes) = (runes bytes).map fun r => .valid r.char := by
  rw [coerced, runes_utf8Bytes, List.map_map]
  rfl

@[simp] theorem coerced_coerced : coerced (coerced bytes) = coerced bytes := by
  rw [coerced, runes_coerced, List.map_map]
  rfl

/-! ## Maps in key order -/

def rank (key : List UInt8) : List ℕ := key.map UInt8.toNat

section Store

variable {α : Type*}

/-- A decoded map, kept in key order: a repeated key keeps its last value. -/
def store (key : List UInt8) (value : α) : List (List UInt8 × α) → List (List UInt8 × α)
  | [] => [(key, value)]
  | (k, a) :: rest =>
    if rank key < rank k then (key, value) :: (k, a) :: rest
    else if rank k < rank key then (k, a) :: store key value rest
    else (key, value) :: rest

def InOrder (entries : List (List UInt8 × α)) : Prop :=
  entries.Pairwise fun e f => rank e.1 < rank f.1

/-- The decoder's map of the entries the encoder wrote. -/
def stored (entries : List (List UInt8 × α)) : List (List UInt8 × α) :=
  (entries.insertionSort fun e f => rank e.1 ≤ rank f.1).foldl
    (fun m e => store (coerced e.1) e.2 m) []

variable {key : List UInt8} {value : α} {entries : List (List UInt8 × α)} {e : List UInt8 × α}

theorem mem_store (h : e ∈ store key value entries) : e = (key, value) ∨ e ∈ entries := by
  induction entries with
  | nil => exact .inl (mem_singleton.1 h)
  | cons f rest ih =>
    unfold store at h
    split at h
    · exact mem_cons.1 h
    split at h
    · rcases mem_cons.1 h with rfl | h
      · exact .inr mem_cons_self
      · exact (ih h).imp_right (mem_cons_of_mem _)
    · exact (mem_cons.1 h).imp_right (mem_cons_of_mem _)

theorem inOrder_store (h : InOrder entries) : InOrder (store key value entries) := by
  induction entries with
  | nil => exact pairwise_singleton _ _
  | cons f rest ih =>
    obtain ⟨hf, hrest⟩ := pairwise_cons.1 h
    unfold store
    split
    case isTrue hlt =>
      refine pairwise_cons.2 ⟨fun e he => ?_, h⟩
      rcases mem_cons.1 he with rfl | he
      · exact hlt
      · exact hlt.trans (hf e he)
    case isFalse hge =>
      split
      case isTrue hgt =>
        refine pairwise_cons.2 ⟨fun e he => ?_, ih hrest⟩
        rcases mem_store he with rfl | he
        · exact hgt
        · exact hf e he
      case isFalse hle =>
        have heq : rank key = rank f.1 := le_antisymm (not_lt.1 hle) (not_lt.1 hge)
        exact pairwise_cons.2 ⟨fun e he => heq ▸ hf e he, hrest⟩

theorem store_last (h : ∀ e ∈ entries, rank e.1 < rank key) :
    store key value entries = entries ++ [(key, value)] := by
  induction entries with
  | nil => rfl
  | cons f rest ih =>
    have hf := h f mem_cons_self
    rw [store, if_neg hf.asymm, if_pos hf, ih fun e he => h e (mem_cons_of_mem _ he)]
    rfl

/-- What a decoder's loop keeps of every entry it stores. -/
theorem foldl_store_induction {P : List (List UInt8 × α) → Prop} (written : List (List UInt8 × α))
    (hnil : P []) (hstore : ∀ m, P m → ∀ e ∈ written, P (store (coerced e.1) e.2 m)) :
    P (written.foldl (fun m e => store (coerced e.1) e.2 m) []) := by
  suffices ∀ rest m, rest ⊆ written → P m →
      P (rest.foldl (fun m e => store (coerced e.1) e.2 m) m) from
    this written [] (List.Subset.refl _) hnil
  intro rest
  induction rest with
  | nil => exact fun m _ hm => hm
  | cons e rest ih =>
    intro m hsub hm
    obtain ⟨he, hrest⟩ := cons_subset.1 hsub
    exact ih _ hrest (hstore m hm e he)

theorem inOrder_stored : InOrder (stored entries) :=
  foldl_store_induction _ List.Pairwise.nil fun _ hm _ _ => inOrder_store hm

theorem mem_stored (h : e ∈ stored entries) : ∃ f ∈ entries, e = (coerced f.1, f.2) := by
  refine foldl_store_induction (P := fun m => ∀ e ∈ m, ∃ f ∈ entries, e = (coerced f.1, f.2))
    _ nofun (fun m hm f hf e he => ?_) e h
  rcases mem_store he with rfl | he
  · exact ⟨f, (mem_insertionSort _).1 hf, rfl⟩
  · exact hm e he

/-- **A decoded map is stored as it is.** -/
theorem stored_of_inOrder (horder : InOrder entries) (hkeys : ∀ e ∈ entries, coerced e.1 = e.1) :
    stored entries = entries := by
  have hsorted : entries.insertionSort (fun e f => rank e.1 ≤ rank f.1) = entries :=
    (horder.imp le_of_lt).insertionSort_eq
  suffices ∀ rest m, InOrder (m ++ rest) → (∀ e ∈ rest, coerced e.1 = e.1) →
      rest.foldl (fun m e => store (coerced e.1) e.2 m) m = m ++ rest by
    rw [stored, hsorted]
    exact this entries [] horder hkeys
  intro rest
  induction rest with
  | nil => exact fun m _ _ => (append_nil m).symm
  | cons e rest ih =>
    intro m hm hkeys
    have hbefore : ∀ f ∈ m, rank f.1 < rank e.1 := fun f hf =>
      (pairwise_append.1 hm).2.2 f hf e mem_cons_self
    rw [foldl_cons, hkeys e mem_cons_self, store_last hbefore]
    rw [ih _ (by rwa [append_assoc]) fun f hf => hkeys f (mem_cons_of_mem _ hf)]
    exact append_assoc m [e] rest

end Store

/-! ## Objects -/

/-- A JSON value in memory. `number` is a float; a Go map is the list of its entries. -/
inductive Value (N : Type)
  | null
  | bool (b : Bool)
  | string (bytes : List UInt8)
  | int (n : ℤ)
  | number (x : N)
  | list (items : List (Value N))
  | map (entries : List (List UInt8 × Value N))

/-- The floats: the one nearest to an integer, and the text of one. -/
structure Floats (N : Type) where
  ofInt : ℤ → N
  format : N → List Char

section Json

variable {N : Type} (floats : Floats N)

mutual

/-- `json.Unmarshal` into an untyped value, of the encoding of a value. -/
def persist : Value N → Value N
  | .null => .null
  | .bool b => .bool b
  | .string bytes => .string (coerced bytes)
  | .int n => .number (floats.ofInt n)
  | .number x => .number x
  | .list items => .list (persistItems items)
  | .map entries => .map (stored (persistEntries entries))

def persistItems : List (Value N) → List (Value N)
  | [] => []
  | v :: items => persist v :: persistItems items

def persistEntries : List (List UInt8 × Value N) → List (List UInt8 × Value N)
  | [] => []
  | (key, v) :: entries => (key, persist v) :: persistEntries entries

end

def marshalText (bytes : List UInt8) : List Char := '"' :: (runes bytes).flatMap Rune.escape ++ ['"']

mutual

/-- `json.Marshal`. -/
def marshal : Value N → List Char
  | .null => ['n', 'u', 'l', 'l']
  | .bool true => ['t', 'r', 'u', 'e']
  | .bool false => ['f', 'a', 'l', 's', 'e']
  | .string bytes => marshalText bytes
  | .int n => (toString n).toList
  | .number x => floats.format x
  | .list items => '[' :: [','].intercalate (marshalItems items) ++ [']']
  | .map entries =>
    let written := (marshalEntries entries).insertionSort fun e f => rank e.1 ≤ rank f.1
    Char.ofNat 0x7B :: [','].intercalate (written.map fun e => marshalText e.1 ++ ':' :: e.2) ++
      [Char.ofNat 0x7D]

def marshalItems : List (Value N) → List (List Char)
  | [] => []
  | v :: items => marshal v :: marshalItems items

def marshalEntries : List (List UInt8 × Value N) → List (List UInt8 × List Char)
  | [] => []
  | (key, v) :: entries => (key, marshal v) :: marshalEntries entries

end

def roundTripIsIdentity : Value N → Bool
  | .null | .bool _ | .string _ => true
  | _ => false

/-- `canonicalObjectKey` on a value that can be encoded. -/
def objectKey (object : Value N) : List Char :=
  if roundTripIsIdentity object then marshal floats object else marshal floats (persist floats object)

theorem persistEntries_of_fixed
    (h : ∀ e ∈ entries, persist floats e.2 = e.2) : persistEntries floats entries = entries := by
  induction entries with
  | nil => rfl
  | cons e entries ih =>
    rw [persistEntries, h e mem_cons_self, ih fun f hf => h f (mem_cons_of_mem _ hf)]

mutual

/-- **A persisted value stays as it is.** -/
theorem persist_persist : ∀ v : Value N, persist floats (persist floats v) = persist floats v
  | .null => rfl
  | .bool _ => rfl
  | .string bytes => congrArg Value.string (coerced_coerced bytes)
  | .int _ => rfl
  | .number _ => rfl
  | .list items => congrArg Value.list (persistItems_persist items)
  | .map entries => by
    -- the stored entries are in order, with valid keys and persisted values
    have hfixed : persistEntries floats (stored (persistEntries floats entries)) =
        stored (persistEntries floats entries) := by
      refine persistEntries_of_fixed floats fun e he => ?_
      obtain ⟨f, hf, rfl⟩ := mem_stored he
      exact persistEntries_persist entries f hf
    have hkeys : ∀ e ∈ stored (persistEntries floats entries), coerced e.1 = e.1 := by
      intro e he
      obtain ⟨f, -, rfl⟩ := mem_stored he
      exact coerced_coerced f.1
    simp only [persist]
    rw [hfixed, stored_of_inOrder inOrder_stored hkeys]

theorem persistItems_persist : ∀ items : List (Value N),
    persistItems floats (persistItems floats items) = persistItems floats items
  | [] => rfl
  | v :: items => by
    rw [persistItems, persistItems, persist_persist v, persistItems_persist items]

theorem persistEntries_persist : ∀ (entries : List (List UInt8 × Value N)),
    ∀ e ∈ persistEntries floats entries, persist floats e.2 = e.2
  | [] => nofun
  | (key, v) :: entries => fun e he => by
    rcases mem_cons.1 he with rfl | he
    · exact persist_persist v
    · exact persistEntries_persist entries e he

end

theorem roundTripIsIdentity_persist (v : Value N) :
    roundTripIsIdentity (persist floats v) = roundTripIsIdentity v := by
  cases v <;> rfl

/-- The encoder writes a backslash for an invalid byte, where the text that is read
back has the replacement character itself. -/
theorem flatMap_escape_eq_iff {rs : List Rune} :
    rs.flatMap Rune.escape = (rs.map fun r => Rune.valid r.char).flatMap Rune.escape ↔
      ∀ r ∈ rs, ∀ byte, r ≠ .invalid byte := by
  induction rs with
  | nil => exact ⟨fun _ r hr => (not_mem_nil hr).elim, fun _ => rfl⟩
  | cons r rs ih =>
    rw [map_cons, flatMap_cons, flatMap_cons, forall_mem_cons]
    cases r with
    | valid c =>
      change jsonEscape c ++ _ = jsonEscape c ++ _ ↔ _
      rw [append_cancel_left_eq, ih]
      exact (and_iff_right nofun).symm
    | invalid byte =>
      have hraw : jsonEscape (Char.ofNat 0xFFFD) = [Char.ofNat 0xFFFD] := by decide +kernel
      refine ⟨fun h => ?_, fun h => absurd rfl (h.1 byte)⟩
      change '\\' :: _ = jsonEscape (Char.ofNat 0xFFFD) ++ _ at h
      exact absurd (List.cons.inj h).1 (by decide +kernel)

theorem marshalText_coerced {bytes : List UInt8} :
    marshalText bytes = marshalText (coerced bytes) ↔ ValidText bytes := by
  rw [marshalText, marshalText, runes_coerced, ValidText, ← flatMap_escape_eq_iff]
  constructor
  · exact fun h => append_cancel_right (List.cons.inj h).2
  · exact fun h => by rw [h]

/-- **A value keys as its persisted form, unless it is a text with an invalid byte.**
Inside a list or a map such a text does no harm: there the key is made of the
persisted form. -/
theorem objectKey_persist_iff (v : Value N) :
    objectKey floats v = objectKey floats (persist floats v) ↔
      ∀ bytes, v = .string bytes → ValidText bytes := by
  cases v with
  | string bytes =>
    change marshalText bytes = marshalText (coerced bytes) ↔ _
    rw [marshalText_coerced]
    exact ⟨fun h _ hb => Value.string.inj hb ▸ h, fun h => h bytes rfl⟩
  | _ =>
    refine iff_of_true ?_ nofun
    unfold objectKey
    rw [roundTripIsIdentity_persist, persist_persist]
    rfl

/-- A lone `0xFF` is encoded as an escape; the text read back is the replacement
character, which is encoded as itself. -/
theorem objectKey_changes : ∃ (floats : Floats ℤ) (v : Value ℤ),
    objectKey floats v = ['"', '\\', 'u', 'f', 'f', 'f', 'd', '"'] ∧
      objectKey floats (persist floats v) = ['"', Char.ofNat 0xFFFD, '"'] :=
  ⟨⟨id, fun _ => []⟩, .string [0xFF], by decide +kernel, by decide +kernel⟩

end Json

/-! ## The key of a triple -/

/-- `Triple.Object`: a value, or one that `json.Marshal` refuses, with its `%#v`. -/
inductive AnyObject (N : Type)
  | value (v : Value N)
  | refused (printed : List Char)

/-- `canonicalObjectKey`. -/
def AnyObject.key {N : Type} (floats : Floats N) : AnyObject N → List Char
  | .value v => objectKey floats v
  | .refused printed => '!' :: printed

/-- `writeIdentityField` on bytes. -/
def byteField (field : List UInt8) : List UInt8 :=
  utf8Bytes (Nat.toDigits 10 field.length) ++ 0 :: field

/-- The fields of a `message.Triple` that its identity reads, with any bytes in them. -/
structure Tuple (N : Type) where
  subject : List UInt8
  predicate : List UInt8
  datatype : List UInt8
  source : List UInt8
  context : List UInt8
  object : AnyObject N

/-- The fields in the order of the key. -/
def byteKey (fields : List (List UInt8)) : List UInt8 := fields.flatMap byteField

/-- `AppendIdentityKey`. -/
def Tuple.key {N : Type} (floats : Floats N) (t : Tuple N) : List UInt8 :=
  byteKey [t.subject, t.predicate, t.datatype, t.source, t.context,
    utf8Bytes (t.object.key floats)]

theorem utf8Bytes_injective : Function.Injective utf8Bytes := by
  intro a b h
  have hvalid : a.map Rune.valid = b.map Rune.valid := by
    rw [← runes_utf8Bytes, ← runes_utf8Bytes, h]
  exact map_injective_iff.2 (fun _ _ hc => Rune.valid.inj hc) hvalid

theorem byteField_append (h : byteField a ++ x = byteField b ++ y) :
    a = b ∧ x = y := by
  have hnul : ∀ n, (0 : UInt8) ∉ utf8Bytes (Nat.toDigits 10 n) := by
    intro n hmem
    obtain ⟨c, hc, hbyte⟩ := mem_flatMap.1 hmem
    have hdigit := Nat.isDigit_of_mem_toDigits (by omega) (by omega) hc
    have hrange : 48 ≤ c.toNat ∧ c.toNat ≤ 57 := by
      simpa [Char.isDigit, UInt32.le_iff_toNat_le] using hdigit
    have hascii : c.toNat ≤ 127 := by omega
    have hzero : 0 = c.toNat % 256 := by
      simpa [String.utf8EncodeChar, hascii, ← UInt8.toNat_inj] using hbyte
    omega
  unfold byteField at h
  rw [append_assoc, append_assoc, cons_append, cons_append] at h
  obtain ⟨hdigits, hrest⟩ := append_cons_split (hnul _) (hnul _) h
  refine append_inj hrest ?_
  have hread := congrArg (fun ds => Nat.ofDigitChars 10 ds 0) (utf8Bytes_injective hdigits)
  simpa [Nat.ofDigitChars_toDigits] using hread

/-- **The key is uniquely readable**, whatever bytes stand in the fields. -/
theorem byteKey_injective (hlength : xs.length = ys.length) :
    byteKey xs = byteKey ys ↔ xs = ys := by
  refine ⟨fun h => ?_, congrArg byteKey⟩
  induction xs generalizing ys with
  | nil => exact (length_eq_zero_iff.1 hlength.symm).symm
  | cons x xs ih =>
    cases ys with
    | nil => exact absurd hlength (Nat.succ_ne_zero _)
    | cons y ys =>
      obtain ⟨rfl, hrest⟩ := byteField_append h
      rw [ih (Nat.succ.inj hlength) hrest]

/-- **Two triples have one key exactly if they agree in the five fields and in the
key of the object.** -/
theorem key_eq_iff {N : Type} (floats : Floats N) (t u : Tuple N) : t.key floats = u.key floats ↔
      t.subject = u.subject ∧ t.predicate = u.predicate ∧ t.datatype = u.datatype ∧
        t.source = u.source ∧ t.context = u.context ∧
          t.object.key floats = u.object.key floats := by
  unfold Tuple.key
  rw [byteKey_injective (by rfl)]
  simp [List.cons.injEq, utf8Bytes_injective.eq_iff]

end SemStreams.Graph
