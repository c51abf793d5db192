import SemStreams.Lib.Hex
import SemStreams.Lib.KeepNew
import SemStreams.Graph.Contract
/-!
# Graph — the identity of an appended triple

The append lane keeps several values under one predicate but no assertion
twice. Two triples are the same assertion if their identity keys are equal: the
five string fields and the object's encoding, each with its length in front.
Time, confidence and expiry are not part of it.

Keys are texts, kept as lists of characters.
-/

namespace SemStreams.Graph

open List

/-! ## The encoding of an object -/

/-- One character of a JSON string, as Go's encoder writes it with its HTML
escapes. -/
def jsonEscape (c : Char) : List Char :=
  match c with
  | '"' => ['\\', '"']
  | '\\' => ['\\', '\\']
  | '\n' => ['\\', 'n']
  | '\r' => ['\\', 'r']
  | '\t' => ['\\', 't']
  | _ =>
    if c.toNat = 8 then ['\\', 'b']
    else if c.toNat = 12 then ['\\', 'f']
    else if c.toNat < 32 ∨ c = '<' ∨ c = '>' ∨ c = '&' then
      ['\\', 'u', '0', '0', hexDigit (c.toNat / 16), hexDigit (c.toNat % 16)]
    else if c.toNat = 0x2028 then ['\\', 'u', '2', '0', '2', '8']
    else if c.toNat = 0x2029 then ['\\', 'u', '2', '0', '2', '9']
    else [c]

def jsonString (text : List Char) : List Char := '"' :: text.flatMap jsonEscape ++ ['"']

/-- `canonicalObjectKey` on a persisted object: a JSON string is encoded again,
any other value is in its encoded form already. -/
def canonicalObjectKey : Object → List Char
  | .text value => jsonString value.toList
  | .json value => value.toList

/-! ## The key -/

/-- `writeIdentityField`: the length in bytes, a NUL, the field. -/
def identityField (field : List Char) : List Char :=
  Nat.toDigits 10 (byteLength field) ++ Char.ofNat 0 :: field

def appendIdentityKey (t : Triple) : List Char :=
  identityField t.subject.toList ++ identityField t.predicate.toList ++
    identityField t.datatype.toList ++ identityField t.source.toList ++
    identityField t.context.toList ++ identityField (canonicalObjectKey t.object)

def sameAppendTuple (left right : Triple) : Bool := appendIdentityKey left == appendIdentityKey right

def identityKeys (triples : List Triple) : List (List Char) := triples.map appendIdentityKey

/-- `DedupeAppendTriples`: the incoming triples that are neither stored nor
repeated, and the number suppressed. -/
def dedupeAppendTriples (stored incoming : List Triple) : List Triple × ℕ :=
  let survivors := keepNew appendIdentityKey (identityKeys stored) incoming
  (survivors, incoming.length - survivors.length)

section Dedupe

variable {stored incoming : List Triple} {t : Triple}

/-- Every triple is written or suppressed. -/
theorem length_dedupeAppendTriples (stored incoming : List Triple) :
    (dedupeAppendTriples stored incoming).1.length + (dedupeAppendTriples stored incoming).2 =
      incoming.length := by
  have hle : (keepNew appendIdentityKey (identityKeys stored) incoming).length ≤ incoming.length :=
    length_keepNew_le
  simp only [dedupeAppendTriples]
  omega

theorem nodup_dedupeAppendTriples : (identityKeys (dedupeAppendTriples stored incoming).1).Nodup :=
  nodup_keepNew

theorem mem_of_mem_dedupeAppendTriples (h : t ∈ (dedupeAppendTriples stored incoming).1) :
    t ∈ incoming ∧ appendIdentityKey t ∉ identityKeys stored :=
  mem_of_mem_keepNew h

/-- **After the append every incoming assertion is there.** -/
theorem mem_identityKeys_append (h : t ∈ incoming) :
    appendIdentityKey t ∈ identityKeys (stored ++ (dedupeAppendTriples stored incoming).1) := by
  unfold identityKeys dedupeAppendTriples
  rw [map_append]
  exact key_mem_keepNew h

theorem dedupeAppendTriples_of_stored (h : ∀ t ∈ incoming, appendIdentityKey t ∈ identityKeys stored) :
    dedupeAppendTriples stored incoming = ([], incoming.length) := by
  unfold dedupeAppendTriples
  rw [keepNew_eq_nil h]
  rfl

end Dedupe

/-! ## Reading a key back -/

/-- A marker that stands in neither front part splits a text in one way. -/
theorem append_cons_split {α : Type*} {c : α} {a b x y : List α} (ha : c ∉ a) (hb : c ∉ b)
    (h : a ++ c :: x = b ++ c :: y) : a = b ∧ x = y := by
  induction a generalizing b with
  | nil =>
    cases b with
    | nil => exact ⟨rfl, (List.cons.inj h).2⟩
    | cons d b => exact absurd (mem_cons.2 (.inl (List.cons.inj h).1)) hb
  | cons d a ih =>
    cases b with
    | nil => exact absurd (mem_cons.2 (.inl (List.cons.inj h).1.symm)) ha
    | cons e b =>
      obtain ⟨rfl, htail⟩ := List.cons.inj h
      obtain ⟨rfl, hxy⟩ := ih (fun hm => ha (mem_cons_of_mem _ hm))
        (fun hm => hb (mem_cons_of_mem _ hm)) htail
      exact ⟨rfl, hxy⟩

theorem byteLength_cons (c : Char) (text : List Char) :
    byteLength (c :: text) = c.utf8Size + byteLength text := by
  simp [byteLength, utf8Bytes]

/-- The length in bytes says where a front part ends. -/
theorem append_split_of_byteLength (hlen : byteLength a = byteLength b) (h : a ++ x = b ++ y) :
    a = b ∧ x = y := by
  induction a generalizing b with
  | nil =>
    cases b with
    | nil => exact ⟨rfl, h⟩
    | cons d b =>
      have := d.utf8Size_pos
      rw [byteLength_cons] at hlen
      have : byteLength [] = 0 := rfl
      omega
  | cons d a ih =>
    cases b with
    | nil =>
      have := d.utf8Size_pos
      rw [byteLength_cons] at hlen
      have : byteLength [] = 0 := rfl
      omega
    | cons e b =>
      obtain ⟨rfl, htail⟩ := List.cons.inj h
      rw [byteLength_cons, byteLength_cons] at hlen
      obtain ⟨rfl, hxy⟩ := ih (by omega) htail
      exact ⟨rfl, hxy⟩

/-- **A field is read back from the front of a key.** -/
theorem identityField_append (h : identityField a ++ x = identityField b ++ y) : a = b ∧ x = y := by
  have hnul : ∀ n, Char.ofNat 0 ∉ Nat.toDigits 10 n := fun n hmem =>
    absurd (Nat.isDigit_of_mem_toDigits (by omega) (by omega) hmem) (by decide)
  unfold identityField at h
  rw [append_assoc, append_assoc, cons_append, cons_append] at h
  obtain ⟨hdigits, hrest⟩ := append_cons_split (hnul _) (hnul _) h
  refine append_split_of_byteLength ?_ hrest
  have hread := congrArg (fun ds => Nat.ofDigitChars 10 ds 0) hdigits
  simpa [Nat.ofDigitChars_toDigits] using hread

theorem predicate_of_appendIdentityKey (h : appendIdentityKey t = appendIdentityKey u) :
    t.predicate = u.predicate := by
  unfold appendIdentityKey at h
  simp only [append_assoc] at h
  obtain ⟨-, h⟩ := identityField_append h
  exact String.toList_inj.1 (identityField_append h).1

theorem context_of_appendIdentityKey (h : appendIdentityKey t = appendIdentityKey u) :
    t.context = u.context := by
  unfold appendIdentityKey at h
  simp only [append_assoc] at h
  iterate 4 obtain ⟨-, h⟩ := identityField_append h
  exact String.toList_inj.1 (identityField_append h).1

end SemStreams.Graph
