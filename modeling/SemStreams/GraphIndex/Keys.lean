import SemStreams.Lib.Hex
import SemStreams.Graph.Contract
/-!
# graph-index — the composite keys

A row of INCOMING_INDEX is a key `target.source.hex(predicate)`, a row of
PREDICATE_INDEX a key `predicate.entity`, a row of NAME_INDEX a key
`hash(name).entity.hex(predicate)`. The rows an entity owns are the ones a
fixed-position filter selects, a query lists the keys under a prefix or filter
and reads the answer out of them.

Everything below rests on two facts about the parts: an entity id has six
plain tokens, a predicate three. So a key has one reading, a filter selects
exactly the keys with the entity in its place, and every key and filter is
within the budgets of the store.
-/

namespace SemStreams.GraphIndex

/-- A SHA-256 digest. -/
abbrev Digest := Vector UInt8 32

open SemStreams.Graph List Option

/-! ## Predicate tokens -/

def encodePredicateToken (predicate : String) : String :=
  String.ofList (hexEncode (utf8Bytes predicate.toList))

/-- `DecodePredicateToken`. A token of other bytes than a text is of no valid
predicate. -/
def decodePredicateToken (token : List Char) : Option String :=
  (hexDecode token).bind fun bytes => String.fromUTF8? bytes.toByteArray

theorem decode_encodePredicateToken (predicate : String) :
    decodePredicateToken (encodePredicateToken predicate).toList = some predicate := by
  have hbytes : (utf8Bytes predicate.toList).toByteArray = predicate.toByteArray := by
    rw [← String.ofList_toList (s := predicate), String.toByteArray_ofList, String.toList_ofList]
    rfl
  unfold decodePredicateToken encodePredicateToken
  rw [String.toList_ofList, hexDecode_hexEncode, bind_some, hbytes]
  unfold String.fromUTF8?
  rw [dif_pos predicate.isValidUTF8]
  rfl

theorem encodePredicateToken_injective
    (h : encodePredicateToken p = encodePredicateToken q) : p = q := by
  have hp := decode_encodePredicateToken p
  rw [h, decode_encodePredicateToken] at hp
  exact (Option.some.inj hp).symm

/-- Hexadecimal digits are one plain token. -/
theorem keyTokens_hexEncode (hne : bytes ≠ [])
    (hle : 2 * bytes.length ≤ limit) (hlimit : limit ≤ maxKVLiteralTokenBytes) :
    KeyTokens (String.ofList (hexEncode bytes)) 1 limit := by
  have hdigit : ∀ n : Fin 16, isKVLiteralAlphabet (hexDigit n) ∧ hexDigit n ≠ '.' ∧
      (hexDigit n).utf8Size = 1 := by decide
  have hchars : ∀ c ∈ hexEncode bytes, isKVLiteralAlphabet c ∧ c ≠ '.' ∧ c.utf8Size = 1 := by
    intro c hc
    obtain ⟨n, rfl⟩ := exists_digit_of_mem_hexEncode hc
    exact hdigit n
  have htokens : tokens (String.ofList (hexEncode bytes)) = [hexEncode bytes] := by
    have h := @tokens_eq_singleton (String.ofList (hexEncode bytes))
    rw [String.toList_ofList] at h
    exact h fun hdot => (hchars '.' hdot).2.1 rfl
  refine .of_bytes (by rw [htokens]; rfl) ?_ hlimit ?_
  · rw [String.toList_ofList, byteLength_eq_length fun c hc => (hchars c hc).2.2, hexEncode_length]
    exact hle
  · rw [htokens]
    intro t ht
    rw [mem_singleton] at ht
    rw [ht]
    refine ⟨?_, fun c hc => (hchars c hc).1⟩
    intro hnil
    have hlen := hexEncode_length bytes
    rw [hnil] at hlen
    have hpos := length_pos_iff.2 hne
    simp only [length_nil] at hlen
    omega

theorem keyTokens_encodePredicateToken (h : isValidPredicate predicate) :
    KeyTokens (encodePredicateToken predicate) 1 (2 * maxPredicateBytes) := by
  have hbytes := (keyTokens_predicate h).bytes
  refine keyTokens_hexEncode ?_ (Nat.mul_le_mul_left 2 hbytes) (by decide)
  -- no bytes would be the empty predicate
  intro hnil
  have hdecode := decode_encodePredicateToken predicate
  unfold encodePredicateToken at hdecode
  rw [hnil] at hdecode
  have hempty : decodePredicateToken (String.ofList (hexEncode [])).toList = some "" := by decide
  rw [← Option.some.inj hdecode] at h
  exact absurd h (by decide)

theorem tokens_of_length_one (h : (tokens text).length = 1) :
    tokens text = [text.toList] := by
  obtain ⟨x, hx⟩ := length_eq_one_iff.1 h
  have hjoin := joinTokens_tokens text
  rw [hx] at hjoin ⊢
  unfold joinTokens at hjoin
  rw [intercalate_singleton] at hjoin
  rw [← hjoin, String.toList_ofList]

theorem tokens_length {id : String} (h : isValidEntityID id) : (tokens id).length = 6 :=
  (keyTokens_entityID h).length

theorem filterTokens_star : FilterTokens "*" 1 1 := ⟨by decide, by decide, by decide⟩

theorem filterTokens_stars : FilterTokens "*.*.*.*.*.*" 6 11 := ⟨by decide, by decide, by decide⟩

/-! ## INCOMING_INDEX -/

def incomingIndexKey (targetID sourceID predicate : String) : String :=
  targetID ++ "." ++ sourceID ++ "." ++ encodePredicateToken predicate

/-- `incomingIndexPrefix`, as `KeysByPrefix` makes a filter of it. -/
def incomingIndexPrefixFilter (targetID : String) : String := targetID ++ "." ++ ">"

def incomingIndexSourceFilter (sourceID : String) : String :=
  "*.*.*.*.*.*" ++ "." ++ sourceID ++ "." ++ "*"

/-- `graph.IncomingEntry`. -/
structure IncomingEntry where
  fromEntityID : String
  predicate : String
deriving DecidableEq, Repr

/-- `incomingEntryFromKey`: past the target, six tokens of the source and the
rest of the key for the predicate. -/
def incomingEntryFromKey (key targetID : String) : Option IncomingEntry :=
  let before := (targetID ++ ".").toList
  if isValidEntityID targetID = false ∨ ¬ before <+: key.toList then none
  else
    let parts := (key.toList.drop before.length).splitOn '.'
    if parts.length < 7 then none
    else
      let sourceID := joinTokens (parts.take 6)
      match decodePredicateToken (['.'].intercalate (parts.drop 6)) with
      | none => none
      | some predicate =>
        if isValidPredicate predicate = true ∧ isValidEntityID sourceID = true then
          some ⟨sourceID, predicate⟩
        else none

/-- **A row of INCOMING_INDEX**: its parts are what the contracts say. -/
@[ext]
structure Edge where
  target : String
  source : String
  predicate : String
  target_ok : isValidEntityID target = true
  source_ok : isValidEntityID source = true
  predicate_ok : isValidPredicate predicate = true

def Edge.key (e : Edge) : String := incomingIndexKey e.target e.source e.predicate

section Incoming

variable {id : String}

theorem Edge.tokens_key (e : Edge) : tokens e.key =
    tokens e.target ++ (tokens e.source ++ [(encodePredicateToken e.predicate).toList]) := by
  have hone := tokens_of_length_one (keyTokens_encodePredicateToken e.predicate_ok).length
  unfold Edge.key incomingIndexKey
  rw [tokens_append_dot, tokens_append_dot, hone, append_assoc]

/-- **The owner filter selects the source's rows.** -/
theorem sourceFilter_selects (e : Edge) (hid : isValidEntityID id) :
    subjectSelects (incomingIndexSourceFilter id) e.key = decide (id = e.source) := by
  have hstars : tokens "*.*.*.*.*.*" = List.replicate 6 ['*'] := by decide
  have hstar : tokens "*" = [['*']] := by decide
  have hlength : (tokens id).length = (tokens e.source).length := by
    rw [tokens_length hid, tokens_length e.source_ok]
  unfold subjectSelects incomingIndexSourceFilter
  rw [tokens_append_dot, tokens_append_dot, hstars, hstar, e.tokens_key, append_assoc,
    filterSelects_stars (tokens_length e.target_ok),
    filterSelects_literals (keyTokens_entityID hid).literal hlength, filterSelects_cons_star]
  simp [filterSelects, tokens_inj]

/-- **The prefix of a target selects its rows.** -/
theorem prefixFilter_selects (e : Edge) (hid : isValidEntityID id) :
    subjectSelects (incomingIndexPrefixFilter id) e.key = decide (id = e.target) := by
  have hrest : tokens ">" = [['>']] := by decide
  have hlength : (tokens id).length = (tokens e.target).length := by
    rw [tokens_length hid, tokens_length e.target_ok]
  unfold subjectSelects incomingIndexPrefixFilter
  rw [tokens_append_dot, hrest, e.tokens_key,
    filterSelects_literals (keyTokens_entityID hid).literal hlength, filterSelects_rest (by simp)]
  simp [tokens_inj]

/-- **A key reads back as the edge it was made of.** -/
theorem incomingEntryFromKey_key (e : Edge) :
    incomingEntryFromKey e.key e.target = some ⟨e.source, e.predicate⟩ := by
  have hsplit : e.key.toList = (e.target ++ ".").toList ++
      (e.source ++ "." ++ encodePredicateToken e.predicate).toList := by
    unfold Edge.key incomingIndexKey
    simp only [String.toList_append, append_assoc]
  have hparts : (e.source ++ "." ++ encodePredicateToken e.predicate).toList.splitOn '.' =
      tokens e.source ++ [(encodePredicateToken e.predicate).toList] := by
    have hkey : e.key = e.target ++ "." ++ (e.source ++ "." ++ encodePredicateToken e.predicate) := by
      unfold Edge.key incomingIndexKey
      simp only [String.append_assoc]
    have htokens := e.tokens_key
    rw [hkey, tokens_append_dot] at htokens
    exact append_cancel_left htokens
  have hlen := tokens_length e.source_ok
  unfold incomingEntryFromKey
  rw [hsplit]
  rw [if_neg (by simp [e.target_ok]), drop_left, hparts, if_neg (by simp [hlen]), ← hlen,
    take_left, drop_left, intercalate_singleton, decode_encodePredicateToken,
    joinTokens_tokens]
  dsimp only
  rw [if_pos ⟨e.predicate_ok, e.source_ok⟩]

theorem Edge.validateKVLiteralKey_ok (e : Edge) : validateKVLiteralKey e.key = .ok () :=
  ((keyTokens_entityID e.target_ok).append (keyTokens_entityID e.source_ok)).append
    (keyTokens_encodePredicateToken e.predicate_ok) |>.validateKVLiteralKey_ok (by decide) (by decide)

theorem incomingIndexSourceFilter_ok (hid : isValidEntityID id) :
    validateKVWildcardFilter (incomingIndexSourceFilter id) = .ok () :=
  (filterTokens_stars.append (keyTokens_entityID hid).filter).append filterTokens_star
    |>.validateKVWildcardFilter_ok (by decide) (by decide)

theorem incomingIndexPrefixFilter_ok (hid : isValidEntityID id) :
    validateKVWildcardFilter (incomingIndexPrefixFilter id) = .ok () :=
  (keyTokens_entityID hid).filter.validateKVWildcardFilter_rest_ok (by decide) (by decide)

end Incoming

/-! ## PREDICATE_INDEX -/

def predicateIndexKey (predicate entityID : String) : String := predicate ++ "." ++ entityID

/-- `predicateIndexForwardFilter`: the predicate and six positions. -/
def predicateIndexForwardFilter (predicate : String) : String := predicate ++ "." ++ "*.*.*.*.*.*"

def predicateIndexEntityFilter (entityID : String) : String := "*.*.*" ++ "." ++ entityID

def predicateMembershipFromKey (key : String) : Option (String × String) :=
  let parts := tokens key
  if parts.length ≠ 9 then none
  else
    let predicate := joinTokens (parts.take 3)
    let entityID := joinTokens (parts.drop 3)
    if isValidPredicate predicate = true ∧ isValidEntityID entityID = true then
      some (predicate, entityID)
    else none

/-- **A row of PREDICATE_INDEX.** -/
@[ext]
structure Membership where
  predicate : String
  entity : String
  predicate_ok : isValidPredicate predicate = true
  entity_ok : isValidEntityID entity = true

def Membership.key (r : Membership) : String := predicateIndexKey r.predicate r.entity

section Predicate

variable {id p : String}

theorem tokens_length_predicate (h : isValidPredicate p) : (tokens p).length = 3 :=
  (keyTokens_predicate h).length

theorem Membership.tokens_key (r : Membership) :
    tokens r.key = tokens r.predicate ++ tokens r.entity := tokens_append_dot _ _

theorem entityFilter_selects (r : Membership) (hid : isValidEntityID id) :
    subjectSelects (predicateIndexEntityFilter id) r.key = decide (id = r.entity) := by
  have hstars : tokens "*.*.*" = List.replicate 3 ['*'] := by decide
  have hlength : (tokens id).length = (tokens r.entity).length := by
    rw [tokens_length hid, tokens_length r.entity_ok]
  have hlit := @filterSelects_literals [] [] (tokens id) (tokens r.entity)
    (keyTokens_entityID hid).literal hlength
  rw [append_nil, append_nil] at hlit
  unfold subjectSelects predicateIndexEntityFilter
  rw [tokens_append_dot, hstars, r.tokens_key,
    filterSelects_stars (tokens_length_predicate r.predicate_ok), hlit]
  simp [filterSelects, tokens_inj]

theorem forwardFilter_selects (r : Membership) (hp : isValidPredicate p) :
    subjectSelects (predicateIndexForwardFilter p) r.key = decide (p = r.predicate) := by
  have hstars : tokens "*.*.*.*.*.*" = List.replicate 6 ['*'] := by decide
  have hlength : (tokens p).length = (tokens r.predicate).length := by
    rw [tokens_length_predicate hp, tokens_length_predicate r.predicate_ok]
  have hrest := @filterSelects_stars [] [] _ _ (tokens_length r.entity_ok)
  rw [append_nil, append_nil] at hrest
  unfold subjectSelects predicateIndexForwardFilter
  rw [tokens_append_dot, hstars, r.tokens_key,
    filterSelects_literals (keyTokens_predicate hp).literal hlength, hrest]
  simp [filterSelects, tokens_inj]

theorem predicateMembershipFromKey_key (r : Membership) :
    predicateMembershipFromKey r.key = some (r.predicate, r.entity) := by
  have hlen := tokens_length_predicate r.predicate_ok
  unfold predicateMembershipFromKey
  rw [r.tokens_key, if_neg (by simp [hlen, tokens_length r.entity_ok]), ← hlen, take_left,
    drop_left, joinTokens_tokens, joinTokens_tokens, if_pos ⟨r.predicate_ok, r.entity_ok⟩]

theorem Membership.validateKVLiteralKey_ok (r : Membership) : validateKVLiteralKey r.key = .ok () :=
  (keyTokens_predicate r.predicate_ok).append (keyTokens_entityID r.entity_ok)
    |>.validateKVLiteralKey_ok (by decide) (by decide)

theorem predicateIndexEntityFilter_ok (hid : isValidEntityID id) :
    validateKVWildcardFilter (predicateIndexEntityFilter id) = .ok () := by
  have hstars : FilterTokens "*.*.*" 3 5 := ⟨by decide, by decide, by decide⟩
  exact (hstars.append (keyTokens_entityID hid).filter).validateKVWildcardFilter_ok (by decide) (by decide)

theorem predicateIndexForwardFilter_ok (hp : isValidPredicate p) :
    validateKVWildcardFilter (predicateIndexForwardFilter p) = .ok () :=
  ((keyTokens_predicate hp).filter.append filterTokens_stars).validateKVWildcardFilter_ok
    (by decide) (by decide)

end Predicate

/-! ## NAME_INDEX -/

/-- `nameIndexKey` of a name with the given digest. -/
def nameIndexKey (digest : Digest) : String := String.ofList (hexEncode digest.toList)

def nameCompositeKey (nameHash entityID predicate : String) : String :=
  nameHash ++ "." ++ entityID ++ "." ++ encodePredicateToken predicate

def nameIndexEntityFilter (entityID : String) : String := "*" ++ "." ++ entityID ++ "." ++ "*"

/-- **A row of NAME_INDEX.** -/
structure NameRow where
  digest : Digest
  entity : String
  predicate : String
  entity_ok : isValidEntityID entity = true
  predicate_ok : isValidPredicate predicate = true

def NameRow.key (r : NameRow) : String :=
  nameCompositeKey (nameIndexKey r.digest) r.entity r.predicate

variable {id : String}

theorem keyTokens_nameIndexKey (digest : Digest) : KeyTokens (nameIndexKey digest) 1 64 := by
  have hlength : digest.toList.length = 32 := digest.length_toList
  refine keyTokens_hexEncode ?_ (by rw [hlength]) (by decide)
  intro hnil
  rw [hnil] at hlength
  exact nomatch hlength

variable (r : NameRow)

theorem nameFilter_selects (hid : isValidEntityID id) :
    subjectSelects (nameIndexEntityFilter id) r.key = decide (id = r.entity) := by
  have hstar : tokens "*" = [['*']] := by decide
  have hlength : (tokens id).length = (tokens r.entity).length := by
    rw [tokens_length hid, tokens_length r.entity_ok]
  unfold subjectSelects nameIndexEntityFilter NameRow.key nameCompositeKey
  rw [tokens_append_dot, tokens_append_dot, tokens_append_dot, tokens_append_dot, hstar,
    tokens_of_length_one (keyTokens_nameIndexKey r.digest).length,
    tokens_of_length_one (keyTokens_encodePredicateToken r.predicate_ok).length, append_assoc,
    append_assoc, singleton_append, singleton_append, filterSelects_cons_star,
    filterSelects_literals (keyTokens_entityID hid).literal hlength, filterSelects_cons_star]
  simp [filterSelects, tokens_inj]

theorem NameRow.validateKVLiteralKey_ok : validateKVLiteralKey r.key = .ok () :=
  ((keyTokens_nameIndexKey r.digest).append (keyTokens_entityID r.entity_ok)).append
    (keyTokens_encodePredicateToken r.predicate_ok) |>.validateKVLiteralKey_ok (by decide) (by decide)

theorem nameIndexEntityFilter_ok (hid : isValidEntityID id) :
    validateKVWildcardFilter (nameIndexEntityFilter id) = .ok () :=
  (filterTokens_star.append (keyTokens_entityID hid).filter).append filterTokens_star
    |>.validateKVWildcardFilter_ok (by decide) (by decide)

end SemStreams.GraphIndex
