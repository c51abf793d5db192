import SemStreams.Graph.Contract
import SemStreams.Lib.Base64
import SemStreams.Lib.Checks
import SemStreams.Lib.Window
import Mathlib
/-!
# graph-ingest — prefix queries, page by page

A prefix query lists the entities under a prefix in the order of their keys. A
page is cut by the limit first; of the entities of the page as many are returned
as fit the maximum payload with the cursor that follows them. The cursor is the
last key returned, and the next page starts after it, so the pages follow each
other without a gap whichever of the two cuts was the binding one.

The store does not change while the pages are read. Which entities are served
from the cache differs from page to page and makes no difference, since the page
is sorted again after the fetch.
-/

namespace SemStreams.GraphIngest

open SemStreams.Graph List Option

/-! ## Keys in the order of their bytes -/

def bytesOf (text : String) : List UInt8 := text.toByteArray.data.toList

/-- The bytes as numbers: what a comparison of strings goes by. -/
def rank (bytes : List UInt8) : List ℕ := bytes.map UInt8.toNat

def keyRank (key : String) : List ℕ := rank (bytesOf key)

theorem keyRank_injective (h : keyRank a = keyRank b) : a = b := by
  have hbytes : bytesOf a = bytesOf b :=
    map_injective_iff.2 (fun _ _ => UInt8.toNat_inj.1) h
  exact String.toByteArray_inj.1 (ByteArray.ext (Array.toList_inj.1 hbytes))

/-! ## The store -/

/-- A stored value under its key; `none` for one that is no entity at all. -/
abbrev StoredRow := String × Option EntityState

/-- ENTITY_STATES: every writer stores an entity under its id, and no key is empty. -/
structure EntityStore where
  rows : Window (Prod.fst : StoredRow → String)
  own : ∀ row ∈ rows.items, ∀ e, row.2 = some e → e.id = row.1
  named : ∀ row ∈ rows.items, row.1 ≠ ""

open EntityStore

namespace EntityStore

variable (store : EntityStore)

/-- A read through `UnmarshalEntityState`: nothing there, a value that does not
meet the contract, or an entity. -/
def read (id : String) : Option (Option EntityState) :=
  (store.rows.lookup id).map fun row => row.2.filter validateEntityStateContract

def entity (id : String) : Option EntityState := (store.read id).join

def entities : List EntityState :=
  store.rows.items.filterMap fun row => row.2.filter validateEntityStateContract

/-- `KeysByPrefix`, in whatever order the watcher delivers. -/
def keysByPrefix (prefixDot : String) : List String :=
  (store.rows.items.map Prod.fst).filter (subjectSelects (prefixDot ++ ">"))

end EntityStore

/-! ## Requests and pages -/

def defaultPrefixQueryLimit : ℕ := 1000

def maxPrefixQueryLimit : ℕ := defaultPrefixQueryLimit

structure PrefixQueryRequest where
  idPrefix : String
  limit : ℤ
  cursor : String

/-- A `PrefixQueryResponse` and its encoding. -/
structure PrefixPage where
  entities : List EntityState
  nextCursor : String
  encoded : List UInt8

inductive PrefixQueryError
  | notReady
  | invalidPrefix (reason : EntityIDReason)
  | invalidCursor
  | poisoned (ids : List String)
  | unmarshalable
  | responseTooLarge (responseBytes : ℕ) (maxPayload : ℤ)
  | fittingInvariant (encodedBytes : ℕ) (maxPayload : ℤ)
deriving DecidableEq

def validateEntityIDPrefix (value : String) : Except EntityIDReason Unit :=
  validateEntityIDValue value 1 canonicalEntityIDParts

def clampLimit (limit : ℤ) : ℕ :=
  if limit ≤ 0 then defaultPrefixQueryLimit
  else if limit > maxPrefixQueryLimit then maxPrefixQueryLimit
  else limit.toNat

def encodeCursor (key : String) : String := String.ofList (Base64.encode (bytesOf key))

def decodeCursor (cursor : String) : Option (List UInt8) :=
  if cursor = "" then some [] else Base64.decode cursor.toList

/-! ## The handler -/

section Handler

variable (store : EntityStore)

def prefixDot (idPrefix : String) : String := if idPrefix = "" then "" else idPrefix ++ "."

/-- The keys under the prefix, and the exact key where there are none. -/
def scanKeys (idPrefix : String) : List String :=
  let keys := store.keysByPrefix (prefixDot idPrefix)
  if idPrefix ≠ "" ∧ keys = [] then
    if (store.read idPrefix).isSome then [idPrefix] else []
  else keys

def sortKeys (keys : List String) : List String :=
  keys.insertionSort fun a b => keyRank a ≤ keyRank b

/-- The keys after the cursor: `SearchStrings`, and past the key itself. -/
def afterCursor (keys : List String) (cursor : String) : Option (List String) :=
  if cursor = "" then some keys
  else
    (decodeCursor cursor).map fun lastKey =>
      (keys.dropWhile fun k => keyRank k < rank lastKey).dropWhile fun k => bytesOf k = lastKey

/-- `fetchEntitiesConcurrent`: the hits of the cache, then what was read. -/
def fetchEntitiesConcurrent (cached : String → Bool) (ids : List String) :
    Except PrefixQueryError (List EntityState) :=
  let hit := fun id => cached id && (store.entity id).isSome
  let missIDs := ids.filter fun id => !hit id
  let poisoned := missIDs.filter fun id => store.read id = some none
  if poisoned ≠ [] then .error (.poisoned (sortKeys poisoned))
  else .ok ((ids.filter hit).filterMap store.entity ++ missIDs.filterMap store.entity)

def sortEntities (entities : List EntityState) : List EntityState :=
  entities.insertionSort fun a b => keyRank a.id ≤ keyRank b.id

/-- The key a page that was cut by its limit continues after. -/
def followingBoundary (keys pageKeys : List String) : String :=
  if keys.length > pageKeys.length ∧ pageKeys.length > 0 then pageKeys.getLastD "" else ""

def cursorFor (entities : List EntityState) (boundary : String) (count : ℕ) : String :=
  if 0 < count ∧ count < entities.length then
    encodeCursor (((entities.take count).getLast?.map EntityState.id).getD "")
  else if boundary ≠ "" then encodeCursor boundary
  else ""

/-- `json.Marshal` of a cursor, which has nothing to escape. -/
def marshalCursor (cursor : String) : List UInt8 := bytesOf ("\"" ++ cursor ++ "\"")

def encodedSize (entityBytes : List (List UInt8)) (count : ℕ) (cursor : String) : ℕ :=
  (bytesOf "\x7b\"entities\":[").length + (bytesOf "]\x7d").length +
    ((entityBytes.take count).map List.length).sum + (count - 1) +
    if cursor = "" then 0
    else (bytesOf ",\"next_cursor\":").length + (marshalCursor cursor).length

/-- `json.Marshal` of the response; a page without entities is a nil slice. -/
def marshalResponse (entityBytes : List (List UInt8)) (cursor : String) : List UInt8 :=
  bytesOf "\x7b\"entities\":" ++
    (if entityBytes = [] then bytesOf "null"
      else bytesOf "[" ++ (bytesOf ",").intercalate entityBytes ++ bytesOf "]") ++
    (if cursor = "" then [] else bytesOf ",\"next_cursor\":" ++ marshalCursor cursor) ++
    bytesOf "\x7d"

/-- The best candidate so far, and the size of the first. -/
structure Fitting where
  best : Option (ℕ × String)
  firstCandidateBytes : ℕ

variable (entities : List EntityState) (boundary : String) (maxPayload : ℤ)

/-- One candidate of the loop in `marshalFittingPrefixPage`. -/
def fitStep (entityBytes : List (List UInt8)) (fit : Fitting) (count : ℕ) : Fitting :=
  if count = 0 ∧ entities ≠ [] then fit
  else
    let cursor := cursorFor entities boundary count
    let size := encodedSize entityBytes count cursor
    { best := if (size : ℤ) ≤ maxPayload then some (count, cursor) else fit.best
      firstCandidateBytes :=
        if count = 1 ∨ (count = 0 ∧ entities = []) then size else fit.firstCandidateBytes }

def marshalFittingPrefixPage (marshal : EntityState → Option (List UInt8)) :
    Except PrefixQueryError PrefixPage :=
  match entities.mapM marshal with
  | none => .error .unmarshalable
  | some entityBytes =>
    let fit := (List.range (entities.length + 1)).foldl
      (fitStep entities boundary maxPayload entityBytes) ⟨none, 0⟩
    match fit.best with
    | none => .error (.responseTooLarge fit.firstCandidateBytes maxPayload)
    | some (count, cursor) =>
      let encoded := marshalResponse (entityBytes.take count) cursor
      if (encoded.length : ℤ) > maxPayload then
        .error (.fittingInvariant encoded.length maxPayload)
      else .ok ⟨entities.take count, cursor, encoded⟩

end Handler

/-- What else a request meets: whether queries are served, and the cache. -/
structure Serving where
  ready : Bool
  cached : String → Bool

/-- Store, encoder and maximum payload. -/
structure PrefixQuery where
  store : EntityStore
  marshal : EntityState → Option (List UInt8)
  maxPayload : ℤ

namespace PrefixQuery

variable (q : PrefixQuery)

/-- The part of the handler that works on the remaining keys. -/
def pageOf (serving : Serving) (limit : ℕ) (keys : List String) :
    Except PrefixQueryError PrefixPage :=
  let pageKeys := keys.take limit
  match fetchEntitiesConcurrent q.store serving.cached pageKeys with
  | .error err => .error err
  | .ok entities =>
    marshalFittingPrefixPage (sortEntities entities) (followingBoundary keys pageKeys) q.maxPayload
      q.marshal

/-- `handleQueryPrefixWithMaxPayload`. -/
def handle (serving : Serving) (req : PrefixQueryRequest) : Except PrefixQueryError PrefixPage :=
  if !serving.ready then .error .notReady
  else
    match if req.idPrefix = "" then .ok () else validateEntityIDPrefix req.idPrefix with
    | .error reason => .error (.invalidPrefix reason)
    | .ok () =>
      match afterCursor (sortKeys (scanKeys q.store req.idPrefix)) req.cursor with
      | none => .error .invalidCursor
      | some keys => q.pageOf serving (clampLimit req.limit) keys

/-- **Following the cursor** to the end, a page at a time; `none` when the fuel
does not suffice. -/
def follow (serving : ℕ → Serving) (idPrefix : String) (limit : ℤ) :
    ℕ → ℕ → String → Option (Except PrefixQueryError (List PrefixPage))
  | 0, _, _ => none
  | fuel + 1, n, cursor =>
    match q.handle (serving n) ⟨idPrefix, limit, cursor⟩ with
    | .error err => some (.error err)
    | .ok page =>
      if page.nextCursor = "" then some (.ok [page])
      else (follow serving idPrefix limit fuel (n + 1) page.nextCursor).map
        (Except.map (page :: ·))

end PrefixQuery

/-! ## Sorted keys and cursors -/

section Order

variable {keys : List String} {key : String}

/-- Keys in ascending order, each once. -/
def Ascending (keys : List String) : Prop := keys.Pairwise fun a b => keyRank a < keyRank b

theorem ascending_sortKeys (h : keys.Nodup) : Ascending (sortKeys keys) := by
  have hsorted : (sortKeys keys).Pairwise fun a b => keyRank a ≤ keyRank b := by
    exact pairwise_insertionSort _ keys
  have hnodup : (sortKeys keys).Nodup := (perm_insertionSort _ keys).nodup_iff.2 h
  exact hsorted.imp₂ (fun a b hle hne => lt_of_le_of_ne hle fun heq => hne (keyRank_injective heq))
    hnodup

theorem mem_sortKeys : key ∈ sortKeys keys ↔ key ∈ keys := mem_insertionSort _

/-- Entities are sorted by what their keys say. -/
theorem map_id_sortEntities {entities : List EntityState} (hkeys : Ascending keys)
    (hperm : (entities.map EntityState.id).Perm keys) :
    (sortEntities entities).map EntityState.id = keys := by
  have hsorted : ((sortEntities entities).map EntityState.id).Pairwise
      fun a b => keyRank a ≤ keyRank b :=
    pairwise_map.2 (pairwise_insertionSort _ entities)
  refine List.Perm.eq_of_pairwise ?_ hsorted (hkeys.imp le_of_lt)
    (((perm_insertionSort _ entities).map _).trans hperm)
  intro a b _ _ hab hba
  exact keyRank_injective (le_antisymm hab hba)

theorem bytesOf_ne_nil (h : key ≠ "") : bytesOf key ≠ [] := by
  intro hnil
  refine h (String.toByteArray_inj.1 (ByteArray.ext (Array.toList_inj.1 ?_)))
  exact hnil

theorem encodeCursor_ne_empty (h : key ≠ "") : encodeCursor key ≠ "" := by
  intro hempty
  have hnil : Base64.encode (bytesOf key) = [] := by
    rw [← String.toList_ofList (l := Base64.encode (bytesOf key))]
    exact congrArg String.toList hempty
  exact bytesOf_ne_nil h (Base64.encode_eq_nil hnil)

/-- **The next page starts after the last key returned.** -/
theorem afterCursor_encodeCursor (hkeys : Ascending (before ++ rest))
    (hlast : before.getLast? = some key) (hkey : key ≠ "") :
    afterCursor (before ++ rest) (encodeCursor key) = some rest := by
  obtain ⟨init, rfl⟩ := List.getLast?_eq_some_iff.1 hlast
  rw [append_assoc] at hkeys ⊢
  obtain ⟨-, hrest, hbefore⟩ := pairwise_append.1 hkeys
  have hafter : ∀ k ∈ rest, keyRank key < keyRank k := (pairwise_cons.1 hrest).1
  have hdecode : decodeCursor (encodeCursor key) = some (bytesOf key) := by
    rw [decodeCursor, if_neg (encodeCursor_ne_empty hkey), encodeCursor, String.toList_ofList,
      Base64.decode_encode]
  rw [afterCursor, if_neg (encodeCursor_ne_empty hkey), hdecode, map_some]
  congr 1
  have hskip : ∀ k ∈ init, decide (keyRank k < rank (bytesOf key)) := fun k hk =>
    decide_eq_true (hbefore k hk key (by simp))
  rw [dropWhile_append_of_pos hskip]
  have hstop : ([key] ++ rest).dropWhile (fun k => keyRank k < rank (bytesOf key)) = key :: rest := by
    simp [keyRank]
  rw [hstop, dropWhile_cons_of_pos (by simp)]
  cases rest with
  | nil => rfl
  | cons k rest =>
    refine dropWhile_cons_of_neg ?_
    intro heq
    have hlt := hafter k (by simp)
    rw [keyRank, keyRank, of_decide_eq_true heq] at hlt
    exact lt_irrefl _ hlt

end Order

/-! ## One page -/

section Page

variable {store : EntityStore} {ids keys : List String} {id : String} {e : EntityState}

theorem EntityStore.entity_eq_some (h : store.entity id = some e) :
    e ∈ store.entities ∧ e.id = id := by
  obtain ⟨row, hrow, hvalid⟩ := map_eq_some_iff.1 (join_eq_some_iff.1 h)
  obtain ⟨hmem, rfl⟩ := Window.mem_of_lookup hrow
  exact ⟨mem_filterMap.2 ⟨row, hmem, hvalid⟩, store.own row hmem e (filter_eq_some_iff.1 hvalid).1⟩

/-- A stored entity is the one its key holds, and meets the contract. -/
theorem EntityStore.exists_row (h : e ∈ store.entities) :
    ∃ row ∈ store.rows.items, row = (e.id, some e) ∧ validateEntityStateContract e := by
  obtain ⟨row, hrow, hentity⟩ := mem_filterMap.1 h
  obtain ⟨hrowe, hcontract⟩ := filter_eq_some_iff.1 hentity
  exact ⟨row, hrow, Prod.ext (store.own row hrow e hrowe).symm hrowe, hcontract⟩

theorem EntityStore.valid_of_mem_entities (h : e ∈ store.entities) : isValidEntityID e.id := by
  obtain ⟨-, -, -, hcontract⟩ := exists_row h
  simp only [validateEntityStateContract, Bool.and_eq_true] at hcontract
  exact hcontract.1.1.1

theorem EntityStore.eq_of_id_eq (h : e ∈ store.entities) (h' : e' ∈ store.entities)
    (hid : e.id = e'.id) : e = e' := by
  obtain ⟨_, hrow, rfl, -⟩ := exists_row h
  obtain ⟨_, hrow', rfl, -⟩ := exists_row h'
  have hsame := Window.eq_of_key_eq hrow hrow' hid
  exact Option.some.inj (congrArg Prod.snd hsame)

/-- A key of the store holds an entity or is poisoned. -/
theorem EntityStore.entity_or_poisoned (h : id ∈ store.rows.items.map Prod.fst) :
    store.read id = some none ∨ ∃ e, store.entity id = some e := by
  obtain ⟨row, hrow, rfl⟩ := List.mem_map.1 h
  have hread : store.read row.1 = some (row.2.filter validateEntityStateContract) := by
    rw [read, Window.lookup_of_mem hrow, map_some]
  cases hvalid : row.2.filter validateEntityStateContract with
  | none => exact .inl (hread.trans (congrArg some hvalid))
  | some e =>
    refine .inr ⟨e, ?_⟩
    rw [entity, hread, hvalid, join_some]

theorem EntityStore.map_id_filterMap (h : ∀ id ∈ ids, ∃ e, store.entity id = some e) :
    (ids.filterMap store.entity).map EntityState.id = ids := by
  induction ids with
  | nil => rfl
  | cons id ids ih =>
    obtain ⟨⟨e, he⟩, hids⟩ := forall_mem_cons.1 h
    rw [filterMap_cons_some he, map_cons, ih hids, (entity_eq_some he).2]

variable {entities : List EntityState}

/-- **A fetch that does not fail returns every entity asked for**, wherever it
comes from. -/
theorem fetchEntitiesConcurrent_eq_ok (hids : ∀ id ∈ ids, id ∈ store.rows.items.map Prod.fst)
    (h : fetchEntitiesConcurrent store cached ids = .ok entities) :
    (entities.map EntityState.id).Perm ids ∧ ∀ e ∈ entities, e ∈ store.entities := by
  obtain ⟨hpoisoned, h⟩ := ok_of_check h
  cases h
  rw [not_not, filter_eq_nil_iff] at hpoisoned
  have hfound : ∀ id ∈ ids, ∃ e, store.entity id = some e := by
    intro id hid
    by_cases hhit : (cached id && (store.entity id).isSome)
    · rw [Bool.and_eq_true] at hhit
      exact isSome_iff_exists.1 hhit.2
    · have hmiss := hpoisoned id (mem_filter.2 ⟨hid, by simp only [hhit, Bool.not_false]⟩)
      exact (entity_or_poisoned (hids id hid)).resolve_left (by simpa using hmiss)
  constructor
  · rw [map_append, map_id_filterMap fun id hid => hfound id (mem_of_mem_filter hid),
      map_id_filterMap fun id hid => hfound id (mem_of_mem_filter hid)]
    exact filter_append_perm _ ids
  · intro e he
    rcases mem_append.1 he with he | he
    all_goals
      obtain ⟨id, -, hid⟩ := mem_filterMap.1 he
      exact (entity_eq_some hid).1

/-- The candidate the loop ends with. -/
theorem fit_candidate {boundary : String} {maxPayload : ℤ} {entityBytes : List (List UInt8)}
    {count : ℕ} {cursor : String}
    (h : ((List.range (entities.length + 1)).foldl
      (fitStep entities boundary maxPayload entityBytes) ⟨none, 0⟩).best = some (count, cursor)) :
    count ≤ entities.length ∧ (count = 0 → entities = []) ∧
      cursor = cursorFor entities boundary count := by
  refine List.foldlRecOn (motive := fun fit : Fitting => fit.best = some (count, cursor) →
    count ≤ entities.length ∧ (count = 0 → entities = []) ∧
      cursor = cursorFor entities boundary count) _ _ (by simp) ?_ h
  intro fit ih n hn hbest
  unfold fitStep at hbest
  split at hbest
  · exact ih hbest
  · next hskip =>
    dsimp only at hbest
    split at hbest
    · cases hbest
      rw [mem_range] at hn
      refine ⟨by omega, fun hzero => ?_, rfl⟩
      by_contra hne
      exact hskip ⟨hzero, hne⟩
    · exact ih hbest

/-- **A page is the next so many keys**, and its cursor the last of them, unless it
is the last page. -/
theorem PrefixQuery.pageOf_eq_ok {q : PrefixQuery} {serving : Serving} {limit : ℕ} {page : PrefixPage}
    (hkeys : Ascending keys) (hstored : ∀ k ∈ keys, k ∈ q.store.rows.items.map Prod.fst)
    (hlimit : 0 < limit) (h : q.pageOf serving limit keys = .ok page) :
    ∃ count ≤ keys.length, page.entities.map EntityState.id = keys.take count ∧
      (∀ e ∈ page.entities, e ∈ q.store.entities) ∧ (page.encoded.length : ℤ) ≤ q.maxPayload ∧
      ((page.nextCursor = "" ∧ count = keys.length) ∨
        (0 < count ∧ ∃ key, (keys.take count).getLast? = some key ∧ key ≠ "" ∧
          page.nextCursor = encodeCursor key)) := by
  have hnamed : ∀ k ∈ keys, k ≠ "" := by
    intro k hk
    obtain ⟨row, hrow, rfl⟩ := List.mem_map.1 (hstored k hk)
    exact q.store.named row hrow
  simp only [PrefixQuery.pageOf] at h
  split at h
  · cases h
  next fetched hfetch =>
  obtain ⟨hperm, hentities⟩ :=
    fetchEntitiesConcurrent_eq_ok (fun k hk => hstored k (mem_of_mem_take hk)) hfetch
  have hids := map_id_sortEntities (List.Pairwise.sublist (take_sublist limit keys) hkeys) hperm
  have hlength : (sortEntities fetched).length = min limit keys.length := by
    rw [← length_map (f := EntityState.id), hids, length_take]
  simp only [marshalFittingPrefixPage] at h
  split at h
  · cases h
  split at h
  · cases h
  next count _ hbest =>
  obtain ⟨hsize, h⟩ := ok_of_check h
  cases h
  obtain ⟨_, hzero, hcursor⟩ := fit_candidate hbest
  have hpage : ((sortEntities fetched).take count).map EntityState.id = keys.take count := by
    rw [map_take, hids, take_take]
    congr 1
    omega
  refine ⟨count, by omega, hpage, ?_, not_lt.1 hsize, ?_⟩
  · intro e he
    exact hentities e ((mem_insertionSort _).1 (mem_of_mem_take he))
  have hlast : 0 < count → ∃ key, (keys.take count).getLast? = some key ∧ key ≠ "" := by
    intro hpos
    have hne : keys.take count ≠ [] := by
      rw [← length_pos_iff, length_take]
      omega
    refine ⟨_, List.getLast?_eq_some_getLast hne, ?_⟩
    exact hnamed _ (mem_of_mem_take (getLast_mem hne))
  rw [hcursor, cursorFor]
  split
  · next hcut =>
    -- the payload was the binding cut
    obtain ⟨key, hkey, hne⟩ := hlast hcut.1
    refine .inr ⟨hcut.1, key, hkey, hne, ?_⟩
    rw [← List.getLast?_map, hpage, hkey]
    rfl
  next hcut =>
  have hcount : count = min limit keys.length := by
    rw [← hlength]
    rcases Nat.eq_zero_or_pos count with h0 | hpos
    · rw [hzero h0, h0]
      rfl
    · omega
  have hboundary : 0 < count → count < keys.length → ∃ key, (keys.take count).getLast? = some key ∧
      key ≠ "" ∧ followingBoundary keys (keys.take limit) = key := by
    intro hpos _
    obtain ⟨key, hkey, hne⟩ := hlast hpos
    have hlimitCount : limit = count := by omega
    refine ⟨key, hkey, hne, ?_⟩
    rw [followingBoundary, hlimitCount, if_pos, getLastD_eq_getLast?, hkey, getD_some]
    rw [length_take]
    omega
  split
  · next hne =>
    -- the limit was
    have hmore : count < keys.length ∧ 0 < count := by
      rw [followingBoundary] at hne
      split at hne
      · next hguard =>
        rw [length_take] at hguard
        omega
      · exact absurd rfl hne
    obtain ⟨key, hkey, hkeyne, heq⟩ := hboundary hmore.2 hmore.1
    exact .inr ⟨hmore.2, key, hkey, hkeyne, by rw [heq]⟩
  · next hend =>
    refine .inl ⟨rfl, ?_⟩
    by_contra hne
    obtain ⟨key, -, hkeyne, heq⟩ := hboundary (by omega) (by omega)
    exact hend (heq ▸ hkeyne)

end Page

/-! ## All pages -/

variable {q : PrefixQuery} {serving : ℕ → Serving} {idPrefix : String} {limit : ℤ}

theorem clampLimit_pos (limit : ℤ) : 0 < clampLimit limit := by
  unfold clampLimit
  split
  · decide
  · split
    · decide
    · omega

/-- The keys are scanned from the store, each once. -/
theorem scanKeys_spec (store : EntityStore) (idPrefix : String) : (scanKeys store idPrefix).Nodup ∧
      ∀ k ∈ scanKeys store idPrefix, k ∈ store.rows.items.map Prod.fst := by
  unfold scanKeys
  dsimp only
  split
  · split
    · next hsome =>
      refine ⟨nodup_singleton _, ?_⟩
      intro k hk
      obtain ⟨_, hread⟩ := isSome_iff_exists.1 hsome
      obtain ⟨_, hrow, -⟩ := map_eq_some_iff.1 hread
      obtain ⟨hmem, rfl⟩ := Window.mem_of_lookup hrow
      rw [mem_singleton.1 hk]
      exact List.mem_map_of_mem hmem
    · exact ⟨nodup_nil, nofun⟩
  · exact ⟨store.rows.nodup.filter _, fun _ hk => mem_of_mem_filter hk⟩

/-- **From any place on, the pages that follow are the rest of the keys.** -/
theorem follow_rest {before rest : List String} {fuel : ℕ} (n : ℕ) {cursor : String}
    (hkeys : sortKeys (scanKeys q.store idPrefix) = before ++ rest)
    (hcursor : afterCursor (before ++ rest) cursor = some rest) (hfuel : rest.length < fuel) :
    ∃ outcome, q.follow serving idPrefix limit fuel n cursor = some outcome ∧
      ∀ pages, outcome = .ok pages →
        (pages.flatMap PrefixPage.entities).map EntityState.id = rest ∧
        (∀ e ∈ pages.flatMap PrefixPage.entities, e ∈ q.store.entities) ∧
        ∀ page ∈ pages, (page.encoded.length : ℤ) ≤ q.maxPayload := by
  obtain ⟨hnodup, hstored⟩ := scanKeys_spec q.store idPrefix
  have hascending : Ascending (before ++ rest) := hkeys ▸ ascending_sortKeys hnodup
  -- on the fuel; every page but the last returns at least one key
  induction fuel generalizing before rest n cursor with
  | zero => omega
  | succ fuel ih =>
    rw [PrefixQuery.follow]
    cases hpage : q.handle (serving n) ⟨idPrefix, limit, cursor⟩ with
    | error err => exact ⟨_, rfl, nofun⟩
    | ok page =>
      have hpageOf : q.pageOf (serving n) (clampLimit limit) rest = .ok page := by
        obtain ⟨-, h⟩ := ok_of_check hpage
        split at h
        · cases h
        · simp only [hkeys, hcursor] at h
          exact h
      have hrest : ∀ k ∈ rest, k ∈ q.store.rows.items.map Prod.fst := by
        intro k hk
        refine hstored k (mem_sortKeys.1 ?_)
        rw [hkeys]
        exact mem_append_right _ hk
      obtain ⟨count, _, hids, hentities, hencoded, hnext⟩ := PrefixQuery.pageOf_eq_ok
        (pairwise_append.1 hascending).2.1 hrest (clampLimit_pos limit) hpageOf
      dsimp only
      rcases hnext with ⟨hend, rfl⟩ | ⟨_, key, hlast, hkey, hcursor'⟩
      · rw [if_pos hend]
        refine ⟨_, rfl, fun pages hpages => ?_⟩
        cases hpages
        rw [take_length] at hids
        simpa using ⟨hids, hentities, hencoded⟩
      · rw [hcursor', if_neg (encodeCursor_ne_empty hkey)]
        have hsplit : before ++ rest = (before ++ rest.take count) ++ rest.drop count := by
          rw [append_assoc, take_append_drop]
        have hlast' : (before ++ rest.take count).getLast? = some key := by
          rw [List.getLast?_append, hlast]
          rfl
        rw [hsplit] at hkeys hascending
        obtain ⟨outcome, hfollow, hpages⟩ := ih (n + 1) hkeys
          (afterCursor_encodeCursor hascending hlast' hkey) (by rw [length_drop]; omega)
          hascending
        rw [hfollow]
        refine ⟨_, rfl, fun pages hok => ?_⟩
        cases outcome with
        | error err => cases hok
        | ok rest' =>
          cases hok
          obtain ⟨hids', hentities', hencoded'⟩ := hpages rest' rfl
          refine ⟨?_, ?_, forall_mem_cons.2 ⟨hencoded, hencoded'⟩⟩
          · rw [flatMap_cons, map_append, hids, hids', take_append_drop]
          · exact fun e he => (mem_append.1 he).elim (hentities e) (hentities' e)

/-- The id lies under the prefix, segment by segment. -/
def Under (idPrefix id : String) : Prop := idPrefix = "" ∨ tokens idPrefix <+: tokens id

theorem literal_of_validateEntityIDPrefix (h : validateEntityIDPrefix idPrefix = .ok ()) :
    ∀ t ∈ tokens idPrefix, Literal t := by
  obtain ⟨-, h⟩ := ok_of_check h
  obtain ⟨-, h⟩ := ok_of_check h
  obtain ⟨-, h⟩ := ok_of_check h
  split at h
  · cases h
  split at h
  · cases h
  next hfirst =>
  rw [List.findIdx?_eq_none_iff] at hfirst
  intro t ht
  have hhead := hfirst t ht
  constructor <;> rintro rfl <;> exact absurd hhead (by decide)

variable {store : EntityStore} {k : String}

/-- A scan selects what goes on after the prefix. -/
theorem mem_keysByPrefix (hne : idPrefix ≠ "") (hvalid : validateEntityIDPrefix idPrefix = .ok ()) :
    k ∈ store.keysByPrefix (prefixDot idPrefix) ↔ k ∈ store.rows.items.map Prod.fst ∧
      ∃ rest, rest ≠ [] ∧ tokens k = tokens idPrefix ++ rest := by
  have hfilter : tokens (prefixDot idPrefix ++ ">") = tokens idPrefix ++ [['>']] := by
    rw [prefixDot, if_neg hne, tokens_append_dot]
    rfl
  rw [keysByPrefix, mem_filter, subjectSelects, hfilter,
    filterSelects_literals_rest (literal_of_validateEntityIDPrefix hvalid)]

theorem keysByPrefix_empty (store : EntityStore) :
    store.keysByPrefix (prefixDot "") = store.rows.items.map Prod.fst := by
  refine filter_eq_self.2 fun k _ => ?_
  have hfilter : tokens (prefixDot "" ++ ">") = [['>']] := by decide
  exact filterSelects_rest (tokens_ne_nil k)

/-- **Every entity under the prefix is scanned**, where only entities are. -/
theorem mem_scanKeys (hvalid : idPrefix = "" ∨ validateEntityIDPrefix idPrefix = .ok ())
    (hkeys : ∀ k ∈ scanKeys store idPrefix, isValidEntityID k) (he : e ∈ store.entities)
    (hunder : Under idPrefix e.id) : e.id ∈ scanKeys store idPrefix := by
  obtain ⟨_, hrow, rfl, -⟩ := exists_row he
  have hkey : e.id ∈ store.rows.items.map Prod.fst := List.mem_map_of_mem hrow
  have hread : (store.read e.id).isSome := by
    have hlookup : store.rows.lookup e.id = some (e.id, some e) := Window.lookup_of_mem hrow
    rw [EntityStore.read, hlookup]
    rfl
  have hsix : ∀ {k : String}, isValidEntityID k → (tokens k).length = canonicalEntityIDParts :=
    fun h => (keyTokens_entityID h).length
  by_cases hne : idPrefix = ""
  · subst hne
    have hscan : scanKeys store "" = store.rows.items.map Prod.fst := by
      rw [scanKeys, keysByPrefix_empty]
      simp
    exact hscan ▸ hkey
  obtain ⟨rest, hrest⟩ := hunder.resolve_left hne
  have hselects := fun k => @mem_keysByPrefix idPrefix store k hne (hvalid.resolve_left hne)
  unfold scanKeys at hkeys ⊢
  dsimp only at hkeys ⊢
  split
  · next hnone =>
    cases rest with
    | nil =>
      rw [append_nil, tokens_inj] at hrest
      rw [hrest, if_pos hread]
      exact mem_singleton_self _
    | cons t rest =>
      have hmem := (hselects e.id).2 ⟨hkey, t :: rest, by simp, hrest.symm⟩
      rw [hnone.2] at hmem
      cases hmem
  · next hsome =>
    rw [if_neg hsome] at hkeys
    refine (hselects e.id).2 ⟨hkey, rest, ?_, hrest.symm⟩
    rintro rfl
    -- a key beyond the prefix would have more than six segments
    rw [append_nil, tokens_inj] at hrest
    subst hrest
    obtain ⟨k, hk⟩ := exists_mem_of_ne_nil _ fun hnil => hsome ⟨hne, hnil⟩
    obtain ⟨-, more, hmore, heq⟩ := (hselects k).1 hk
    have hlength := congrArg List.length heq
    rw [length_append, hsix (hkeys k hk), hsix (valid_of_mem_entities he)] at hlength
    exact hmore (length_eq_zero_iff.1 (by omega))

theorem valid_of_follow (h : q.follow serving idPrefix limit fuel n cursor = some (.ok pages)) :
    idPrefix = "" ∨ validateEntityIDPrefix idPrefix = .ok () := by
  cases fuel with
  | zero => cases h
  | succ fuel =>
    rw [PrefixQuery.follow] at h
    split at h
    · cases h
    · next hpage =>
      obtain ⟨-, hpage⟩ := ok_of_check hpage
      split at hpage
      · cases hpage
      · next hvalid =>
        split at hvalid
        · next hempty => exact .inl hempty
        · exact .inr hvalid

/-- **Pagination is complete and bounded.** Following the cursor ends; and if no
page fails, the pages are the entities under the prefix, each once and in
ascending order, and none is longer than the maximum payload. -/
theorem pagination_complete (q : PrefixQuery) (serving : ℕ → Serving) (idPrefix : String) (limit : ℤ)
    (extra : ℕ) :
    ∃ outcome, q.follow serving idPrefix limit (q.store.rows.items.length + 1 + extra) 0 "" =
        some outcome ∧
      ∀ pages, outcome = .ok pages →
        (pages.flatMap PrefixPage.entities).Pairwise (fun a b => keyRank a.id < keyRank b.id) ∧
        (∀ e, e ∈ pages.flatMap PrefixPage.entities ↔ e ∈ q.store.entities ∧ Under idPrefix e.id) ∧
        ∀ page ∈ pages, (page.encoded.length : ℤ) ≤ q.maxPayload := by
  obtain ⟨hnodup, hstored⟩ := scanKeys_spec q.store idPrefix
  have hlength : (sortKeys (scanKeys q.store idPrefix)).length ≤ q.store.rows.items.length := by
    have hle := (subperm_of_subset hnodup hstored).length_le
    rw [length_map] at hle
    rw [sortKeys, length_insertionSort]
    exact hle
  obtain ⟨outcome, hfollow, hpages⟩ := @follow_rest q serving idPrefix limit []
    (sortKeys (scanKeys q.store idPrefix)) (q.store.rows.items.length + 1 + extra) 0 "" rfl rfl
    (by omega)
  refine ⟨outcome, hfollow, fun pages hok => ?_⟩
  subst hok
  obtain ⟨hids, hentities, hencoded⟩ := hpages pages rfl
  have hvalid := valid_of_follow hfollow
  have hkeys : ∀ k ∈ scanKeys q.store idPrefix, ∃ e ∈ pages.flatMap PrefixPage.entities, e.id = k := by
    intro k hk
    rw [← mem_sortKeys, ← hids] at hk
    exact List.mem_map.1 hk
  refine ⟨?_, fun e => ⟨fun he => ⟨hentities e he, ?_⟩, ?_⟩, hencoded⟩
  · have hascending := ascending_sortKeys hnodup
    rw [← hids, Ascending, pairwise_map] at hascending
    exact hascending
  · have hmem : e.id ∈ sortKeys (scanKeys q.store idPrefix) := hids ▸ List.mem_map_of_mem he
    have h := mem_sortKeys.1 hmem
    by_cases hne : idPrefix = ""
    · exact .inl hne
    refine .inr ?_
    simp only [scanKeys] at h
    split at h
    · split at h
      · obtain rfl := mem_singleton.1 h
        exact prefix_rfl
      · cases h
    · obtain ⟨-, rest, -, heq⟩ := (mem_keysByPrefix hne (hvalid.resolve_left hne)).1 h
      exact ⟨rest, heq.symm⟩
  · rintro ⟨he, hunder⟩
    have hmem := mem_scanKeys hvalid (fun k hk => by
      obtain ⟨e', he', rfl⟩ := hkeys k hk
      exact valid_of_mem_entities (hentities e' he')) he hunder
    obtain ⟨e', he', hid⟩ := hkeys e.id hmem
    exact eq_of_id_eq (hentities e' he') he hid ▸ he'

/-! ## Three drones -/

def bareEntity (id : String) : EntityState := ⟨id, [], none, ⟨"core", "entity", "v1"⟩, 1, 0⟩

def bareRow (id : String) : StoredRow := (id, some (bareEntity id))

/-- Three drones and a sensor, an entity taking forty bytes. -/
def drones : PrefixQuery where
  store :=
    { rows := ⟨["acme.ops.air.gcs.drone.c", "acme.ops.air.gcs.drone.a", "acme.ops.sea.gcs.sensor.x",
        "acme.ops.air.gcs.drone.b"].map bareRow, by decide⟩
      own := by decide
      named := by decide }
  marshal := fun _ => some (List.replicate 40 0)
  maxPayload := 160

theorem pagination_complete_drones :
    ∃ pages, drones.follow (fun n => ⟨true, fun id => n = 1 && id = "acme.ops.air.gcs.drone.b"⟩)
        "acme.ops.air" 2 5 0 "" = some (.ok pages) ∧
      pages.map (fun page => page.entities.map EntityState.id) =
        [["acme.ops.air.gcs.drone.a", "acme.ops.air.gcs.drone.b"], ["acme.ops.air.gcs.drone.c"]] ∧
      (∀ e, e ∈ pages.flatMap PrefixPage.entities ↔
        e ∈ drones.store.entities ∧ Under "acme.ops.air" e.id) ∧
      ∀ page ∈ pages, (page.encoded.length : ℤ) ≤ 160 := by
  obtain ⟨outcome, hfollow, hpages⟩ := pagination_complete drones
    (fun n => ⟨true, fun id => n = 1 && id = "acme.ops.air.gcs.drone.b"⟩) "acme.ops.air" 2 0
  have hids : (drones.follow (fun n => ⟨true, fun id => n = 1 && id = "acme.ops.air.gcs.drone.b"⟩)
      "acme.ops.air" 2 5 0 "").map (Except.map (List.map fun page =>
        page.entities.map EntityState.id)) = some (.ok [["acme.ops.air.gcs.drone.a",
          "acme.ops.air.gcs.drone.b"], ["acme.ops.air.gcs.drone.c"]]) := by decide +kernel
  obtain ⟨outcome', hfollow', hids⟩ := map_eq_some_iff.1 hids
  obtain rfl : outcome' = outcome := Option.some.inj (hfollow'.symm.trans hfollow)
  cases outcome' with
  | error err => cases hids
  | ok pages =>
    obtain ⟨-, hmem, hbound⟩ := hpages pages rfl
    exact ⟨pages, hfollow', Except.ok.inj hids, hmem, hbound⟩

end SemStreams.GraphIngest
