import SemStreams.Graph.Contract
import SemStreams.Lib.Run
import Mathlib.Data.List.Nodup
/-!
# graph-ingest — suffix resolution

A suffix query resolves the last segments of an id to an entity. It asks a cache,
then an index bucket, then scans all keys, and what it finds goes back into the
index and the cache. A commit writes the index under the last segment and under
the last two, and a deletion takes exactly these two keys out of the index and
the cache.

The cache holds answers under whatever suffix was asked. An answer under three or
more segments outlives its entity.
-/

namespace SemStreams.GraphIngest

open SemStreams.Graph List Function Option

/-- The keys of the entity bucket, the suffix index and the suffix cache. -/
structure Suffixes where
  entities : List String
  index : String → Option String
  cache : String → Option String

/-- `entitySuffixKeys`: the last segment, and the last two. -/
def entitySuffixKeys (entityID : String) : String × String :=
  match (tokens entityID).reverse with
  | b :: a :: _ => (String.ofList b, String.ofList a ++ "." ++ String.ofList b)
  | _ => (entityID, "")

/-- A map with one key written, unless the key is empty. -/
def writeKey (f : String → Option String) (key : String) (value : Option String) :
    String → Option String :=
  if key ≠ "" then update f key value else f

/-- A map with both suffix keys of an entity written. -/
def writeSuffixKeys (f : String → Option String) (entityID : String) (value : Option String) :
    String → Option String :=
  writeKey (writeKey f (entitySuffixKeys entityID).1 value) (entitySuffixKeys entityID).2 value

namespace Suffixes

def updateSuffixIndex (s : Suffixes) (entityID : String) : Suffixes :=
  { s with index := writeSuffixKeys s.index entityID (some entityID) }

def removeSuffixIndex (s : Suffixes) (entityID : String) : Suffixes :=
  { s with
    index := writeSuffixKeys s.index entityID none
    cache := writeSuffixKeys s.cache entityID none }

/-- `suffixFallbackScan` over the keys in the order they were listed. -/
def suffixFallbackScan (keys : List String) (suffix : String) : String :=
  (keys.find? fun key => ("." ++ suffix).toList.isSuffixOf key.toList || key = suffix).getD ""

/-- The texts the index bucket takes for a key. -/
def kvKeyValid (key : String) : Bool :=
  key.toList.head? ≠ some '.' && key.toList.getLast? ≠ some '.' &&
    key.toList.all fun c => c.isAlphanum || c = '-' || c = '/' || c = '_' || c = '=' || c = '.'

inductive SuffixQueryError
  | emptySuffix
  | transient
deriving DecidableEq

/-- `handleQuerySuffixNATS`: cache, index, scan. -/
def handleQuerySuffix (s : Suffixes) (suffix : String) (keys : List String) :
    Except SuffixQueryError String × Suffixes :=
  if suffix = "" then (.error .emptySuffix, s)
  else
    match s.cache suffix with
    | some fullID => (.ok fullID, s)
    | none =>
      if !kvKeyValid suffix then (.error .transient, s)
      else
        let indexed := (s.index suffix).getD ""
        if indexed ≠ "" then
          (.ok indexed, { s with cache := update s.cache suffix (some indexed) })
        else
          let matchedID := suffixFallbackScan keys suffix
          if matchedID ≠ "" then
            let s := s.updateSuffixIndex matchedID
            (.ok matchedID, { s with cache := update s.cache suffix (some matchedID) })
          else (.ok matchedID, s)

/-- An entity is created or merged into, or deleted; a suffix is asked for, with
the keys as a scan would list them; an entry of the cache expires. -/
inductive Event
  | commit (entityID : String)
  | delete (entityID : String)
  | query (suffix : String) (keys : List String)
  | expire (suffix : String)

def step (s : Suffixes) : Event → Option Suffixes
  | .commit entityID =>
    if isValidEntityID entityID then
      let entities := if entityID ∈ s.entities then s.entities else s.entities ++ [entityID]
      some (updateSuffixIndex { s with entities := entities } entityID)
    else none
  | .delete entityID =>
    if entityID ∈ s.entities then
      some (removeSuffixIndex { s with entities := s.entities.erase entityID } entityID)
    else none
  | .query suffix keys =>
    if keys.isPerm s.entities then some (s.handleQuerySuffix suffix keys).2 else none
  | .expire suffix => some { s with cache := update s.cache suffix none }

end Suffixes

/-! ## Suffix keys -/

variable {id k : String}

/-- The id ends with the segments of the suffix. -/
def EndsWith (id suffix : String) : Prop := tokens suffix <:+ tokens id

theorem EndsWith.suffix_ne_empty (hid : isValidEntityID id) (h : EndsWith id k) : k ≠ "" := by
  rintro rfl
  have hempty : [] ∈ tokens "" := by decide
  exact ((keyTokens_entityID hid).plain [] (h.subset hempty)).1 rfl

theorem id_ne_empty (h : isValidEntityID id) : id ≠ "" :=
  EndsWith.suffix_ne_empty h suffix_rfl

/-- **The keys of an entity are its suffixes of one and of two segments.** -/
theorem mem_entitySuffixKeys (h : isValidEntityID id) :
    k = (entitySuffixKeys id).1 ∨ k = (entitySuffixKeys id).2 ↔
      EndsWith id k ∧ (tokens k).length ≤ 2 := by
  have hkey := keyTokens_entityID h
  have hlength : (tokens id).reverse.length = canonicalEntityIDParts := by
    rw [length_reverse, hkey.length]
  have hone : ∀ t ∈ tokens id, tokens (String.ofList t) = [t] := by
    intro t ht
    rw [tokens_eq_singleton, String.toList_ofList]
    rw [String.toList_ofList]
    intro hdot
    exact absurd ((hkey.plain t ht).2 '.' hdot) (by decide)
  match hrev : (tokens id).reverse with
  | [] =>
    rw [hrev] at hlength
    cases hlength
  | [_] =>
    rw [hrev] at hlength
    cases hlength
  | b :: a :: rest =>
    have htokens : tokens id = rest.reverse ++ [a, b] := by
      rw [← reverse_reverse (tokens id), hrev]
      simp
    have ha := hone a (by simp [htokens])
    have hb := hone b (by simp [htokens])
    have hinstance : tokens (entitySuffixKeys id).1 = [b] := by
      rw [entitySuffixKeys, hrev, hb]
    have htype : tokens (entitySuffixKeys id).2 = [a, b] := by
      rw [entitySuffixKeys, hrev, tokens_append_dot, ha, hb]
      rfl
    rw [← tokens_inj, hinstance, ← tokens_inj, htype, EndsWith, htokens]
    constructor
    · rintro (hk | hk)
      · exact ⟨hk ▸ ⟨rest.reverse ++ [a], by simp⟩, by simp [hk]⟩
      · exact ⟨hk ▸ ⟨rest.reverse, rfl⟩, by simp [hk]⟩
    · rintro ⟨⟨_, hfront⟩, hle⟩
      match hk : tokens k, tokens_ne_nil k with
      | [x], _ =>
        rw [hk] at hfront
        have := congrArg List.getLast? hfront
        simp at this
        exact .inl (by rw [this])
      | [x, y], _ =>
        rw [hk] at hfront
        exact .inr (append_inj' hfront rfl).2
      | _ :: _ :: _ :: _, _ =>
        rw [hk] at hle
        simp at hle

theorem writeKey_apply (hk : k ≠ "") :
    writeKey f key v k = if k = key then v else f k := by
  unfold writeKey
  by_cases hkey : key = ""
  · rw [if_neg (by simpa using hkey), if_neg (fun h => hk (h.trans hkey))]
  · rw [if_pos hkey]
    by_cases heq : k = key
    · rw [heq, update_self, if_pos rfl]
    · rw [update_of_ne heq, if_neg heq]

/-- A key that stands for a suffix is written exactly if it has one or two segments
and the entity ends with it. -/
theorem writeSuffixKeys_apply (hid : isValidEntityID id) (hk : k ≠ "") :
    writeSuffixKeys f id v k = v ∧ EndsWith id k ∧ (tokens k).length ≤ 2 ∨
      writeSuffixKeys f id v k = f k ∧ ¬ (EndsWith id k ∧ (tokens k).length ≤ 2) := by
  rw [← mem_entitySuffixKeys hid, writeSuffixKeys, writeKey_apply hk, writeKey_apply hk]
  by_cases h₂ : k = (entitySuffixKeys id).2
  · exact .inl ⟨if_pos h₂, .inr h₂⟩
  · by_cases h₁ : k = (entitySuffixKeys id).1
    · exact .inl ⟨by rw [if_neg h₂, if_pos h₁], .inl h₁⟩
    · exact .inr ⟨by rw [if_neg h₂, if_neg h₁], by tauto⟩

/-! ## What every reachable state keeps -/

namespace Suffixes

/-- The index holds suffixes of one or two segments and entities that exist; the
cache holds suffixes of its ids, and only under three or more segments one whose
entity is gone. -/
structure Sound (s : Suffixes) : Prop where
  nodup : s.entities.Nodup
  valid : ∀ id ∈ s.entities, isValidEntityID id = true
  index : ∀ k id, k ≠ "" → s.index k = some id →
    id ∈ s.entities ∧ EndsWith id k ∧ (tokens k).length ≤ 2
  cached : ∀ k id, k ≠ "" → s.cache k = some id →
    isValidEntityID id = true ∧ EndsWith id k ∧ (id ∈ s.entities ∨ 2 < (tokens k).length)

variable {s : Suffixes} {entityID suffix : String} {keys : List String}

theorem sound_empty : Sound ⟨[], fun _ => none, fun _ => none⟩ :=
  ⟨nodup_nil, by simp, by simp, by simp⟩

theorem Sound.updateSuffixIndex (hs : s.Sound) (hmem : entityID ∈ s.entities) :
    (s.updateSuffixIndex entityID).Sound where
  __ := hs
  index := by
    intro k id hk h
    rcases writeSuffixKeys_apply (hs.valid entityID hmem) hk with ⟨heq, hends⟩ | ⟨heq, -⟩
    · obtain rfl := Option.some.inj (heq.symm.trans h)
      exact ⟨hmem, hends⟩
    · exact hs.index k id hk (heq.symm.trans h)

/-- A cache that takes an entity under one of its suffixes. -/
theorem Sound.cache (hs : s.Sound) (hmem : entityID ∈ s.entities) (hends : EndsWith entityID suffix) :
    Sound { s with cache := update s.cache suffix (some entityID) } where
  __ := hs
  cached := by
    intro k id hk h
    by_cases heq : k = suffix
    · subst heq
      dsimp only at h
      rw [update_self] at h
      cases h
      exact ⟨hs.valid _ hmem, hends, .inl hmem⟩
    · dsimp only at h
      rw [update_of_ne heq] at h
      exact hs.cached k id hk h

theorem Sound.commit (hs : s.Sound) (hvalid : isValidEntityID entityID) :
    Sound { s with entities :=
      if entityID ∈ s.entities then s.entities else s.entities ++ [entityID] } := by
  split
  · exact hs
  next hnew =>
  refine ⟨?_, ?_, fun k id hk h => ?_, fun k id hk h => ?_⟩
  · exact nodup_append.2 ⟨hs.nodup, nodup_singleton _, by
      rintro x hx _ hy rfl
      exact hnew (mem_singleton.1 hy ▸ hx)⟩
  · intro id hid
    rcases mem_append.1 hid with hid | hid
    · exact hs.valid id hid
    · exact mem_singleton.1 hid ▸ hvalid
  · obtain ⟨hid, hends⟩ := hs.index k id hk h
    exact ⟨mem_append_left _ hid, hends⟩
  · obtain ⟨hid, hends, hlive⟩ := hs.cached k id hk h
    exact ⟨hid, hends, hlive.imp_left (mem_append_left _)⟩

/-- **A deletion takes out every short suffix of its entity.** -/
theorem Sound.delete (hs : s.Sound) (hmem : entityID ∈ s.entities) :
    (removeSuffixIndex { s with entities := s.entities.erase entityID } entityID).Sound where
  nodup := hs.nodup.erase entityID
  valid := fun id hid => hs.valid id (mem_of_mem_erase hid)
  index := by
    intro k id hk h
    rcases writeSuffixKeys_apply (hs.valid entityID hmem) hk with ⟨heq, -⟩ | ⟨heq, hother⟩
    · cases heq.symm.trans h
    · obtain ⟨hid, hshort⟩ := hs.index k id hk (heq.symm.trans h)
      have hne : id ≠ entityID := by
        rintro rfl
        exact hother hshort
      exact ⟨(mem_erase_of_ne hne).2 hid, hshort⟩
  cached := by
    intro k id hk h
    rcases writeSuffixKeys_apply (hs.valid entityID hmem) hk with ⟨heq, -⟩ | ⟨heq, hother⟩
    · cases heq.symm.trans h
    · obtain ⟨hid, hends, hlive⟩ := hs.cached k id hk (heq.symm.trans h)
      refine ⟨hid, hends, ?_⟩
      by_cases hlong : 2 < (tokens k).length
      · exact .inr hlong
      have hne : id ≠ entityID := by
        rintro rfl
        exact hother ⟨hends, by omega⟩
      exact .inl ((mem_erase_of_ne hne).2 (hlive.resolve_right hlong))

theorem suffixFallbackScan_spec (keys : List String) (suffix : String) :
    suffixFallbackScan keys suffix ∈ keys ∧ EndsWith (suffixFallbackScan keys suffix) suffix ∨
      suffixFallbackScan keys suffix = "" ∧ ∀ id ∈ keys, ¬ EndsWith id suffix := by
  have hmatch : ∀ key : String, (("." ++ suffix).toList.isSuffixOf key.toList || key = suffix) =
      true ↔ EndsWith key suffix := by
    intro key
    rw [EndsWith, tokens_suffix_iff, Bool.or_eq_true, isSuffixOf_iff_suffix, decide_eq_true_eq,
      or_comm]
    refine or_congr_right ⟨?_, ?_⟩
    · rintro ⟨front, hfront⟩
      refine ⟨String.ofList front, String.toList_inj.1 ?_⟩
      simp [← hfront]
    · rintro ⟨front, rfl⟩
      exact ⟨front.toList, by simp⟩
  unfold suffixFallbackScan
  cases hfind : keys.find? fun key =>
      ("." ++ suffix).toList.isSuffixOf key.toList || key = suffix with
  | none =>
    refine .inr ⟨rfl, fun id hid hends => ?_⟩
    exact List.find?_eq_none.1 hfind id hid ((hmatch id).2 hends)
  | some key =>
    have hkey := List.find?_some hfind
    exact .inl ⟨mem_of_find?_eq_some hfind, (hmatch key).1 hkey⟩

/-- **The right answer**: an entity that ends with the suffix, or nothing where
there is none. -/
def Resolved (s : Suffixes) (suffix answer : String) : Prop :=
  (answer ∈ s.entities ∧ EndsWith answer suffix) ∨
    (answer = "" ∧ ∀ id ∈ s.entities, ¬ EndsWith id suffix)

/-- What a query does: an error, an answer of the cache, or a right answer. -/
theorem Sound.query (hs : s.Sound) (hkeys : keys.isPerm s.entities) :
    (s.handleQuerySuffix suffix keys).2.Sound ∧
      ∀ answer, (s.handleQuerySuffix suffix keys).1 = .ok answer →
        suffix ≠ "" ∧ (s.cache suffix = some answer ∨
          s.cache suffix = none ∧ Resolved s suffix answer) := by
  have hperm := isPerm_iff.1 hkeys
  have hscan := suffixFallbackScan_spec keys suffix
  unfold handleQuerySuffix
  split
  · exact ⟨hs, nofun⟩
  next hne =>
  split
  · next _ hcache => exact ⟨hs, fun answer h => ⟨hne, .inl (by rw [hcache, Except.ok.inj h])⟩⟩
  next hcache =>
  split
  · exact ⟨hs, nofun⟩
  dsimp only
  split
  · next hindexed =>
    obtain ⟨id, hid⟩ : ∃ id, s.index suffix = some id := by
      cases h : s.index suffix with
      | none => exact absurd (by rw [h]; rfl) hindexed
      | some id => exact ⟨id, rfl⟩
    obtain ⟨hmem, hends, -⟩ := hs.index suffix id hne hid
    rw [hid, getD_some]
    refine ⟨hs.cache hmem hends, fun answer h => ⟨hne, .inr ⟨hcache, ?_⟩⟩⟩
    obtain rfl := Except.ok.inj h
    exact .inl ⟨hmem, hends⟩
  · rcases hscan with ⟨hmem, hends⟩ | ⟨hempty, hnone⟩
    · have hmem := hperm.mem_iff.1 hmem
      rw [if_pos (id_ne_empty (hs.valid _ hmem))]
      refine ⟨(hs.updateSuffixIndex hmem).cache hmem hends, fun answer h => ⟨hne, .inr ⟨hcache, ?_⟩⟩⟩
      obtain rfl := Except.ok.inj h
      exact .inl ⟨hmem, hends⟩
    · rw [if_neg (by simpa using hempty)]
      refine ⟨hs, fun answer h => ⟨hne, .inr ⟨hcache, ?_⟩⟩⟩
      obtain rfl := Except.ok.inj h
      exact .inr ⟨hempty, fun id hid => hnone id (hperm.mem_iff.2 hid)⟩

theorem Sound.step (hs : s.Sound) (h : step s e = some s') : s'.Sound := by
  cases e with (simp only [Suffixes.step] at h; (try split at h <;> try contradiction); try cases h)
  | commit entityID =>
    rename_i hvalid
    refine (hs.commit hvalid).updateSuffixIndex ?_
    split
    · assumption
    · exact mem_append_right _ (mem_singleton_self _)
  | delete entityID =>
    rename_i hmem
    exact hs.delete hmem
  | query suffix keys =>
    rename_i hkeys
    exact (hs.query hkeys).1
  | expire suffix =>
    refine { hs with cached := fun k id hk hcache => ?_ }
    dsimp only at hcache
    by_cases heq : k = suffix
    · subst heq
      rw [update_self] at hcache
      cases hcache
    · rw [update_of_ne heq] at hcache
      exact hs.cached k id hk hcache

/-- **A query answers right exactly if the cache holds no answer under the suffix
whose entity is gone**; and it never does under one or two segments. -/
theorem resolved_iff {s₀ : Suffixes} {es : List Event} (hstart : s₀.Sound)
    (hrun : run Suffixes.step s₀ es = some s) (hkeys : keys.isPerm s.entities = true)
    {answer : String} (h : (s.handleQuerySuffix suffix keys).1 = .ok answer) :
    (Resolved s suffix answer ↔ ∀ id, s.cache suffix = some id → id ∈ s.entities) ∧
      ((tokens suffix).length ≤ 2 → Resolved s suffix answer) := by
  have hs : s.Sound := run_invariant (fun _ _ _ hs h => hs.step h) hstart hrun
  obtain ⟨hne, hcache | ⟨hcache, hresolved⟩⟩ := (hs.query hkeys).2 answer h
  · obtain ⟨hid, hends, hlive⟩ := hs.cached suffix answer hne hcache
    have hiff : Resolved s suffix answer ↔ ∀ id, s.cache suffix = some id → id ∈ s.entities := by
      constructor
      · rintro (⟨hmem, -⟩ | ⟨hempty, -⟩) id hcache'
        · exact Option.some.inj (hcache.symm.trans hcache') ▸ hmem
        · exact absurd hempty (id_ne_empty hid)
      · intro hall
        exact .inl ⟨hall answer hcache, hends⟩
    refine ⟨hiff, fun hshort => .inl ⟨hlive.resolve_right (by omega), hends⟩⟩
  · refine ⟨iff_of_true hresolved ?_, fun _ => hresolved⟩
    rw [hcache]
    simp

/-- The life of a sensor that is asked for by one segment. -/
def sensorLife : List Event :=
  [.commit "acme.ops.gcs.env.temp.s1", .query "s1" ["acme.ops.gcs.env.temp.s1"],
    .delete "acme.ops.gcs.env.temp.s1"]

set_option maxRecDepth 20000 in
theorem resolved_iff_sensor :
    ∃ s, run Suffixes.step ⟨[], fun _ => none, fun _ => none⟩ sensorLife = some s ∧
      Resolved s "s1" "" ∧ ∀ id, s.cache "s1" = some id → id ∈ s.entities := by
  refine exists_end (P := fun s => [].isPerm s.entities ∧
    (s.handleQuerySuffix "s1" []).1 = .ok "") (by decide +kernel) ?_
  rintro s hrun ⟨hkeys, hanswer⟩
  have hright := (resolved_iff sound_empty hrun hkeys hanswer).2 (by decide)
  exact ⟨hright, (resolved_iff sound_empty hrun hkeys hanswer).1.1 hright⟩

set_option maxRecDepth 20000 in
/-- **A deleted entity is still the answer** to a suffix of three segments. -/
theorem deleted_still_resolved : ∃ s, run Suffixes.step ⟨[], fun _ => none, fun _ => none⟩
        [.commit "acme.ops.gcs.env.temp.s1", .query "env.temp.s1" ["acme.ops.gcs.env.temp.s1"],
          .delete "acme.ops.gcs.env.temp.s1"] = some s ∧
      s.entities = [] ∧
      (s.handleQuerySuffix "env.temp.s1" []).1 = .ok "acme.ops.gcs.env.temp.s1" ∧
      ¬ Resolved s "env.temp.s1" "acme.ops.gcs.env.temp.s1" := by
  refine exists_end (P := fun s => s.entities = [] ∧ (s.handleQuerySuffix "env.temp.s1" []).1 =
    .ok "acme.ops.gcs.env.temp.s1") (by decide +kernel) ?_
  rintro s - ⟨hnone, hanswer⟩
  refine ⟨hnone, hanswer, ?_⟩
  rintro (⟨hmem, -⟩ | ⟨hempty, -⟩)
  · rw [hnone] at hmem
    cases hmem
  · exact absurd hempty (by decide)

end Suffixes

end SemStreams.GraphIngest
