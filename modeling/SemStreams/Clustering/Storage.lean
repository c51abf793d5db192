import SemStreams.Clustering.Lpa
import SemStreams.Lib.Decimal
/-!
# graph/clustering — the community index

A run writes every community under `{level}.{id}` and the id of it under
`entity.{level}.{entity}` for each member, and then deletes every other key. A lookup
for an entity and a level reads the mapping of that level, but then searches for the
id from level zero upwards. So it answers for the level asked exactly if no lower level
has a community of the same id.
-/

namespace SemStreams.Clustering

open List AList

/-! ## Keys -/

def communityKey (level : ℤ) (id : String) : String := toString level ++ "." ++ id

def entityCommunityKey (level : ℤ) (entityID : String) : String :=
  "entity." ++ toString level ++ "." ++ entityID

section Keys

variable {level level' : ℤ} {id id' : String}

theorem toList_communityKey :
    (communityKey level id).toList = (toString level).toList ++ '.' :: id.toList := by
  simp [communityKey]

theorem toList_entityCommunityKey : (entityCommunityKey level id).toList =
      ['e', 'n', 't', 'i', 't', 'y'] ++ '.' :: (communityKey level id).toList := by
  simp [entityCommunityKey, communityKey]

theorem dot_notMem_toString (level : ℤ) : '.' ∉ (toString level).toList := by
  intro h
  rcases mem_toString_int h with h | h <;> exact absurd h (by decide)

theorem communityKey_inj : communityKey level id = communityKey level' id' ↔
    level = level' ∧ id = id' := by
  constructor
  · intro h
    have htext := congrArg String.toList h
    rw [toList_communityKey, toList_communityKey] at htext
    obtain ⟨hlevel, hid⟩ :=
      append_mark_inj (dot_notMem_toString level) (dot_notMem_toString level') htext
    exact ⟨toString_int_injective (String.toList_inj.1 hlevel), String.toList_inj.1 hid⟩
  · rintro ⟨rfl, rfl⟩
    rfl

theorem entityCommunityKey_inj : entityCommunityKey level id = entityCommunityKey level' id' ↔
    level = level' ∧ id = id' := by
  rw [← communityKey_inj, ← String.toList_inj, ← String.toList_inj, toList_entityCommunityKey,
    toList_entityCommunityKey]
  simp

theorem communityKey_ne_entityCommunityKey :
    communityKey level id ≠ entityCommunityKey level' id' := by
  intro h
  have htext := congrArg String.toList h
  rw [toList_communityKey, toList_entityCommunityKey] at htext
  -- what stands before the first dot is no number
  obtain ⟨hlevel, -⟩ := append_mark_inj (dot_notMem_toString level) (by decide) htext
  have hletter := @mem_toString_int level 'e' (by rw [hlevel]; simp)
  exact absurd hletter (by decide)

end Keys

/-! ## The index -/

/-- What stands under a key: a community, or the id of one. -/
inductive Entry
  | community (c : Community)
  | mapping (id : String)
deriving DecidableEq

/-- `COMMUNITY_INDEX`. -/
abbrev CommunityIndex := AList fun _ : String => Entry

inductive KVOp
  | put (key : String) (entry : Entry)
  | delete (key : String)

namespace KVOp

def key : KVOp → String
  | put key _ => key
  | delete key => key

/-- What stands under the key afterwards. -/
def left : KVOp → Option Entry
  | put _ entry => some entry
  | delete _ => none

def apply (index : CommunityIndex) : KVOp → CommunityIndex
  | put key entry => index.insert key entry
  | delete key => index.erase key

end KVOp

def saveCommunity (c : Community) : List KVOp :=
  .put (communityKey c.level c.id) (.community c) ::
    c.members.map fun e => .put (entityCommunityKey c.level e) (.mapping c.id)

def partitionKeys (cs : List Community) : List String :=
  cs.flatMap fun c => communityKey c.level c.id :: c.members.map (entityCommunityKey c.level)

/-- The order in which the bucket lists its keys. -/
structure Listing where
  order : List String → List String
  perm : ∀ keys, (order keys).Perm keys

/-- What the bucket answers to `Prune`: its keys in some order, and the deletes that fail.
A listing that fails is one of which every delete does. -/
structure Pruning extends Listing where
  failed : String → Bool

def prune (a : Pruning) (keep : List Community) (index : CommunityIndex) : List KVOp :=
  ((a.order index.keys).filter fun key => key ∉ partitionKeys keep && !a.failed key).map .delete

/-- The index after all communities are saved. -/
def savedIndex (cs : List Community) (index : CommunityIndex) : CommunityIndex :=
  (cs.flatMap saveCommunity).foldl KVOp.apply index

/-- **The index a run leaves.** -/
def indexAfter (a : Pruning) (cs : List Community) (index : CommunityIndex) : CommunityIndex :=
  (prune a cs (savedIndex cs index)).foldl KVOp.apply (savedIndex cs index)

/-! ## Lookups -/

inductive LookupError
  | idEmpty
  | entityIDEmpty
  | unmarshal
deriving DecidableEq

/-- The scan of `GetCommunity`, for so many levels. -/
def scanLevels (index : CommunityIndex) (id : String) :
    ℕ → ℤ → Except LookupError (Option Community)
  | 0, _ => .ok none
  | n + 1, level =>
    match index.lookup (communityKey level id) with
    | none => scanLevels index id n (level + 1)
    | some (.community c) => .ok (some c)
    | some (.mapping _) => .error .unmarshal

def getCommunity (index : CommunityIndex) (id : String) : Except LookupError (Option Community) :=
  if id = "" then .error .idEmpty else scanLevels index id maxCommunityLevels 0

/-- `GetEntityCommunity`. Under the key of a mapping there is never a community. -/
def getEntityCommunity (index : CommunityIndex) (entityID : String) (level : ℤ) :
    Except LookupError (Option Community) :=
  if entityID = "" then .error .entityIDEmpty
  else
    match index.lookup (entityCommunityKey level entityID) with
    | some (.mapping id) => getCommunity index id
    | some (.community _) | none => .ok none

def levelCommunity (cs : List Community) (e : String) (level : ℤ) : Option Community :=
  cs.find? fun c => c.level = level && e ∈ c.members

/-! ## What a run stores -/

section Writes

variable {index : CommunityIndex} {ops : List KVOp} {key : String}

theorem lookup_apply_self (op : KVOp) (index : CommunityIndex) :
    (KVOp.apply index op).lookup op.key = op.left := by
  cases op with
  | put key entry => exact lookup_insert index
  | delete key => exact lookup_erase key index

theorem lookup_apply_of_ne (h : op.key ≠ key) :
    (KVOp.apply index op).lookup key = index.lookup key := by
  cases op with
  | put key entry => exact lookup_insert_ne (Ne.symm h)
  | delete key => exact lookup_erase_ne (Ne.symm h)

/-- A key that is not written keeps what it has. -/
theorem lookup_foldl_of_ne (h : ∀ op ∈ ops, op.key ≠ key) :
    (ops.foldl KVOp.apply index).lookup key = index.lookup key := by
  induction ops generalizing index with
  | nil => rfl
  | cons op ops ih =>
    rw [foldl_cons, ih fun op' hop' => h op' (by simp [hop']), lookup_apply_of_ne (h op (by simp))]

/-- A key that is written, always the same way, has that. -/
theorem lookup_foldl_of_mem (hall : ∀ op ∈ ops, op.key = key → op.left = left)
    (hmem : ∃ op ∈ ops, op.key = key) : (ops.foldl KVOp.apply index).lookup key = left := by
  induction ops generalizing index with
  | nil => simp at hmem
  | cons op ops ih =>
    rw [foldl_cons]
    by_cases hrest : ∃ op' ∈ ops, op'.key = key
    · exact ih (fun op' hop' => hall op' (by simp [hop'])) hrest
    have hkey : op.key = key := by
      obtain ⟨op', hop', heq⟩ := hmem
      rcases mem_cons.1 hop' with rfl | hop'
      · exact heq
      · exact absurd ⟨op', hop', heq⟩ hrest
    rw [lookup_foldl_of_ne fun op' hop' heq => hrest ⟨op', hop', heq⟩]
    subst hkey
    rw [lookup_apply_self]
    exact hall op (by simp) rfl

end Writes

section Stored

variable {cs : List Community} {c c' : Community} {key : String}

/-- A level and an id name one community. -/
theorem IsPartition.eq_of_id (h : IsPartition cs) (hc : c ∈ cs) (hc' : c' ∈ cs)
    (hlevel : c.level = c'.level) (hid : c.id = c'.id) : c = c' := by
  by_contra hne
  have hpairs : cs.Pairwise fun c d => ¬ (c.level = d.level ∧ c.id = d.id) := by
    refine h.ordered.imp ?_
    rintro c d (hlt | ⟨-, hlt⟩) ⟨_, hi⟩
    · omega
    · exact absurd hi (ne_of_lt hlt)
  have : Std.Symm fun c d : Community => ¬ (c.level = d.level ∧ c.id = d.id) :=
    ⟨fun _ _ h heq => h ⟨heq.1.symm, heq.2.symm⟩⟩
  exact hpairs.forall hc hc' hne ⟨hlevel, hid⟩

theorem mem_partitionKeys : key ∈ partitionKeys cs ↔
    ∃ c ∈ cs, key = communityKey c.level c.id ∨
      ∃ e ∈ c.members, key = entityCommunityKey c.level e := by
  simp only [partitionKeys, mem_flatMap, mem_cons, List.mem_map]
  refine exists_congr fun c => and_congr_right fun _ => or_congr_right ?_
  exact exists_congr fun e => and_congr_right fun _ => eq_comm

variable {op : KVOp}

theorem mem_saves : op ∈ cs.flatMap saveCommunity ↔
    ∃ c ∈ cs, op = .put (communityKey c.level c.id) (.community c) ∨
      ∃ e ∈ c.members, op = .put (entityCommunityKey c.level e) (.mapping c.id) := by
  simp only [saveCommunity, mem_flatMap, mem_cons, List.mem_map]
  refine exists_congr fun c => and_congr_right fun _ => or_congr_right ?_
  exact exists_congr fun e => and_congr_right fun _ => eq_comm

theorem key_mem_of_save (h : op ∈ cs.flatMap saveCommunity) : op.key ∈ partitionKeys cs := by
  obtain ⟨c, hc, rfl | ⟨e, he, rfl⟩⟩ := mem_saves.1 h
  · exact mem_partitionKeys.2 ⟨c, hc, .inl rfl⟩
  · exact mem_partitionKeys.2 ⟨c, hc, .inr ⟨e, he, rfl⟩⟩

theorem lookup_saved_community (h : IsPartition cs) (hc : c ∈ cs) (index : CommunityIndex) :
    (savedIndex cs index).lookup (communityKey c.level c.id) = some (.community c) := by
  refine lookup_foldl_of_mem ?_ ⟨_, mem_saves.2 ⟨c, hc, .inl rfl⟩, rfl⟩
  intro _ hop heq
  obtain ⟨d, hd, rfl | ⟨e, -, rfl⟩⟩ := mem_saves.1 hop
  · obtain ⟨hlevel, hid⟩ := communityKey_inj.1 heq
    rw [h.eq_of_id hd hc hlevel hid]
    rfl
  · exact absurd heq.symm communityKey_ne_entityCommunityKey

theorem lookup_saved_mapping (h : IsPartition cs) (hc : c ∈ cs) (he : e ∈ c.members)
    (index : CommunityIndex) :
    (savedIndex cs index).lookup (entityCommunityKey c.level e) = some (.mapping c.id) := by
  refine lookup_foldl_of_mem ?_ ⟨_, mem_saves.2 ⟨c, hc, .inr ⟨e, he, rfl⟩⟩, rfl⟩
  intro _ hop heq
  obtain ⟨d, hd, rfl | ⟨_, he', rfl⟩⟩ := mem_saves.1 hop
  · exact absurd heq communityKey_ne_entityCommunityKey
  · obtain ⟨hlevel, rfl⟩ := entityCommunityKey_inj.1 heq
    rw [h.disjoint d hd c hc hlevel _ he' he]
    rfl

theorem lookup_saved_of_notMem (hkey : key ∉ partitionKeys cs) (index : CommunityIndex) :
    (savedIndex cs index).lookup key = index.lookup key := by
  refine lookup_foldl_of_ne ?_
  rintro _ hop rfl
  exact hkey (key_mem_of_save hop)

variable {a : Pruning} {index : CommunityIndex}

theorem mem_prune : op ∈ prune a cs index ↔
    ∃ key ∈ index, key ∉ partitionKeys cs ∧ a.failed key = false ∧ op = .delete key := by
  simp only [prune, List.mem_map, mem_filter, (a.perm _).mem_iff, ← AList.mem_keys]
  simp only [Bool.and_eq_true, decide_eq_true_eq, Bool.not_eq_true']
  tauto

/-- Pruning leaves what the partition owns. -/
theorem lookup_indexAfter_of_mem (hkey : key ∈ partitionKeys cs) :
    (indexAfter a cs index).lookup key = (savedIndex cs index).lookup key := by
  refine lookup_foldl_of_ne ?_
  rintro _ hop rfl
  obtain ⟨key, -, hnot, -, rfl⟩ := mem_prune.1 hop
  exact hnot hkey

/-- Of what it does not own, what could not be deleted is left. -/
theorem lookup_indexAfter_of_notMem (hkey : key ∉ partitionKeys cs) :
    (indexAfter a cs index).lookup key = if a.failed key then index.lookup key else none := by
  rw [← lookup_saved_of_notMem hkey index]
  split
  · next hfailed =>
    refine lookup_foldl_of_ne ?_
    rintro op hop rfl
    obtain ⟨key, -, -, hdone, rfl⟩ := mem_prune.1 hop
    exact absurd hfailed (by simp [KVOp.key, hdone])
  · next hdone =>
    by_cases hstored : key ∈ savedIndex cs index
    · refine lookup_foldl_of_mem ?_ ⟨.delete key, mem_prune.2 ⟨key, hstored, hkey, by simpa using hdone,
        rfl⟩, rfl⟩
      rintro op hop -
      obtain ⟨key, -, -, -, rfl⟩ := mem_prune.1 hop
      rfl
    · rw [← lookup_eq_none] at hstored
      rw [indexAfter, lookup_foldl_of_ne, hstored]
      rintro op hop rfl
      obtain ⟨key, hmem, -, -, rfl⟩ := mem_prune.1 hop
      rw [lookup_eq_none] at hstored
      exact hstored hmem

end Stored

/-! ## What a lookup finds -/

section Lookup

variable {cs : List Community} {c : Community} {index : CommunityIndex}

/-- The index holds the partition and nothing else. -/
structure Stores (index : CommunityIndex) (cs : List Community) : Prop where
  community : ∀ c ∈ cs, index.lookup (communityKey c.level c.id) = some (.community c)
  mapping : ∀ c ∈ cs, ∀ e ∈ c.members,
    index.lookup (entityCommunityKey c.level e) = some (.mapping c.id)
  key_mem : ∀ key ∈ index, key ∈ partitionKeys cs

/-- What is stored under the key of a community is that community. -/
theorem Stores.of_lookup (h : Stores index cs) {level : ℤ} {id : String} {entry : Entry}
    (hentry : index.lookup (communityKey level id) = some entry) :
    ∃ c ∈ cs, c.level = level ∧ c.id = id ∧ entry = .community c := by
  have hmem : communityKey level id ∈ index := by
    rw [← lookup_isSome, hentry]
    rfl
  obtain ⟨c, hc, heq | ⟨e, -, heq⟩⟩ := mem_partitionKeys.1 (h.key_mem _ hmem)
  · obtain ⟨rfl, rfl⟩ := communityKey_inj.1 heq
    rw [h.community c hc, Option.some.injEq] at hentry
    exact ⟨c, hc, rfl, rfl, hentry.symm⟩
  · exact absurd heq communityKey_ne_entityCommunityKey

/-- **The scan stops at the lowest level that has the id.** -/
theorem Stores.scanLevels_eq (h : Stores index cs) {n : ℕ} {level : ℤ} (hc : c ∈ cs)
    (hle : level ≤ c.level) (hlt : c.level < level + n) :
    ∃ d ∈ cs, scanLevels index c.id n level = .ok (some d) ∧ d.id = c.id ∧ d.level ≤ c.level := by
  induction n generalizing level with
  | zero => omega
  | succ n ih =>
    rw [scanLevels]
    cases hentry : index.lookup (communityKey level c.id) with
    | none =>
      have hne : level ≠ c.level := by
        rintro rfl
        rw [h.community c hc] at hentry
        exact nomatch hentry
      exact ih (by omega) (by omega)
    | some entry =>
      obtain ⟨d, hd, rfl, hid, rfl⟩ := h.of_lookup hentry
      exact ⟨d, hd, rfl, hid, hle⟩

variable {e : String}

theorem levelCommunity_eq_none :
    levelCommunity cs e level = none ↔ ∀ c ∈ cs, c.level = level → e ∉ c.members := by
  rw [levelCommunity, List.find?_eq_none]
  simp

theorem mem_of_levelCommunity (h : levelCommunity cs e level = some c) :
    c ∈ cs ∧ c.level = level ∧ e ∈ c.members :=
  ⟨mem_of_find?_eq_some h, by simpa using List.find?_some h⟩

theorem IsPartition.levelCommunity_eq (h : IsPartition cs) (hc : c ∈ cs) (he : e ∈ c.members) :
    levelCommunity cs e c.level = some c := by
  cases hfind : levelCommunity cs e c.level with
  | none => exact absurd he (levelCommunity_eq_none.1 hfind c hc rfl)
  | some d =>
    obtain ⟨hd, hlevel, hmem⟩ := mem_of_levelCommunity hfind
    rw [h.disjoint d hd c hc hlevel e hmem he]

/-- A member's lookup is the scan for the id of its community. -/
theorem Stores.getEntityCommunity_member (h : Stores index cs) (hcs : IsPartition cs) (hc : c ∈ cs)
    (he : e ∈ c.members) :
    ∃ d ∈ cs, getEntityCommunity index e c.level = .ok (some d) ∧ d.id = c.id ∧
      d.level ≤ c.level := by
  have hne : e ≠ "" := by
    rintro rfl
    exact hcs.members_id_ne c hc he
  have hlt := hcs.level_lt c hc
  obtain ⟨d, hd, hscan, hid⟩ :=
    @Stores.scanLevels_eq cs c index h maxCommunityLevels 0 hc (hcs.level_nonneg c hc) (by omega)
  refine ⟨d, hd, ?_, hid⟩
  rw [getEntityCommunity, if_neg hne, h.mapping c hc e he]
  simp only [getCommunity, if_neg (hcs.id_ne c hc), hscan]

/-- **The lookups answer for the level asked exactly if no id recurs.** -/
theorem Stores.answers_iff (h : Stores index cs) (hcs : IsPartition cs) :
    (∀ e level, e ≠ "" → getEntityCommunity index e level = .ok (levelCommunity cs e level)) ↔
      ∀ c ∈ cs, ∀ c' ∈ cs, c.level < c'.level → c.id ≠ c'.id := by
  constructor
  · intro hanswers c hc c' hc' hlt hid
    obtain ⟨e, he⟩ := exists_mem_of_ne_nil _ (hcs.members_ne c' hc')
    have hne : e ≠ "" := by
      rintro rfl
      exact hcs.members_id_ne c' hc' he
    have hright := hanswers e c'.level hne
    rw [hcs.levelCommunity_eq hc' he, getEntityCommunity, if_neg hne, h.mapping c' hc' e he] at hright
    simp only [getCommunity, if_neg (hcs.id_ne c' hc')] at hright
    -- the scan meets the lower community no later than at its level
    have hlow := hcs.level_lt c hc
    obtain ⟨d, -, hscan, -, hle⟩ :=
      @Stores.scanLevels_eq cs c index h maxCommunityLevels 0 hc (hcs.level_nonneg c hc) (by omega)
    rw [hid, hright] at hscan
    simp only [Except.ok.injEq, Option.some.injEq] at hscan
    rw [← hscan] at hle
    omega
  · intro hids e level hne
    cases hfind : levelCommunity cs e level with
    | none =>
      have hlookup : index.lookup (entityCommunityKey level e) = none := by
        rw [lookup_eq_none]
        intro hmem
        obtain ⟨c, hc, heq | ⟨_, he', heq⟩⟩ := mem_partitionKeys.1 (h.key_mem _ hmem)
        · exact absurd heq.symm communityKey_ne_entityCommunityKey
        · obtain ⟨hlevel, rfl⟩ := entityCommunityKey_inj.1 heq
          exact (levelCommunity_eq_none.1 hfind) c hc hlevel.symm he'
      rw [getEntityCommunity, if_neg hne, hlookup]
    | some c =>
      obtain ⟨hmem, rfl, he⟩ := mem_of_levelCommunity hfind
      obtain ⟨d, hd, hget, hid, hle⟩ := h.getEntityCommunity_member hcs hmem he
      have hlevel : d.level = c.level := by
        by_contra hlt
        exact hids d hd c hmem (by omega) hid
      rw [hget, hcs.eq_of_id hd hmem hlevel hid]

end Lookup

/-! ## A run -/

variable {W : Type*} [Zero W] [Add W] [LT W] [DecidableLT W] [BEq W] {ρ : Type*} {d : LPADetector}
  {p : Provider W} {shuffle : ρ → List String → List String × ρ} {seed : ρ}
/-- Nothing is left over exactly if every delete of a key that is not owned went through. -/
theorem keys_indexAfter_iff (hcs : IsPartition cs) (a : Pruning) (index : CommunityIndex) :
    (∀ key, key ∈ indexAfter a cs index ↔ key ∈ partitionKeys cs) ↔
      ∀ key ∈ index, key ∉ partitionKeys cs → a.failed key = false := by
  constructor
  · intro h key hkey hnot
    by_contra hfailed
    have hlookup := @lookup_indexAfter_of_notMem cs key a index hnot
    rw [if_pos (by simpa using hfailed)] at hlookup
    refine hnot ((h key).1 ?_)
    rwa [← lookup_isSome, hlookup, lookup_isSome]
  · intro h key
    by_cases hmem : key ∈ partitionKeys cs
    · refine iff_of_true ?_ hmem
      rw [← lookup_isSome, lookup_indexAfter_of_mem hmem]
      obtain ⟨c, hc, rfl | ⟨e, he, rfl⟩⟩ := mem_partitionKeys.1 hmem
      · rw [lookup_saved_community hcs hc]
        rfl
      · rw [lookup_saved_mapping hcs hc he]
        rfl
    · refine iff_of_false ?_ hmem
      rw [← lookup_eq_none, lookup_indexAfter_of_notMem hmem]
      split
      · next hfailed =>
        rw [lookup_eq_none]
        intro hkey
        rw [h key hkey hmem] at hfailed
        exact nomatch hfailed
      · rfl

theorem stores_indexAfter (hcs : IsPartition cs)
    (h : ∀ key, key ∈ indexAfter a cs index ↔ key ∈ partitionKeys cs) :
    Stores (indexAfter a cs index) cs where
  community := by
    intro c hc
    rw [lookup_indexAfter_of_mem (mem_partitionKeys.2 ⟨c, hc, .inl rfl⟩),
      lookup_saved_community hcs hc]
  mapping := by
    intro c hc e he
    rw [lookup_indexAfter_of_mem (mem_partitionKeys.2 ⟨c, hc, .inr ⟨e, he, rfl⟩⟩),
      lookup_saved_mapping hcs hc he]
  key_mem := fun key => (h key).1

/-- **When the index answers for the right level.** After a run over any graph, from any
index, every lookup finds the community of the level asked and the keys are those of the
run, exactly if no delete of a left-over key failed and no id recurs on another level. -/
theorem community_index_right_iff (a : Pruning) (index : CommunityIndex)
    {css : List (List Community)} (h : detectCommunities d p shuffle seed = some css) :
    ((∀ e level, e ≠ "" → getEntityCommunity (indexAfter a css.flatten index) e level =
          .ok (levelCommunity css.flatten e level)) ∧
        ∀ key, key ∈ indexAfter a css.flatten index ↔ key ∈ partitionKeys css.flatten) ↔
      (∀ key ∈ index, key ∉ partitionKeys css.flatten → a.failed key = false) ∧
        ∀ c ∈ css.flatten, ∀ c' ∈ css.flatten, c.level < c'.level → c.id ≠ c'.id := by
  have hcs := detect_partition h
  rw [and_comm, keys_indexAfter_iff hcs]
  refine and_congr_right fun hdone => ?_
  exact (stores_indexAfter hcs ((keys_indexAfter_iff hcs a index).2 hdone)).answers_iff hcs

/-! ## One machine on its own -/

/-- A graph with two machines, joined or not. -/
def twoMachines (joined : Bool) : Provider ℕ where
  getAllEntityIDs := some ["a", "b"]
  getNeighbors e := some (if joined then (if e = "a" then ["b"] else ["a"]) else [])
  getEdgeWeight _ _ := some 1
  ids_ne := by
    intro ids h
    rw [← Option.some.inj h]
    decide

/-- A shuffle that leaves the order as it is. -/
def unshuffled (r : Unit) (ids : List String) : List String × Unit := (ids, r)

/-- A bucket that deletes what it is asked to. -/
def reliable : Pruning := ⟨⟨id, .refl⟩, fun _ => false⟩

/-- A shuffle that turns the order round on the second level. -/
def turned (r : ℕ) (ids : List String) : List String × ℕ :=
  (if r < 2 then ids else ids.reverse, r + 1)

/-- Two levels whose ids differ, and an index from before the machines were joined. -/
theorem community_index_right_twoLevels :
    getEntityCommunity (indexAfter reliable [[⟨"b", 0, ["a", "b"]⟩], [⟨"a", 1, ["a", "b"]⟩]].flatten
        (indexAfter reliable [⟨"a", 0, ["a"]⟩, ⟨"b", 0, ["b"]⟩] ∅)) "a" 1 =
      .ok (some ⟨"a", 1, ["a", "b"]⟩) := by
  have hrun : detectCommunities (newLPADetector.withLevels 2) (twoMachines true) turned 0 =
      some [[⟨"b", 0, ["a", "b"]⟩], [⟨"a", 1, ["a", "b"]⟩]] := by
    decide +kernel
  have hright := (community_index_right_iff reliable
    (indexAfter reliable [⟨"a", 0, ["a"]⟩, ⟨"b", 0, ["b"]⟩] ∅) hrun).2 (by decide +kernel)
  exact hright.1 "a" 1 (by decide)

/-- **A lookup for level one that answers with level zero.** Two machines that are not
joined are their own communities on every level, under the same ids. -/
theorem lookup_answers_lower_level :
    (detectCommunities newLPADetector (twoMachines false) unshuffled ()).map
        (fun css => levelCommunity css.flatten "a" 1) = some (some ⟨"a", 1, ["a"]⟩) ∧
      (detectCommunities newLPADetector (twoMachines false) unshuffled ()).map
        (fun css => getEntityCommunity (indexAfter reliable css.flatten ∅) "a" 1) =
        some (.ok (some ⟨"a", 0, ["a"]⟩)) := by
  decide +kernel

end SemStreams.Clustering
