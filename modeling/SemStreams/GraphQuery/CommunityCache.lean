import SemStreams.Clustering.Storage
import SemStreams.Lib.Memberships
/-!
# graph-query — the community cache

A generation follows the writes of the community index: of a community it keeps the
record, and for every member the id to look it up by. Before a record is replaced or
removed, the entries of its old members go, whoever has made them. A member that changed
its community within a run keeps its entry only if the old community was rewritten before
the new one; an old community that is written later, or deleted, takes the entry along.
-/

namespace SemStreams.GraphQuery

open Clustering List Function Memberships Rewrite

/-! ## A generation -/

structure CommunityGeneration where
  communities : ℤ → String → Option Community
  entityCommunity : String → ℤ → Option String

open CommunityGeneration

def parseCommunityKey (key : String) : Option (ℤ × String) :=
  let head := key.toList.takeWhile (· ≠ '.')
  let rest := (key.toList.dropWhile (· ≠ '.')).drop 1
  if head = [] ∨ rest = [] then none
  else (atoi head).map fun level => (level, String.ofList rest)

namespace CommunityGeneration

/-- `newCommunityGeneration`. -/
def empty : CommunityGeneration := ⟨fun _ _ => none, fun _ _ => none⟩

def removeMembershipMappings (g : CommunityGeneration) (level : ℤ) (c : Community) :
    CommunityGeneration :=
  { g with entityCommunity := fun e l =>
      if l = level ∧ e ∈ c.members then none else g.entityCommunity e l }

/-- The record under a level and an id, replaced. -/
def setCommunity (g : CommunityGeneration) (level : ℤ) (id : String) (c : Option Community) :
    CommunityGeneration :=
  { g with communities := fun l i => if l = level ∧ i = id then c else g.communities l i }

/-- `applyUpdate`. What stands under the key of a mapping is no community; a record that
disagrees with its key is taken for the one of the key. -/
def applyUpdate (g : CommunityGeneration) (key : String) (entry : Entry) : CommunityGeneration :=
  match parseCommunityKey key, entry with
  | none, _ | _, .mapping _ => g
  | some (level, id), .community payload =>
    let c : Community := { payload with id := id, level := level }
    let g' := (g.communities level id).elim g (g.removeMembershipMappings level)
    { g'.setCommunity level id (some c) with
      entityCommunity := fun e l =>
        if l = level ∧ e ∈ c.members then some id else g'.entityCommunity e l }

def applyDelete (g : CommunityGeneration) (key : String) : CommunityGeneration :=
  match parseCommunityKey key with
  | none => g
  | some (level, id) =>
    match g.communities level id with
    | none => g
    | some c => (g.removeMembershipMappings level c).setCommunity level id none

/-- What the watch delivers. -/
def apply (g : CommunityGeneration) : KVOp → CommunityGeneration
  | .put key entry => g.applyUpdate key entry
  | .delete key => g.applyDelete key

def getEntityCommunity (g : CommunityGeneration) (entityID : String) (level : ℤ) :
    Option Community :=
  (g.entityCommunity entityID level).bind (g.communities level)

end CommunityGeneration

/-! ## Runs and the watch -/

/-- A detection run: its configuration, the graph it finds, and the order in which the
bucket lists what is to be pruned. -/
structure Detection (W ρ : Type*) where
  detector : LPADetector
  provider : Provider W
  seed : ρ
  listing : Listing

/-- The bucket, the generation that follows it, and what the last run has found. -/
structure Watched where
  index : CommunityIndex
  generation : CommunityGeneration
  partition : List Community

open Watched

def Watched.start : Watched := ⟨∅, .empty, []⟩

/-- The writes of a run, in order: all communities, then the deletes. -/
def changes (l : Listing) (cs : List Community) (index : CommunityIndex) : List KVOp :=
  cs.flatMap saveCommunity ++ prune ⟨l, fun _ => false⟩ cs (savedIndex cs index)

section Step

variable {W : Type*} [Zero W] [Add W] [LT W] [DecidableLT W] [BEq W] {ρ : Type*}
  (shuffle : ρ → List String → List String × ρ)

def Detection.found (r : Detection W ρ) : Option (List Community) :=
  (detectCommunities r.detector r.provider shuffle r.seed).map List.flatten

/-- **A run, and the watch up to its last write.** -/
def Watched.step (s : Watched) (r : Detection W ρ) : Option Watched :=
  (r.found shuffle).map fun cs =>
    ⟨(changes r.listing cs s.index).foldl KVOp.apply s.index,
      (changes r.listing cs s.index).foldl CommunityGeneration.apply s.generation, cs⟩

end Step

/-- The generation answers with what the last run has found. -/
def Watched.Answers (s : Watched) : Prop :=
  ∀ e level, s.generation.getEntityCommunity e level = levelCommunity s.partition e level

/-- **Whoever moves is followed**: a community it moves to comes no earlier than the one
it leaves, and the one it leaves stays. -/
def Follows (old new : List Community) : Prop :=
  ∀ c ∈ new, ∀ e ∈ c.members, ∀ p ∈ old, p.level = c.level → e ∈ p.members →
    p.id ≤ c.id ∧ ∃ c' ∈ new, c'.level = c.level ∧ c'.id = p.id

/-! ## Keys -/

section Keys

variable {level : ℤ} {id : String}

theorem parseCommunityKey_communityKey (hnonneg : 0 ≤ level) (hlt : level < maxCommunityLevels)
    (hid : id ≠ "") : parseCommunityKey (communityKey level id) = some (level, id) := by
  obtain ⟨n, rfl⟩ := Int.eq_ofNat_of_zero_le hnonneg
  have hn : n < 2 ^ 63 := by
    have : n < 10 := by
      simp only [maxCommunityLevels] at hlt
      omega
    omega
  have hne : (toString (n : ℤ)).toList ≠ [] := by
    rw [toList_toString_ofNat]
    exact Nat.toDigits_ne_nil
  obtain ⟨htake, hdrop⟩ := takeWhile_mark (b := id.toList) (dot_notMem_toString (n : ℤ))
  have hrest : id.toList ≠ [] := fun h => hid (String.toList_inj.1 h)
  simp only [parseCommunityKey, toList_communityKey, htake, hdrop, drop_one, tail_cons,
    hne, hrest, or_self, if_false, atoi_toString hn, Option.map_some, String.ofList_toList]

theorem parseCommunityKey_entityCommunityKey :
    parseCommunityKey (entityCommunityKey level id) = none := by
  have hdot : '.' ∉ ['e', 'n', 't', 'i', 't', 'y'] := by decide
  obtain ⟨htake, _⟩ := takeWhile_mark (b := (communityKey level id).toList) hdot
  simp only [parseCommunityKey, toList_entityCommunityKey, htake]
  rw [atoi_eq_none_of_head (c := 'e') rfl (by decide) (by decide) (by decide)]
  simp

end Keys

/-! ## One level -/

/-- The generation as far as a level is concerned. -/
def CommunityGeneration.atLevel (g : CommunityGeneration) (level : ℤ) :
    Memberships String Community String :=
  ⟨g.communities level, fun e => g.entityCommunity e level⟩

/-- What a write is to a level. -/
def rewriteAt (level : ℤ) : KVOp → Option (Rewrite String Community)
  | .put key entry =>
    match parseCommunityKey key, entry with
    | none, _ | _, .mapping _ => none
    | some (l, id), .community payload =>
      if l = level then some (.put id { payload with id := id, level := l }) else none
  | .delete key =>
    (parseCommunityKey key).bind fun k => if k.1 = level then some (.drop k.2) else none

section Level

variable {g : CommunityGeneration} {level : ℤ}

/-- A record written under a level and an id, seen from a level. -/
theorem atLevel_put (l : ℤ) (id : String) (c : Community) :
    let g' := (g.communities l id).elim g (g.removeMembershipMappings l)
    atLevel { g'.setCommunity l id (some c) with
        entityCommunity := fun e l' =>
          if l' = l ∧ e ∈ c.members then some id else g'.entityCommunity e l' } level =
      if l = level then Memberships.apply Community.members (g.atLevel level) (.put id c)
      else g.atLevel level := by
  intro g'
  have hcommunities : g'.communities = g.communities := by
    rcases Option.eq_none_or_eq_some (g.communities l id) with h | ⟨old, h⟩ <;>
      simp [g', h, removeMembershipMappings]
  have hentries : ∀ e l', g'.entityCommunity e l' =
      if l' = l ∧ e ∈ at_ Community.members (g.atLevel l) id then none
      else g.entityCommunity e l' := by
    intro e l'
    rcases Option.eq_none_or_eq_some (g.communities l id) with h | ⟨old, h⟩ <;>
      simp [g', h, at_, atLevel, removeMembershipMappings]
  split
  · next heq =>
    subst heq
    refine Memberships.ext ?_ ?_
    · funext i
      simp [atLevel, setCommunity, Memberships.apply, key, left, update_apply, hcommunities]
    · funext e
      show (if l = l ∧ e ∈ c.members then some id else g'.entityCommunity e l) =
        if e ∈ c.members then some id
        else if e ∈ at_ Community.members (g.atLevel l) id then none
        else g.entityCommunity e l
      simp [hentries]
  · next hne =>
    refine Memberships.ext ?_ ?_
    · funext i
      simp [atLevel, setCommunity, hcommunities, Ne.symm hne]
    · funext e
      simp [atLevel, hentries, Ne.symm hne]

theorem atLevel_delete (l : ℤ) (id : String) : (match g.communities l id with
      | none => g
      | some c => (g.removeMembershipMappings l c).setCommunity l id none).atLevel level =
      if l = level then Memberships.apply Community.members (g.atLevel level) (.drop id)
      else g.atLevel level := by
  split
  · next hnone =>
    split
    · next heq =>
      subst heq
      refine Memberships.ext ?_ ?_
      · funext i
        by_cases hi : i = id
        · simp [atLevel, Memberships.apply, key, left, hi, hnone]
        · simp [atLevel, Memberships.apply, key, hi]
      · funext e
        simp [atLevel, Memberships.apply, entered, at_, key, left, hnone]
    · rfl
  · next c hc =>
    split
    · next heq =>
      subst heq
      refine Memberships.ext ?_ ?_
      · funext i
        simp [atLevel, setCommunity, removeMembershipMappings, Memberships.apply, key,
          left, update_apply]
      · funext e
        simp [atLevel, setCommunity, removeMembershipMappings, Memberships.apply, entered,
          at_, key, left, hc]
    · next hne =>
      refine Memberships.ext ?_ ?_
      · funext i
        simp [atLevel, setCommunity, removeMembershipMappings, Ne.symm hne]
      · funext e
        simp [atLevel, setCommunity, removeMembershipMappings, Ne.symm hne]

/-- **Each write is one rewrite of its level.** -/
theorem atLevel_apply (op : KVOp) : (g.apply op).atLevel level =
      (rewriteAt level op).elim (g.atLevel level)
        (Memberships.apply Community.members (g.atLevel level)) := by
  cases op with
  | put key entry =>
    simp only [CommunityGeneration.apply, applyUpdate, rewriteAt]
    split
    · rfl
    · rfl
    · next l id _ =>
      rw [atLevel_put]
      split <;> rfl
  | delete key =>
    simp only [CommunityGeneration.apply, applyDelete, rewriteAt]
    cases parseCommunityKey key with
    | none => rfl
    | some k =>
      obtain ⟨l, id⟩ := k
      rw [atLevel_delete]
      simp only [Option.bind_some]
      split <;> rfl

theorem atLevel_foldl (ops : List KVOp) : (ops.foldl CommunityGeneration.apply g).atLevel level =
      (ops.filterMap (rewriteAt level)).foldl (Memberships.apply Community.members)
        (g.atLevel level) := by
  induction ops generalizing g with
  | nil => rfl
  | cons op ops ih =>
    rw [foldl_cons, ih, atLevel_apply]
    cases h : rewriteAt level op with
    | none => rw [filterMap_cons_none h]; rfl
    | some r => rw [filterMap_cons_some h]; rfl

end Level

/-! ## The rewrites of a run -/

section Rewrites

variable {cs old : List Community} {index : CommunityIndex} {level : ℤ}

/-- The communities of a level, as they are written. -/
def putsAt (cs : List Community) (level : ℤ) : List (Rewrite String Community) :=
  (cs.filter fun c => c.level = level).map fun c => .put c.id c

theorem rewriteAt_save (hcs : IsPartition cs) (hc : c ∈ cs) :
    (saveCommunity c).filterMap (rewriteAt level) =
      if c.level = level then [.put c.id c] else [] := by
  have hmappings : (c.members.map fun e =>
      KVOp.put (entityCommunityKey c.level e) (.mapping c.id)).filterMap (rewriteAt level) = [] := by
    rw [filterMap_eq_nil_iff]
    intro _ hop
    obtain ⟨e, -, rfl⟩ := List.mem_map.1 hop
    simp only [rewriteAt, parseCommunityKey_entityCommunityKey]
  have hcommunity : rewriteAt level (.put (communityKey c.level c.id) (.community c)) =
      if c.level = level then some (.put c.id c) else none := by
    simp only [rewriteAt, parseCommunityKey_communityKey (hcs.level_nonneg c hc) (hcs.level_lt c hc)
      (hcs.id_ne c hc)]
  rw [saveCommunity]
  split
  · next heq =>
    rw [if_pos heq] at hcommunity
    rw [filterMap_cons_some hcommunity, hmappings]
  · next hne =>
    rw [if_neg hne] at hcommunity
    rw [filterMap_cons_none hcommunity, hmappings]

theorem rewriteAt_saves (hcs : IsPartition cs) :
    (cs.flatMap saveCommunity).filterMap (rewriteAt level) = putsAt cs level := by
  have hall : ∀ c ∈ cs, (saveCommunity c).filterMap (rewriteAt level) =
      if c.level = level then [.put c.id c] else [] := fun c hc => rewriteAt_save hcs hc
  clear hcs
  induction cs with
  | nil => rfl
  | cons c cs ih =>
    rw [flatMap_cons, filterMap_append, hall c (by simp),
      ih fun c' hc' => hall c' (by simp [hc']), putsAt, putsAt]
    by_cases hlevel : c.level = level
    · rw [if_pos hlevel, filter_cons_of_pos (by simpa using hlevel)]
      rfl
    · rw [if_neg hlevel, filter_cons_of_neg (by simpa using hlevel)]
      rfl

/-- The communities of a level that a run drops. -/
def dropsAt (l : Listing) (cs : List Community) (index : CommunityIndex) (level : ℤ) :
    List (Rewrite String Community) :=
  (prune ⟨l, fun _ => false⟩ cs (savedIndex cs index)).filterMap (rewriteAt level)

variable {l : Listing}

/-- A key that is left over is one of the partition before. -/
theorem mem_leftover (hindex : Stores index old) {op : KVOp}
    (hop : op ∈ prune ⟨l, fun _ => false⟩ cs (savedIndex cs index)) :
    ∃ key ∈ partitionKeys old, key ∉ partitionKeys cs ∧ op = .delete key := by
  obtain ⟨key, hkey, hnot, -, rfl⟩ := mem_prune.1 hop
  rw [← AList.lookup_isSome, lookup_saved_of_notMem hnot, AList.lookup_isSome] at hkey
  exact ⟨key, hindex.key_mem key hkey, hnot, rfl⟩

variable {r : Rewrite String Community}

/-- What a left-over key is to a level. -/
theorem rewriteAt_delete (hold : IsPartition old) {key : String} (hkey : key ∈ partitionKeys old)
    (hr : rewriteAt level (.delete key) = some r) :
    ∃ p ∈ old, p.level = level ∧ key = communityKey p.level p.id ∧ r = .drop p.id := by
  obtain ⟨p, hp, rfl | ⟨e, -, rfl⟩⟩ := mem_partitionKeys.1 hkey
  · simp only [rewriteAt, parseCommunityKey_communityKey (hold.level_nonneg p hp)
      (hold.level_lt p hp) (hold.id_ne p hp), Option.bind_some] at hr
    split at hr
    · next hlevel => exact ⟨p, hp, hlevel, rfl, (Option.some.inj hr).symm⟩
    · cases hr
  · simp only [rewriteAt, parseCommunityKey_entityCommunityKey, Option.bind_none] at hr
    cases hr

theorem mem_dropsAt (hold : IsPartition old) (hindex : Stores index old) :
    r ∈ dropsAt l cs index level ↔
      ∃ p ∈ old, p.level = level ∧ r = .drop p.id ∧
        ∀ c ∈ cs, c.level = level → c.id ≠ p.id := by
  rw [dropsAt, mem_filterMap]
  constructor
  · rintro ⟨_, hop, hr⟩
    obtain ⟨_, hkey, hnot, rfl⟩ := mem_leftover hindex hop
    obtain ⟨p, hp, rfl, rfl, rfl⟩ := rewriteAt_delete hold hkey hr
    refine ⟨p, hp, rfl, rfl, fun c hc hlevel hid => hnot (mem_partitionKeys.2 ⟨c, hc, .inl ?_⟩)⟩
    rw [hlevel, hid]
  · rintro ⟨p, hp, rfl, rfl, hnone⟩
    have hnot : communityKey p.level p.id ∉ partitionKeys cs := by
      intro hmem
      obtain ⟨c, hc, heq | ⟨e, -, heq⟩⟩ := mem_partitionKeys.1 hmem
      · obtain ⟨hlevel, hid⟩ := communityKey_inj.1 heq
        exact hnone c hc hlevel.symm hid.symm
      · exact absurd heq communityKey_ne_entityCommunityKey
    refine ⟨.delete (communityKey p.level p.id), mem_prune.2 ⟨_, ?_, hnot, rfl, rfl⟩, ?_⟩
    · rw [← AList.lookup_isSome, lookup_saved_of_notMem hnot, hindex.community p hp]
      rfl
    · simp [rewriteAt,
        parseCommunityKey_communityKey (hold.level_nonneg p hp) (hold.level_lt p hp) (hold.id_ne p hp)]

theorem nodup_dropsAt (hold : IsPartition old) (hindex : Stores index old) :
    ((dropsAt l cs index level).map key).Nodup := by
  have hkeys : (prune ⟨l, fun _ => false⟩ cs (savedIndex cs index)).Pairwise
      fun op op' => op.key ≠ op'.key := by
    rw [prune, pairwise_map]
    exact (((l.perm _).nodup_iff).2 (AList.keys_nodup _)).filter _
  rw [List.Nodup, dropsAt, pairwise_map, pairwise_filterMap]
  refine hkeys.imp_of_mem ?_
  intro op op' hop hop' hne r hr _ hr' heq
  obtain ⟨key, hkey, -, rfl⟩ := mem_leftover hindex hop
  obtain ⟨_, hkey', -, rfl⟩ := mem_leftover hindex hop'
  obtain ⟨p, -, hlevel, rfl, rfl⟩ := rewriteAt_delete hold hkey hr
  obtain ⟨p', -, hlevel', rfl, rfl⟩ := rewriteAt_delete hold hkey' hr'
  refine hne ?_
  rw [hlevel, hlevel', show p.id = p'.id from heq]

theorem ordered_level (hcs : IsPartition cs) :
    (cs.filter fun c => c.level = level).Pairwise fun c d => c.id < d.id := by
  refine (hcs.ordered.filter _).imp_of_mem ?_
  intro c d hc hd h
  have hcl := (mem_filter.1 hc).2
  have hdl := (mem_filter.1 hd).2
  simp only [decide_eq_true_eq] at hcl hdl
  rcases h with h | h
  · omega
  · exact h.2

/-- A run rewrites no key of a level twice. -/
theorem nodup_rewrites (hcs : IsPartition cs) (hold : IsPartition old) (hindex : Stores index old) :
    ((putsAt cs level ++ dropsAt l cs index level).map key).Nodup := by
  rw [map_append, nodup_append]
  refine ⟨?_, nodup_dropsAt hold hindex, ?_⟩
  · rw [putsAt, List.map_map, List.Nodup, pairwise_map]
    exact (ordered_level hcs).imp fun h => ne_of_lt h
  · intro _ hid _ hid' heq
    subst heq
    obtain ⟨r, hr, rfl⟩ := List.mem_map.1 hid
    obtain ⟨c, hc, rfl⟩ := List.mem_map.1 hr
    obtain ⟨_, hr', heq⟩ := List.mem_map.1 hid'
    obtain ⟨p, -, -, rfl, hnone⟩ := (mem_dropsAt hold hindex).1 hr'
    obtain ⟨hc, hlevel⟩ := mem_filter.1 hc
    exact hnone c hc (by simpa using hlevel) heq.symm

end Rewrites

/-! ## What is kept over runs -/

/-- **The generation has the records of the last run**, and no entry but for a member. -/
structure Tracks (s : Watched) : Prop where
  partition : IsPartition s.partition
  index : Stores s.index s.partition
  held : ∀ c ∈ s.partition, s.generation.communities c.level c.id = some c
  known : ∀ level id c, s.generation.communities level id = some c →
    c ∈ s.partition ∧ c.level = level ∧ c.id = id
  sound : ∀ level, Sound Community.members (s.generation.atLevel level)

theorem tracks_start : Tracks start where
  partition := by constructor <;> simp [start]
  index := by constructor <;> simp [start]
  held := by simp [start]
  known := by simp [start, CommunityGeneration.empty]
  sound := by
    intro _ e _ h
    cases h

/-- The state after a run that has found `cs`. -/
def Watched.after (s : Watched) (l : Listing) (cs : List Community) : Watched :=
  ⟨(changes l cs s.index).foldl KVOp.apply s.index,
    (changes l cs s.index).foldl CommunityGeneration.apply s.generation, cs⟩

variable {s : Watched} {l : Listing} {cs : List Community} {level : ℤ}

theorem atLevel_after (hcs : IsPartition cs) : (s.after l cs).generation.atLevel level =
      (putsAt cs level ++ dropsAt l cs s.index level).foldl
        (Memberships.apply Community.members) (s.generation.atLevel level) := by
  rw [Watched.after, atLevel_foldl, changes, filterMap_append, rewriteAt_saves hcs, dropsAt]

theorem put_mem_putsAt (hc : c ∈ cs) : put c.id c ∈ putsAt cs c.level :=
  List.mem_map_of_mem (mem_filter.2 ⟨hc, by simp⟩)

theorem mem_putsAt :
    r ∈ putsAt cs level ↔ ∃ c ∈ cs, c.level = level ∧ r = .put c.id c := by
  simp only [putsAt, List.mem_map, mem_filter, decide_eq_true_eq]
  constructor
  · rintro ⟨c, ⟨hc, hlevel⟩, rfl⟩
    exact ⟨c, hc, hlevel, rfl⟩
  · rintro ⟨c, hc, hlevel, rfl⟩
    exact ⟨c, ⟨hc, hlevel⟩, rfl⟩

theorem Tracks.after (h : Tracks s) (hcs : IsPartition cs) : Tracks (s.after l cs) where
  partition := hcs
  index := by
    have hindex : (s.after l cs).index = indexAfter ⟨l, fun _ => false⟩ cs s.index := by
      simp [Watched.after, changes, indexAfter, savedIndex]
    rw [hindex]
    exact stores_indexAfter hcs ((keys_indexAfter_iff hcs _ _).2 fun _ _ _ => rfl)
  held := by
    intro c hc
    have hgroup : ((s.after l cs).generation.atLevel c.level).group c.id = some c := by
      rw [atLevel_after hcs]
      exact group_foldl_of_mem (nodup_rewrites hcs h.partition h.index)
        (mem_append_left _ (put_mem_putsAt hc))
    exact hgroup
  known := by
    intro level id c hc
    have hgroup : ((s.after l cs).generation.atLevel level).group id = some c := hc
    rw [atLevel_after hcs] at hgroup
    have hnodup := @nodup_rewrites cs _ _ level l hcs h.partition h.index
    by_cases hmem : id ∈ (putsAt cs level ++ dropsAt l cs s.index level).map key
    · obtain ⟨r, hr, rfl⟩ := List.mem_map.1 hmem
      rw [group_foldl_of_mem hnodup hr] at hgroup
      rcases mem_append.1 hr with hr | hr
      · obtain ⟨d, hd, hlevel, rfl⟩ := mem_putsAt.1 hr
        cases hgroup
        exact ⟨hd, hlevel, rfl⟩
      · obtain ⟨p, -, -, rfl, -⟩ := (mem_dropsAt h.partition h.index).1 hr
        cases hgroup
    · rw [group_foldl_of_notMem hmem] at hgroup
      -- a record of the run before is written again or dropped
      obtain ⟨hold, rfl, rfl⟩ := h.known level id c hgroup
      refine absurd (List.mem_map.2 ⟨Rewrite.drop c.id, mem_append_right _ ?_, rfl⟩) hmem
      refine (mem_dropsAt h.partition h.index).2 ⟨c, hold, rfl, rfl, fun d hd hlevel hid => ?_⟩
      refine hmem (List.mem_map.2 ⟨.put d.id d, mem_append_left _ ?_, hid⟩)
      exact mem_putsAt.2 ⟨d, hd, hlevel, rfl⟩
  sound := by
    intro level
    rw [atLevel_after hcs]
    exact (h.sound level).foldl _

/-- An entity of the old partition, seen from a level. -/
theorem Tracks.mem_at (h : Tracks s) {id e : String} :
    e ∈ at_ Community.members (s.generation.atLevel level) id ↔
      ∃ p ∈ s.partition, p.level = level ∧ p.id = id ∧ e ∈ p.members := by
  have hat : at_ Community.members (s.generation.atLevel level) id =
      (s.generation.communities level id).elim [] Community.members := rfl
  rw [hat]
  rcases Option.eq_none_or_eq_some (s.generation.communities level id) with hid | ⟨c, hid⟩
  · simp only [hid, Option.elim_none, not_mem_nil, false_iff]
    rintro ⟨p, hp, rfl, rfl, -⟩
    rw [h.held p hp] at hid
    cases hid
  · obtain ⟨hc, hlevel, hcid⟩ := h.known level id c hid
    simp only [hid, Option.elim_some]
    constructor
    · intro he
      exact ⟨c, hc, hlevel, hcid, he⟩
    · rintro ⟨p, hp, hpl, hpid, he⟩
      rw [h.partition.eq_of_id hc hp (hlevel.trans hpl.symm) (hcid.trans hpid.symm)]
      exact he

/-- **When a member is found after a run.** -/
theorem Tracks.entry_iff (h : Tracks s) (hcs : IsPartition cs) {c : Community} (hc : c ∈ cs)
    {e : String} (he : e ∈ c.members) :
    (s.after l cs).generation.entityCommunity e c.level = some c.id ↔
      ∀ p ∈ s.partition, p.level = c.level → e ∈ p.members →
        p.id ≤ c.id ∧ ∃ c' ∈ cs, c'.level = c.level ∧ c'.id = p.id := by
  obtain ⟨before, behind, hsplit⟩ := append_of_mem
    (mem_filter.2 ⟨hc, by simp⟩ : c ∈ cs.filter fun d => d.level = c.level)
  have hmem : ∀ d, d ∈ before ∨ d = c ∨ d ∈ behind ↔ d ∈ cs ∧ d.level = c.level := by
    intro d
    have hd : d ∈ cs.filter (fun d => d.level = c.level) ↔ d ∈ cs ∧ decide (d.level = c.level) :=
      mem_filter
    rw [hsplit, mem_append, mem_cons] at hd
    simpa using hd
  have hordered := @ordered_level cs c.level hcs
  rw [hsplit, pairwise_append, pairwise_cons] at hordered
  obtain ⟨-, ⟨hbehind, -⟩, hbefore⟩ := hordered
  have hops : putsAt cs c.level ++ dropsAt l cs s.index c.level =
      before.map (fun d => .put d.id d) ++ .put c.id c ::
        (behind.map (fun d => .put d.id d) ++ dropsAt l cs s.index c.level) := by
    rw [putsAt, hsplit]
    simp
  have hnodup := @nodup_rewrites cs _ _ c.level l hcs h.partition h.index
  have howner : (s.after l cs).generation.entityCommunity e c.level =
      ((s.after l cs).generation.atLevel c.level).owner e := rfl
  rw [howner, atLevel_after hcs, hops]
  rw [hops] at hnodup
  have hentered : ∀ r ∈ behind.map (fun d => put d.id d) ++ dropsAt l cs s.index c.level,
      e ∉ entered Community.members r := by
    intro r hr
    rcases mem_append.1 hr with hr | hr
    · obtain ⟨d, hd, rfl⟩ := List.mem_map.1 hr
      intro he'
      obtain ⟨hdcs, hlevel⟩ := (hmem d).1 (.inr (.inr hd))
      have heq := hcs.disjoint d hdcs c hc hlevel e he' he
      exact absurd (hbehind d hd) (by rw [heq]; exact lt_irrefl _)
    · obtain ⟨p, -, -, rfl, -⟩ := (mem_dropsAt h.partition h.index).1 hr
      exact not_mem_nil
  refine (owner_rewrites hnodup he hentered).trans ?_
  constructor
  · intro hall p hp hlevel hep
    have hat : e ∈ at_ Community.members (s.generation.atLevel c.level) p.id :=
      h.mem_at.2 ⟨p, hp, hlevel, rfl, hep⟩
    have hkept : ∃ c' ∈ cs, c'.level = c.level ∧ c'.id = p.id := by
      by_contra hnone
      refine hall (.drop p.id) (mem_append_right _ ?_) hat
      exact (mem_dropsAt h.partition h.index).2 ⟨p, hp, hlevel, rfl, fun d hd hdl hid =>
        hnone ⟨d, hd, hdl, hid⟩⟩
    obtain ⟨c', hc', hlevel', hid⟩ := hkept
    refine ⟨?_, c', hc', hlevel', hid⟩
    rcases (hmem c').2 ⟨hc', hlevel'⟩ with hb | rfl | hb
    · exact hid ▸ le_of_lt (hbefore c' hb c (by simp))
    · exact le_of_eq hid.symm
    · refine absurd hat (hall (.put c'.id c') (mem_append_left _ (List.mem_map_of_mem hb)) ∘ ?_)
      exact fun hp => hid ▸ hp
  · intro hall r hr hat
    obtain ⟨p, hp, hlevel, hid, hep⟩ := h.mem_at.1 hat
    obtain ⟨hle, c', hc', hlevel', hid'⟩ := hall p hp hlevel hep
    rcases mem_append.1 hr with hr | hr
    · obtain ⟨d, hd, rfl⟩ := List.mem_map.1 hr
      have hid : p.id = d.id := hid
      exact absurd (hbehind d hd) (not_lt_of_ge (hid ▸ hle))
    · obtain ⟨_, -, -, rfl, hnone⟩ := (mem_dropsAt h.partition h.index).1 hr
      exact hnone c' hc' hlevel' (hid'.trans hid)

/-- **One run.** After it the generation answers with what it has found exactly if
whoever moved was followed. -/
theorem Tracks.answers_iff (h : Tracks s) (hcs : IsPartition cs) :
    (s.after l cs).Answers ↔ Follows s.partition cs := by
  have hafter : Tracks (s.after l cs) := h.after hcs
  have hentry := fun c hc e he => @Tracks.entry_iff s l cs h hcs c hc e he
  constructor
  · intro hanswers c hc e he
    rw [← hentry c hc e he]
    have hfound := hanswers e c.level
    rw [show (s.after l cs).partition = cs from rfl, hcs.levelCommunity_eq hc he] at hfound
    obtain ⟨id, hid, hgroup⟩ := Option.bind_eq_some_iff.1 hfound
    obtain ⟨-, -, rfl⟩ := hafter.known c.level id c hgroup
    exact hid
  · intro hfollows e level
    show _ = levelCommunity cs e level
    cases hfind : levelCommunity cs e level with
    | none =>
      -- an entry would be of a member
      by_contra hsome
      obtain ⟨c, hc⟩ := Option.ne_none_iff_exists'.1 hsome
      obtain ⟨id, hid, hgroup⟩ := Option.bind_eq_some_iff.1 hc
      obtain ⟨p, hp, hlevel, -, he⟩ := hafter.mem_at.1 (hafter.sound level e id hid)
      exact levelCommunity_eq_none.1 hfind p hp hlevel he
    | some c =>
      obtain ⟨hc, rfl, he⟩ := mem_of_levelCommunity hfind
      have hid := (hentry c hc e he).2 fun p hp hlevel hep => hfollows c hc e he p hp hlevel hep
      rw [CommunityGeneration.getEntityCommunity, hid]
      exact hafter.held c hc

/-! ## Every sequence of runs -/

variable {W : Type*} [Zero W] [Add W] [LT W] [DecidableLT W] [BEq W] {ρ : Type*}
  {shuffle : ρ → List String → List String × ρ}

theorem step_eq_some {s s' : Watched} {r : Detection W ρ} (h : s.step shuffle r = some s') :
    ∃ cs, r.found shuffle = some cs ∧ IsPartition cs ∧ s' = s.after r.listing cs := by
  obtain ⟨cs, hfound, rfl⟩ := Option.map_eq_some_iff.1 h
  obtain ⟨_, hcss, rfl⟩ := Option.map_eq_some_iff.1 hfound
  exact ⟨_, hfound, detect_partition hcss, rfl⟩

/-- **When the cache tracks the partition.** In every sequence of runs the generation
answers, after each run, with the community of the level that has the entity and with
none where there is none, exactly if in each run whoever moved was followed. -/
theorem cache_tracks_iff {runs : List (Detection W ρ)} {s : Watched}
    (h : run (step shuffle) start runs = some s) :
    (∀ pre t, pre <+: runs → run (step shuffle) start pre = some t → t.Answers) ↔
      Along (step shuffle)
        (fun s r => ∀ cs, r.found shuffle = some cs → Follows s.partition cs) start runs := by
  refine always_iff_along (I := Tracks) ?_ ?_ tracks_start ?_ h
  · intro s r s' hs hstep
    obtain ⟨cs, -, hcs, rfl⟩ := step_eq_some hstep
    exact hs.after hcs
  · intro s r s' hs _ hstep
    obtain ⟨cs, hfound, hcs, rfl⟩ := step_eq_some hstep
    rw [hs.answers_iff hcs]
    constructor
    · intro hfollows _ hfound'
      rw [hfound, Option.some.injEq] at hfound'
      exact hfound' ▸ hfollows
    · intro hfollows
      exact hfollows cs hfound
  · exact fun e level => rfl

/-! ## Two machines that are joined -/

/-- A run over two machines. -/
def machines (joined : Bool) : Detection ℕ Unit where
  detector := newLPADetector.withLevels 1
  provider := twoMachines joined
  seed := ()
  listing := ⟨id, .refl⟩

/-- Two runs that find the same. -/
theorem cache_tracks_unchanged :
    ∃ s, run (step unshuffled) start [machines true, machines true] = some s ∧
      s.generation.getEntityCommunity "a" 0 = some ⟨"b", 0, ["a", "b"]⟩ := by
  have hfound : (machines true).found unshuffled = some [⟨"b", 0, ["a", "b"]⟩] := by decide +kernel
  obtain ⟨s, hs, hpartition⟩ : ∃ s, run (step unshuffled) start
      [machines true, machines true] = some s ∧ s.partition = [⟨"b", 0, ["a", "b"]⟩] := by
    have hstep : ∀ s : Watched, s.step unshuffled (machines true) =
        some (s.after (machines true).listing [⟨"b", 0, ["a", "b"]⟩]) := by
      intro s
      rw [step, hfound]
      rfl
    refine ⟨_, run_cons_eq_some.2 ⟨_, hstep _, run_cons_eq_some.2 ⟨_, hstep _, run_nil⟩⟩, rfl⟩
  have hanswers : s.Answers := by
    refine (cache_tracks_iff hs).2 ?_ _ s (prefix_refl _) hs
    refine ⟨?_, fun t ht => ⟨?_, fun t' _ => trivial⟩⟩
    · intro cs _ c _ e _ p hp
      cases hp
    · intro cs hcs c hc e _ p hp _ _
      rw [hfound, Option.some.injEq] at hcs
      obtain ⟨_, hfound', rfl⟩ := Option.map_eq_some_iff.1 ht
      rw [hfound, Option.some.injEq] at hfound'
      subst hcs hfound'
      rw [mem_singleton.1 hp, mem_singleton.1 hc]
      exact ⟨le_refl _, _, mem_singleton_self _, rfl, rfl⟩
  refine ⟨s, hs, ?_⟩
  rw [hanswers "a" 0, hpartition]
  rfl

/-- **A member that is lost.** Two machines were on their own and are joined: the
community of both is written first, and the end of the other one takes the entry of the
machine that has moved. -/
theorem moved_member_lost : (run (step unshuffled) start [machines false, machines true]).map
        (fun s => (s.generation.getEntityCommunity "a" 0, levelCommunity s.partition "a" 0)) =
      some (none, some ⟨"b", 0, ["a", "b"]⟩) := by
  decide +kernel

end SemStreams.GraphQuery
