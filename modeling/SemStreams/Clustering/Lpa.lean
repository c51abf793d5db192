import SemStreams.Lib.Run
import Mathlib.Data.List.AList
import Mathlib.Data.List.Dedup
import Mathlib.Data.List.Sort
import Mathlib.Data.String.Basic
/-!
# graph/clustering — label propagation

`DetectCommunities` gives every entity its own label, lets neighbours outvote it until
nothing changes, and makes a community of all entities with one label. The next level
does the same once more over the same entities. What is used of it below is only that
each level is a partition of the entities: sorted by id, disjoint, complete, and with
ids that are entities (`detect_partition`). Ids are free to recur from level to level.
-/

namespace SemStreams.Clustering

open List Function Option

/-- `Community`, without its summary. -/
structure Community where
  id : String
  level : ℤ
  members : List String
deriving DecidableEq

/-- `Provider`; `none` where a read fails. Entity ids are keys of a bucket, so none of
them is empty. -/
structure Provider (W : Type*) where
  getAllEntityIDs : Option (List String)
  /-- `GetNeighbors`, in both directions. -/
  getNeighbors : String → Option (List String)
  getEdgeWeight : String → String → Option W
  ids_ne : ∀ ids, getAllEntityIDs = some ids → "" ∉ ids

/-- `MaxCommunityLevels` and `MaxLevelsLimit`. -/
def maxCommunityLevels : ℕ := 10

/-- `LPADetector`, within the bounds its setters keep. -/
structure LPADetector where
  maxIterations : ℕ
  levels : ℕ
  levels_pos : 0 < levels
  levels_le : levels ≤ maxCommunityLevels

def newLPADetector : LPADetector where
  maxIterations := 100
  levels := 3
  levels_pos := by decide
  levels_le := by decide

def LPADetector.withLevels (d : LPADetector) (levels : ℤ) : LPADetector where
  maxIterations := d.maxIterations
  levels := if levels ≤ 0 then 3 else min levels.toNat maxCommunityLevels
  levels_pos := by
    split
    · decide
    · have : 0 < levels.toNat := by omega
      simp only [maxCommunityLevels]
      omega
  levels_le := by
    split
    · decide
    · exact Nat.min_le_right _ _

def sorted (ids : List String) : List String := ids.insertionSort (· ≤ ·)

variable {ids : List String}

@[simp] theorem mem_sorted : e ∈ sorted ids ↔ e ∈ ids :=
  (perm_insertionSort _ _).mem_iff

/-! ## Voting -/

section Votes

variable {W : Type*} [Zero W] [Add W] [LT W] [DecidableLT W] [BEq W] (p : Provider W)
  (ids : List String)

/-- One neighbour's vote. Neighbours outside the entity set have none. -/
def vote (labels : String → String) (e : String) (votes : AList fun _ : String => W)
    (neighbor : String) : Option (AList fun _ : String => W) :=
  if neighbor ∈ ids then
    (p.getEdgeWeight e neighbor).map fun weight =>
      votes.insert (labels neighbor) ((votes.lookup (labels neighbor)).getD 0 + weight)
  else some votes

/-- The comparison of `computeNewLabel`: the larger total wins, and of equal ones the
smaller label, so the order in which the map is read does not matter. -/
def better (best : W × String) (entry : (_ : String) × W) : W × String :=
  if best.1 < entry.2 ∨
      (entry.2 == best.1) = true ∧ 0 < best.1 ∧ (best.2 = "" ∨ entry.1 < best.2) then
    (entry.2, entry.1)
  else best

/-- The label with the most votes; empty where no total is positive. -/
def winningLabel (votes : AList fun _ : String => W) : String :=
  (votes.entries.foldl better (0, "")).2

def computeNewLabel (labels : String → String) (e : String) : Option String :=
  (p.getNeighbors e).bind fun neighbors =>
    if neighbors = [] then some (labels e)
    else
      (run (vote p ids labels e) ∅ (sorted neighbors)).map fun votes =>
        if winningLabel votes = "" then labels e else winningLabel votes

/-- One entity of a sweep, with the note whether a label changed. -/
def relabel (state : (String → String) × Bool) (e : String) : Option ((String → String) × Bool) :=
  (computeNewLabel p ids state.1 e).map fun label =>
    if label ≠ state.1 e then (update state.1 e label, true) else state

variable {ρ : Type*} (shuffle : ρ → List String → List String × ρ)

/-- The sweeps of `detectCommunitiesAtLevel`, until nothing changes. -/
def propagate : ℕ → ρ → (String → String) → Option ((String → String) × ρ)
  | 0, r, labels => some (labels, r)
  | n + 1, r, labels =>
    (run (relabel p ids) (labels, false) (shuffle r ids).1).bind fun state =>
      if state.2 then propagate n (shuffle r ids).2 state.1
      else some (state.1, (shuffle r ids).2)

end Votes

def buildCommunities (ids : List String) (labels : String → String) (level : ℤ) : List Community :=
  (sorted (ids.map labels).dedup).map fun label =>
    ⟨label, level, sorted (ids.filter fun e => labels e = label).dedup⟩

/-! ## Levels -/

section Detect

variable {W : Type*} [Zero W] [Add W] [LT W] [DecidableLT W] [BEq W] {ρ : Type*} (d : LPADetector)
  (p : Provider W) (shuffle : ρ → List String → List String × ρ)

/-- `detectCommunitiesAtLevel`, without the writes. -/
def detectCommunitiesAtLevel (ids : List String) (level : ℤ) (r : ρ) :
    Option (List Community × ρ) :=
  (propagate p ids shuffle d.maxIterations r id).map fun found =>
    (buildCommunities ids found.1 level, found.2)

def detectHierarchicalLevel (prev : List Community) (level : ℤ) (r : ρ) :
    Option (List Community × ρ) :=
  detectCommunitiesAtLevel d p shuffle (prev.flatMap Community.members) level r

def higherLevels : ℕ → ℤ → List Community → ρ → Option (List (List Community))
  | 0, _, _, _ => some []
  | n + 1, level, prev, r =>
    (detectHierarchicalLevel d p shuffle prev level r).bind fun found =>
      (higherLevels n (level + 1) found.1 found.2).map (found.1 :: ·)

/-- `DetectCommunities`: the communities of each level, from level zero. -/
def detectCommunities (seed : ρ) : Option (List (List Community)) :=
  p.getAllEntityIDs.bind fun all =>
    if all = [] then some []
    else
      (detectCommunitiesAtLevel d p shuffle (sorted all) 0 seed).bind fun found =>
        (higherLevels d p shuffle (d.levels - 1) 1 found.1 found.2).map (found.1 :: ·)

end Detect

/-! ## Every level is a partition -/

section Labels

variable {W : Type*} [Zero W] [LT W] [DecidableLT W] [BEq W]

theorem winningLabel_mem {votes : AList fun _ : String => W} (h : winningLabel votes ≠ "") :
    winningLabel votes ∈ votes := by
  have hfold : ∀ (entries : List ((_ : String) × W)) (best : W × String),
      (entries.foldl better best).2 = best.2 ∨
        (entries.foldl better best).2 ∈ entries.map Sigma.fst := by
    intro entries
    induction entries with
    | nil => exact fun best => .inl rfl
    | cons entry entries ih =>
      intro best
      rw [foldl_cons, map_cons, mem_cons]
      rcases ih (better best entry) with heq | hmem
      · rw [heq]
        unfold better
        split
        · exact .inr (.inl rfl)
        · exact .inl rfl
      · exact .inr (.inr hmem)
  exact AList.mem_keys.2 ((hfold votes.entries (0, "")).resolve_left h)

variable [Add W] {p : Provider W} {ids : List String} {e : String}

/-- A relation between entities and labels that a neighbour's label brings along. -/
def Spreads (p : Provider W) (ids : List String) (P : String → String → Prop) : Prop :=
  ∀ e neighbors, p.getNeighbors e = some neighbors → ∀ n ∈ neighbors, n ∈ ids →
    ∀ label, P n label → P e label

variable {P : String → String → Prop}

theorem computeNewLabel_spreads {label : String} (hP : Spreads p ids P)
    (hlabels : ∀ e ∈ ids, P e (labels e)) (he : e ∈ ids)
    (h : computeNewLabel p ids labels e = some label) : P e label := by
  obtain ⟨neighbors, hneighbors, h⟩ := bind_eq_some_iff.1 h
  split at h
  · cases h
    exact hlabels e he
  · obtain ⟨votes, hvotes, rfl⟩ := map_eq_some_iff.1 h
    have hvoted : ∀ l ∈ votes, P e l := by
      refine run_invariant_along (I := fun votes : AList fun _ : String => W => ∀ l ∈ votes, P e l)
        (C := fun _ n => n ∈ sorted neighbors) ?_ (fun l hl => absurd hl (AList.notMem_empty l))
        (along_of_forall_mem fun _ _ hn => hn) hvotes
      intro votes n _ hvotes hn hstep
      unfold vote at hstep
      split at hstep
      · next hid =>
        obtain ⟨_, -, rfl⟩ := map_eq_some_iff.1 hstep
        intro l hl
        rcases (AList.mem_insert votes).1 hl with rfl | hl
        · exact hP e neighbors hneighbors n (mem_sorted.1 hn) hid _ (hlabels n hid)
        · exact hvotes l hl
      · cases hstep
        exact hvotes
    split
    · exact hlabels e he
    · next hne => exact hvoted _ (winningLabel_mem hne)

theorem relabel_spreads (hP : Spreads p ids P)
    (hlabels : ∀ e ∈ ids, P e (state.1 e)) (h : relabel p ids state e = some state') :
    ∀ e ∈ ids, P e (state'.1 e) := by
  obtain ⟨label, hlabel, rfl⟩ := map_eq_some_iff.1 h
  split
  · intro e' he'
    show P e' (update state.1 e label e')
    by_cases heq : e' = e
    · subst heq
      rw [update_self]
      exact computeNewLabel_spreads hP hlabels he' hlabel
    · rw [update_of_ne heq]
      exact hlabels e' he'
  · exact hlabels

/-- **What spreads along a vote holds of every label after any number of sweeps.** -/
theorem propagate_spreads {ρ : Type*} {shuffle : ρ → List String → List String × ρ} {n : ℕ}
    {r r' : ρ} {labels' : String → String} (hP : Spreads p ids P)
    (hlabels : ∀ e ∈ ids, P e (labels e))
    (h : propagate p ids shuffle n r labels = some (labels', r')) :
    ∀ e ∈ ids, P e (labels' e) := by
  induction n generalizing r labels with
  | zero =>
    simp only [propagate, Option.some.injEq, Prod.mk.injEq] at h
    rw [← h.1]
    exact hlabels
  | succ n ih =>
    obtain ⟨state, hrun, h⟩ := bind_eq_some_iff.1 h
    have hstate : ∀ e ∈ ids, P e (state.1 e) :=
      run_invariant (I := fun state : (String → String) × Bool => ∀ e ∈ ids, P e (state.1 e))
        (fun _ _ _ hs hstep => relabel_spreads hP hs hstep) hlabels hrun
    split at h
    · exact ih hstate h
    · simp only [Option.some.injEq, Prod.mk.injEq] at h
      rw [← h.1]
      exact hstate

end Labels

/-- **A level is a partition of the entities**, in the order of the ids. -/
structure IsLevel (ids : List String) (level : ℤ) (cs : List Community) : Prop where
  level_eq : ∀ c ∈ cs, c.level = level
  ordered : cs.Pairwise fun c d => c.id < d.id
  id_mem : ∀ c ∈ cs, c.id ∈ ids
  members_ne : ∀ c ∈ cs, c.members ≠ []
  mem_iff : ∀ e, e ∈ ids ↔ ∃ c ∈ cs, e ∈ c.members
  disjoint : ∀ c ∈ cs, ∀ d ∈ cs, ∀ e, e ∈ c.members → e ∈ d.members → c = d

theorem sorted_lt (h : ids.Nodup) : (sorted ids).Pairwise (· < ·) := by
  have hle : (sorted ids).Pairwise (· ≤ ·) := pairwise_insertionSort _ _
  have hne : (sorted ids).Pairwise (· ≠ ·) := ((perm_insertionSort _ _).nodup_iff).2 h
  exact (hle.and hne).imp fun h => lt_of_le_of_ne h.1 h.2

theorem mem_buildCommunities : c ∈ buildCommunities ids labels level ↔
      ∃ e ∈ ids, c = ⟨labels e, level, sorted (ids.filter fun e' => labels e' = labels e).dedup⟩ := by
  simp only [buildCommunities, List.mem_map, mem_sorted, mem_dedup]
  constructor
  · rintro ⟨_, ⟨e, he, rfl⟩, rfl⟩
    exact ⟨e, he, rfl⟩
  · rintro ⟨e, he, rfl⟩
    exact ⟨labels e, ⟨e, he, rfl⟩, rfl⟩

/-- Where labels are entities, the communities of the labels are a level. -/
theorem isLevel_buildCommunities (hlabels : ∀ e ∈ ids, labels e ∈ ids) (level : ℤ) :
    IsLevel ids level (buildCommunities ids labels level) where
  level_eq := by
    intro c hc
    obtain ⟨e, -, rfl⟩ := mem_buildCommunities.1 hc
    rfl
  ordered := by
    rw [buildCommunities, pairwise_map]
    exact sorted_lt (nodup_dedup _)
  id_mem := by
    intro c hc
    obtain ⟨e, he, rfl⟩ := mem_buildCommunities.1 hc
    exact hlabels e he
  members_ne := by
    intro c hc
    obtain ⟨e, he, rfl⟩ := mem_buildCommunities.1 hc
    exact ne_nil_of_mem (a := e) (by simp [he])
  mem_iff := by
    intro e
    constructor
    · intro he
      exact ⟨_, mem_buildCommunities.2 ⟨e, he, rfl⟩, by simp [he]⟩
    · rintro ⟨c, hc, he⟩
      obtain ⟨_, -, rfl⟩ := mem_buildCommunities.1 hc
      simp only [mem_sorted, mem_dedup, mem_filter] at he
      exact he.1
  disjoint := by
    intro c hc d hd e he he'
    obtain ⟨x, -, rfl⟩ := mem_buildCommunities.1 hc
    obtain ⟨y, -, rfl⟩ := mem_buildCommunities.1 hd
    simp only [mem_sorted, mem_dedup, mem_filter, decide_eq_true_eq] at he he'
    have hsame : labels x = labels y := he.2.symm.trans he'.2
    rw [hsame]

/-- **What a run leaves**: communities in the order of level and id, each with members, of
one level no two with a member in common. -/
structure IsPartition (cs : List Community) : Prop where
  level_nonneg : ∀ c ∈ cs, 0 ≤ c.level
  level_lt : ∀ c ∈ cs, c.level < maxCommunityLevels
  id_ne : ∀ c ∈ cs, c.id ≠ ""
  ordered : cs.Pairwise fun c d => c.level < d.level ∨ c.level = d.level ∧ c.id < d.id
  members_ne : ∀ c ∈ cs, c.members ≠ []
  members_id_ne : ∀ c ∈ cs, "" ∉ c.members
  disjoint : ∀ c ∈ cs, ∀ d ∈ cs, c.level = d.level → ∀ e, e ∈ c.members → e ∈ d.members → c = d

variable {W : Type*} [Zero W] [Add W] [LT W] [DecidableLT W] [BEq W] {ρ : Type*} {d : LPADetector}
  {p : Provider W} {shuffle : ρ → List String → List String × ρ} {level : ℤ} {cs : List Community}

theorem isLevel_of_detect (h : detectCommunitiesAtLevel d p shuffle ids level r = some (cs, r')) :
    IsLevel ids level cs := by
  obtain ⟨⟨_, _⟩, hpropagate, h⟩ := map_eq_some_iff.1 h
  obtain ⟨rfl, -⟩ := Prod.mk.injEq .. ▸ h
  refine isLevel_buildCommunities ?_ level
  exact propagate_spreads (P := fun _ label => label ∈ ids) (fun _ _ _ _ _ _ _ hl => hl)
    (fun _ he => he) hpropagate

/-- The entities of a level are those of the level below. -/
theorem IsLevel.of_flatMap (h : IsLevel ids level cs)
    (h' : IsLevel (cs.flatMap Community.members) level' cs') : IsLevel ids level' cs' := by
  have hmem : ∀ e, e ∈ cs.flatMap Community.members ↔ e ∈ ids := by
    intro e
    rw [mem_flatMap, h.mem_iff]
  exact { h' with
    id_mem := fun c hc => (hmem _).1 (h'.id_mem c hc)
    mem_iff := fun e => (hmem e).symm.trans (h'.mem_iff e) }

variable {css : List (List Community)}

theorem isLevel_of_higherLevels {prev : List Community} {below : ℤ}
    (hprev : IsLevel ids below prev) (h : higherLevels d p shuffle n level prev r = some css) :
    css.length = n ∧ ∀ (i : ℕ) cs, css[i]? = some cs → IsLevel ids (level + i) cs := by
  induction n generalizing level prev r css below with
  | zero =>
    cases h
    exact ⟨rfl, nofun⟩
  | succ n ih =>
    obtain ⟨⟨_, _⟩, hfound, h⟩ := bind_eq_some_iff.1 h
    obtain ⟨_, hrest, rfl⟩ := map_eq_some_iff.1 h
    have hlevel := hprev.of_flatMap (isLevel_of_detect hfound)
    obtain ⟨hlen, hall⟩ := ih hlevel hrest
    refine ⟨by simp [hlen], ?_⟩
    intro i cs hi
    cases i with
    | zero =>
      cases hi
      simpa using hlevel
    | succ i =>
      have hnext : level + 1 + (i : ℤ) = level + ((i + 1 : ℕ) : ℤ) := by omega
      exact hnext ▸ hall i cs hi

/-- **The levels of a run.** -/
theorem isLevel_of_detectCommunities (h : detectCommunities d p shuffle seed = some css) :
    ∃ all, p.getAllEntityIDs = some all ∧ css.length ≤ maxCommunityLevels ∧
      ∀ (i : ℕ) cs, css[i]? = some cs → IsLevel all i cs := by
  obtain ⟨all, hall, h⟩ := bind_eq_some_iff.1 h
  refine ⟨all, hall, ?_⟩
  split at h
  · cases h
    exact ⟨Nat.zero_le _, nofun⟩
  · obtain ⟨⟨_, _⟩, hfound, h⟩ := bind_eq_some_iff.1 h
    obtain ⟨_, hrest, rfl⟩ := map_eq_some_iff.1 h
    have hlevel := isLevel_of_detect hfound
    obtain ⟨hlen, hrest⟩ := isLevel_of_higherLevels hlevel hrest
    have hmem : ∀ e, e ∈ sorted all ↔ e ∈ all := fun e => mem_sorted
    have hsorted : ∀ {level : ℤ} {cs : List Community}, IsLevel (sorted all) level cs →
        IsLevel all level cs := fun h =>
      { h with
        id_mem := fun c hc => (hmem _).1 (h.id_mem c hc)
        mem_iff := fun e => (hmem e).symm.trans (h.mem_iff e) }
    have := d.levels_pos
    have := d.levels_le
    refine ⟨by simp only [length_cons, hlen]; omega, ?_⟩
    intro i cs hi
    cases i with
    | zero =>
      cases hi
      exact hsorted hlevel
    | succ i =>
      have hnext : 1 + (i : ℤ) = ((i + 1 : ℕ) : ℤ) := by omega
      exact hnext ▸ hsorted (hrest i cs hi)

theorem getElem?_of_mem_flatten (h : c ∈ css.flatten) :
    ∃ (i : ℕ) (cs : List Community), css[i]? = some cs ∧ c ∈ cs := by
  obtain ⟨cs, hcs, hc⟩ := mem_flatten.1 h
  obtain ⟨i, hi⟩ := List.getElem?_of_mem hcs
  exact ⟨i, cs, hi, hc⟩

/-- **A run leaves a partition on every level.** -/
theorem detect_partition (h : detectCommunities d p shuffle seed = some css) :
    IsPartition css.flatten := by
  obtain ⟨all, hall, _, hlevels⟩ := isLevel_of_detectCommunities h
  have hlevel : ∀ c ∈ css.flatten, ∃ (i : ℕ) (cs : List Community), css[i]? = some cs ∧ c ∈ cs ∧
      IsLevel all i cs ∧ c.level = i := by
    intro c hc
    obtain ⟨i, cs, hi, hc⟩ := getElem?_of_mem_flatten hc
    exact ⟨i, cs, hi, hc, hlevels i cs hi, (hlevels i cs hi).level_eq c hc⟩
  have hne := p.ids_ne all hall
  constructor
  · intro c hc
    obtain ⟨i, -, -, -, -, heq⟩ := hlevel c hc
    omega
  · intro c hc
    obtain ⟨i, cs, hi, -, -, heq⟩ := hlevel c hc
    have := (List.getElem?_eq_some_iff.1 hi).1
    omega
  · intro c hc heq
    obtain ⟨i, cs, hi, hc, hl, -⟩ := hlevel c hc
    exact hne (heq ▸ hl.id_mem c hc)
  · rw [pairwise_flatten]
    constructor
    · intro cs hcs
      obtain ⟨i, hi⟩ := List.getElem?_of_mem hcs
      have hl := hlevels i cs hi
      refine hl.ordered.imp_of_mem ?_
      intro c d hc hd hlt
      exact .inr ⟨(hl.level_eq c hc).trans (hl.level_eq d hd).symm, hlt⟩
    · rw [pairwise_iff_getElem]
      intro i j hi hj _ c hc d hd
      have hci := (hlevels i _ (List.getElem?_eq_getElem hi)).level_eq c hc
      have hdj := (hlevels j _ (List.getElem?_eq_getElem hj)).level_eq d hd
      exact .inl (by omega)
  · intro c hc
    obtain ⟨i, cs, hi, hc, hl, -⟩ := hlevel c hc
    exact hl.members_ne c hc
  · intro c hc hmem
    obtain ⟨i, cs, hi, hc, hl, -⟩ := hlevel c hc
    exact hne ((hl.mem_iff "").2 ⟨c, hc, hmem⟩)
  · intro c hc d hd heq e he he'
    obtain ⟨i, cs, hi, hc, hl, hci⟩ := hlevel c hc
    obtain ⟨j, _, hj, hd, -, hdj⟩ := hlevel d hd
    obtain rfl : i = j := by omega
    rw [hi] at hj
    cases hj
    exact hl.disjoint c hc d hd e he he'

end SemStreams.Clustering
