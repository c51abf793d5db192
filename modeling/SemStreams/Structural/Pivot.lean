import Mathlib.Data.List.Basic
import Mathlib.Logic.Function.Basic
import Mathlib.Order.Nat
/-!
# Structural index — distances to a pivot

A breadth-first search runs from each pivot and writes the level at which it meets an entity into
that entity's vector. Its limit is looked at after the level is counted, so one level more than the
sentinel stands for is searched: an entity at that distance gets an entry above the sentinel, and
every other entry is exact, `reaches_iff`. The triangle inequality bounds the distance
of two entities by their entries at a common pivot; two entities without one are taken to be apart,
also where they are neighbors.
-/

namespace SemStreams.Structural

open List

def maxHopDistance : ℕ := 255

/-- What the graph provider is asked for: the entities, and the neighbors of each. -/
structure Provider (α : Type*) where
  entityIDs : List α
  neighbors : α → List α

variable {α : Type*} (g : Provider α)

/-! ## Distances -/

/-- A path of so many edges between entities. -/
def Path (pivot : α) : ℕ → α → Prop
  | 0, x => x = pivot
  | n + 1, x => ∃ y, Path pivot n y ∧ x ∈ g.neighbors y ∧ x ∈ g.entityIDs

/-- The shortest path has so many edges. -/
def Distance (pivot : α) (n : ℕ) (x : α) : Prop :=
  Path g pivot n x ∧ ∀ m < n, ¬ Path g pivot m x

/-- What the entry of an entity stands for: its distance below the sentinel, else the sentinel. -/
def Exact (pivot x : α) (entry : ℕ) : Prop :=
  (∀ n < maxHopDistance, Distance g pivot n x → entry = n) ∧
    ((∀ n < maxHopDistance, ¬ Distance g pivot n x) → entry = maxHopDistance)

def Undirected : Prop :=
  ∀ x ∈ g.entityIDs, ∀ y ∈ g.entityIDs, y ∈ g.neighbors x → x ∈ g.neighbors y

variable {g} {pivot x y : α} {m n distance : ℕ}

theorem exists_distance (h : Path g pivot n x) : ∃ m, Distance g pivot m x := by
  classical
  have hsome : ∃ m, Path g pivot m x := ⟨n, h⟩
  exact ⟨Nat.find hsome, Nat.find_spec hsome, fun _ => Nat.find_min hsome⟩

theorem Distance.le (hn : Distance g pivot n x) (hm : Path g pivot m x) : n ≤ m :=
  Nat.not_lt.1 fun hlt => hn.2 m hlt hm

theorem Distance.unique (hn : Distance g pivot n x) (hm : Distance g pivot m x) : n = m :=
  Nat.le_antisymm (hn.le hm.1) (hm.le hn.1)

theorem Path.trans (hm : Path g x m y) (hn : Path g y n z) : Path g x (m + n) z := by
  induction n generalizing z with
  | zero => exact hn ▸ hm
  | succ n ih =>
    obtain ⟨w, hw, hedge⟩ := hn
    exact ⟨w, ih hw, hedge⟩

theorem Path.mem (h : Path g x n y) (hx : x ∈ g.entityIDs) : y ∈ g.entityIDs := by
  cases n with
  | zero => exact h ▸ hx
  | succ n =>
    obtain ⟨_, -, -, hy⟩ := h
    exact hy

theorem Path.symm (hg : Undirected g) (hx : x ∈ g.entityIDs) (h : Path g x n y) : Path g y n x := by
  induction n generalizing y with
  | zero => exact h.symm
  | succ n ih =>
    obtain ⟨w, hw, hedge, hy⟩ := h
    have hback : Path g y 1 w := ⟨y, rfl, hg w (hw.mem hx) y hy hedge, hw.mem hx⟩
    rw [Nat.add_comm]
    exact hback.trans (ih hw)

/-! ## The search -/

/-- One pivot's column of the vectors, and what the search has met. -/
structure Search (α : Type*) where
  visited : List α
  queue : List α
  entry : α → ℕ

/-- **Where the search stands after a level**: what lies nearer was met, the queue is what lies just
there, and the entries are the distances met. -/
structure Reached (g : Provider α) (pivot : α) (n : ℕ) (s : Search α) : Prop where
  visited : ∀ x ∈ g.entityIDs, x ∈ s.visited ↔ ∃ m ≤ n, Path g pivot m x
  queue : ∀ x, x ∈ s.queue ↔ Distance g pivot n x
  entry : ∀ m ≤ n, ∀ x, Distance g pivot m x → s.entry x = m
  unmet : ∀ x, (∀ m ≤ n, ¬ Distance g pivot m x) → s.entry x = maxHopDistance

variable [DecidableEq α] (g)

/-- The body of the inner loop, on one neighbor. -/
def Search.meet (distance : ℕ) (s : Search α) (neighbor : α) : Search α :=
  if neighbor ∈ s.visited then s
  else if neighbor ∉ g.entityIDs then { s with visited := neighbor :: s.visited }
  else
    ⟨neighbor :: s.visited, s.queue ++ [neighbor], Function.update s.entry neighbor (distance + 1)⟩

def Search.level (distance : ℕ) (s : Search α) : Search α :=
  s.queue.foldl (fun s node => (g.neighbors node).foldl (Search.meet g distance) s)
    { s with queue := [] }

/-- The levels from a distance on, so many at most. -/
def Search.levels : ℕ → ℕ → Search α → Search α
  | 0, _, s => s
  | n + 1, distance, s =>
    if s.queue = [] then s
    else Search.levels n (distance + 1) (s.level g distance)

/-- `bfsFromPivot`: the loop breaks once the distance is above the limit. -/
def bfsFromPivot (pivot : α) : α → ℕ :=
  if pivot ∈ g.entityIDs then
    (Search.levels g (maxHopDistance + 1) 0
      ⟨[pivot], [pivot], Function.update (fun _ => maxHopDistance) pivot 0⟩).entry
  else fun _ => maxHopDistance

/-- `computeDistanceVectors`: an entry for each pivot. -/
def computeDistanceVectors (pivots : List α) (id : α) : List ℕ :=
  pivots.map fun pivot => bfsFromPivot g pivot id

variable {g} {s : Search α}

/-- What a list of neighbors adds. -/
theorem foldl_meet (s : Search α) (ns : List α) :
    (∀ x, x ∈ (ns.foldl (Search.meet g distance) s).visited ↔ x ∈ s.visited ∨ x ∈ ns) ∧
      (∀ x, x ∈ (ns.foldl (Search.meet g distance) s).queue ↔
        x ∈ s.queue ∨ (x ∈ ns ∧ x ∉ s.visited ∧ x ∈ g.entityIDs)) ∧
      ∀ x, (ns.foldl (Search.meet g distance) s).entry x =
        if x ∈ ns ∧ x ∉ s.visited ∧ x ∈ g.entityIDs then distance + 1 else s.entry x := by
  induction ns generalizing s with
  | nil => simp
  | cons a ns ih =>
    obtain ⟨hvisited, hqueue, hentry⟩ := ih (Search.meet g distance s a)
    rw [foldl_cons]
    simp only [hvisited, hqueue, hentry, mem_cons]
    unfold Search.meet
    split_ifs with hmet hid
    · grind
    · grind [Function.update_apply]
    · grind

/-- One level takes the search one edge further. -/
theorem Reached.level (h : Reached g pivot n s) : Reached g pivot (n + 1) (s.level g n) := by
  have hlevel : s.level g n =
      (s.queue.flatMap g.neighbors).foldl (Search.meet g n) { s with queue := [] } := by
    rw [foldl_flatMap]
    rfl
  obtain ⟨hvisited, hqueue, hentry⟩ :=
    @foldl_meet _ g n _ { s with queue := [] } (s.queue.flatMap g.neighbors)
  -- the entities met at this level are those just one edge further
  have hnew : ∀ x, (x ∈ s.queue.flatMap g.neighbors ∧ x ∉ s.visited ∧ x ∈ g.entityIDs) ↔
      Distance g pivot (n + 1) x := by
    intro x
    rw [mem_flatMap]
    constructor
    · rintro ⟨⟨y, hy, hxy⟩, hx, hid⟩
      exact ⟨⟨y, ((h.queue y).1 hy).1, hxy, hid⟩, fun m hm hpath =>
        hx ((h.visited x hid).2 ⟨m, by omega, hpath⟩)⟩
    · rintro ⟨⟨y, hy, hxy, hid⟩, hleast⟩
      refine ⟨⟨y, (h.queue y).2 ⟨hy, fun m hm hpath => ?_⟩, hxy⟩, fun hx => ?_, hid⟩
      · exact hleast (m + 1) (by omega) ⟨y, hpath, hxy, hid⟩
      · obtain ⟨m, hm, hpath⟩ := (h.visited x hid).1 hx
        exact hleast m (by omega) hpath
  rw [hlevel]
  refine ⟨fun x hid => ?_, fun x => ?_, fun m hm x hd => ?_, fun x hx => ?_⟩
  · have hmet := h.visited x hid
    have hfurther := hnew x
    rw [hvisited]
    unfold Distance at hfurther
    grind
  · simp only [hqueue, hnew, not_mem_nil, false_or]
  · rw [hentry]
    split_ifs with hat
    · exact ((hnew x).1 hat).unique hd
    · rcases Nat.lt_or_eq_of_le hm with hlt | rfl
      · exact h.entry m (by omega) x hd
      · exact absurd ((hnew x).2 hd) hat
  · rw [hentry, if_neg fun hat => hx (n + 1) le_rfl ((hnew x).1 hat)]
    exact h.unmet x fun m hm => hx m (by omega)

theorem levels_of_nil (h : s.queue = []) : Search.levels g m n s = s := by
  cases m with
  | zero => rfl
  | succ m => rw [Search.levels, if_pos h]

theorem Reached.levels (h : Reached g pivot n s) (m : ℕ) :
    Reached g pivot (n + m) (Search.levels g m n s) := by
  induction m generalizing n s with
  | zero => exact h
  | succ m ih =>
    have hih := ih h.level
    rw [Search.levels, Nat.add_comm m 1, ← Nat.add_assoc]
    split
    · next hempty =>
      -- a level without nodes changes nothing
      have hsame : s.level g n = s := by
        obtain ⟨visited, queue, entry⟩ := s
        cases hempty
        rfl
      rwa [hsame, levels_of_nil hempty] at hih
    · exact hih

theorem reached_bfsFromPivot (hpivot : pivot ∈ g.entityIDs) :
    ∃ s, Reached g pivot (maxHopDistance + 1) s ∧ bfsFromPivot g pivot = s.entry := by
  have hstart : Reached g pivot 0
      ⟨[pivot], [pivot], Function.update (fun _ => maxHopDistance) pivot 0⟩ := by
    have hzero : ∀ x, Distance g pivot 0 x ↔ x = pivot :=
      fun x => ⟨fun h => h.1, fun h => ⟨h, nofun⟩⟩
    refine ⟨fun x _ => ?_, fun x => ?_, fun m hm x hd => ?_, fun x hx => ?_⟩
    · simp [Path]
    · simp [hzero]
    · obtain rfl := Nat.le_zero.1 hm
      simp [(hzero x).1 hd]
    · have hne : x ≠ pivot := fun heq => hx 0 le_rfl ((hzero x).2 heq)
      simp [hne]
  have hend := hstart.levels (maxHopDistance + 1)
  rw [Nat.zero_add] at hend
  exact ⟨_, hend, by rw [bfsFromPivot, if_pos hpivot]⟩

/-- A search from the pivot leaves an entry other than the sentinel. -/
def Reaches (g : Provider α) (pivot : α) (n : ℕ) (x : α) : Prop :=
  n ≤ maxHopDistance + 1 ∧ n ≠ maxHopDistance ∧ Distance g pivot n x

theorem reaches_iff (hpivot : pivot ∈ g.entityIDs) :
    Reaches g pivot n x ↔ bfsFromPivot g pivot x = n ∧ n ≠ maxHopDistance := by
  obtain ⟨s, hend, hentry⟩ := reached_bfsFromPivot hpivot
  rw [hentry]
  constructor
  · exact fun ⟨hle, hn, hd⟩ => ⟨hend.entry n hle x hd, hn⟩
  rintro ⟨rfl, hn⟩
  by_contra hnot
  refine hn (hend.unmet x fun m hm hd => hnot ?_)
  rw [hend.entry m hm x hd] at hn ⊢
  exact ⟨hm, hn, hd⟩

/-- **The entries of the vectors are exact** but for the entities at one edge more than the
sentinel. -/
theorem vectors_exact_iff (g : Provider α) (pivots : List α) (i : ℕ)
    (hi : pivots[i]? = some pivot) (hpivot : pivot ∈ g.entityIDs) :
    (∃ entry, (computeDistanceVectors g pivots x)[i]? = some entry ∧ Exact g pivot x entry) ↔
      ¬ Distance g pivot (maxHopDistance + 1) x := by
  simp only [computeDistanceVectors, getElem?_map, hi, Option.map_some, Option.some.injEq,
    exists_eq_left']
  constructor
  · rintro ⟨-, hfar⟩ hd
    have hentry := ((reaches_iff hpivot).1 ⟨le_rfl, by decide, hd⟩).1
    rw [hfar fun n hn hn' => by cases hn'.unique hd; omega] at hentry
    omega
  · intro hnot
    refine ⟨fun n hn hd => ?_, fun hfar => ?_⟩
    · exact ((reaches_iff hpivot).1 ⟨by omega, by omega, hd⟩).1
    by_contra hne
    obtain ⟨hle, -, hd⟩ := (reaches_iff hpivot).2 ⟨rfl, hne⟩
    rcases Nat.lt_or_eq_of_le hle with hlt | heq
    · exact hfar _ (by omega) hd
    · exact hnot (heq ▸ hd)

/-- A row of entities, each next to the one before and the one after it. -/
def row (length : ℕ) : Provider ℕ := ⟨range length, fun n => [n - 1, n + 1]⟩

theorem vectors_exact_row : ∃ entry, (computeDistanceVectors (row 3) [0] 2)[0]? = some entry ∧
      Exact (row 3) 0 2 entry :=
  (vectors_exact_iff (row 3) [0] 0 rfl (by decide)).2 fun hd =>
    hd.2 2 (by decide) ⟨1, ⟨0, rfl, by decide, by decide⟩, by decide, by decide⟩

theorem distance_row (h : n < m) : Distance (row m) 0 n n := by
  constructor
  · induction n with
    | zero => rfl
    | succ n ih => exact ⟨n, ih (by omega), by simp [row], List.mem_range.2 h⟩
  · have hbound : ∀ n x, Path (row m) 0 n x → x ≤ n := by
      intro n
      induction n with
      | zero => exact fun x hx => Nat.le_of_eq hx
      | succ n ih =>
        rintro x ⟨y, hy, hxy, -⟩
        have hle := ih y hy
        simp only [row, mem_cons, not_mem_nil, or_false] at hxy
        omega
    exact fun k hk hpath => Nat.not_lt.2 (hbound k n hpath) hk

/-- The entry at the end of a row of 256 edges is 256. -/
theorem row_end_beyond_sentinel :
    ¬ ∃ entry, (computeDistanceVectors (row 257) [0] 256)[0]? = some entry ∧
      Exact (row 257) 0 256 entry := by
  have hfar : Distance (row 257) 0 256 256 := distance_row (by decide)
  have hentry := ((reaches_iff (by simp [row])).1 ⟨le_rfl, by decide, hfar⟩).1
  rintro ⟨_, hsome, -, hexact⟩
  rw [computeDistanceVectors, map_singleton, getElem?_cons_zero, Option.some.injEq, hentry] at hsome
  have hsentinel := hexact fun n hn hd => by cases hd.unique hfar; exact absurd hn (by decide)
  exact absurd (hsome.trans hsentinel) (by decide)

/-! ## Bounds on the distance of two entities -/

/-- The index: its keys are the entities. -/
structure PivotIndex (α : Type*) where
  pivots : List α
  entityIDs : List α
  distanceVectors : α → List ℕ

/-- The index over the pivots selected. -/
def compute (g : Provider α) (pivots : List α) : PivotIndex α :=
  ⟨pivots, g.entityIDs, computeDistanceVectors g pivots⟩

/-- The entries of two entities at the pivots that reach both. -/
def PivotIndex.common (idx : PivotIndex α) (a b : α) : List (ℕ × ℕ) :=
  (((idx.distanceVectors a).zip (idx.distanceVectors b)).take idx.pivots.length).filter fun d =>
    d.1 ≠ maxHopDistance ∧ d.2 ≠ maxHopDistance

def lowerBound (ds : List (ℕ × ℕ)) : ℕ :=
  ds.foldl (fun lower d => max lower (max (d.1 - d.2) (d.2 - d.1))) 0

def upperBound (ds : List (ℕ × ℕ)) : ℕ :=
  ds.foldl (fun upper d => min upper (d.1 + d.2)) maxHopDistance

def PivotIndex.estimateDistance (idx : PivotIndex α) (entityA entityB : α) : ℕ × ℕ :=
  if entityA ∈ idx.entityIDs ∧ entityB ∈ idx.entityIDs ∧ idx.common entityA entityB ≠ [] then
    (lowerBound (idx.common entityA entityB), upperBound (idx.common entityA entityB))
  else (maxHopDistance, maxHopDistance)

def PivotIndex.getReachableCandidates (idx : PivotIndex α) (source : α) (maxHops : ℕ) : List α :=
  if source ∈ idx.entityIDs then
    idx.entityIDs.filter fun id =>
      id ≠ source ∧ idx.common source id ≠ [] ∧ lowerBound (idx.common source id) ≤ maxHops
  else []

variable {pivots : List α} {a b : α}

/-- The pairs of entries are pairs of distances. -/
theorem mem_common (hpivots : ∀ p ∈ pivots, p ∈ g.entityIDs) :
    (m, n) ∈ (compute g pivots).common a b ↔ ∃ p ∈ pivots, Reaches g p m a ∧ Reaches g p n b := by
  have hzip : ((computeDistanceVectors g pivots a).zip (computeDistanceVectors g pivots b)).take
      pivots.length = pivots.map fun p => (bfsFromPivot g p a, bfsFromPivot g p b) := by
    rw [computeDistanceVectors, computeDistanceVectors, zip_map', take_of_length_le (by simp)]
  simp only [PivotIndex.common, compute, hzip, mem_filter, mem_map, decide_eq_true_eq,
    Prod.mk.injEq]
  constructor
  · rintro ⟨⟨p, hp, hm, hn⟩, hm', hn'⟩
    exact ⟨p, hp, (reaches_iff (hpivots p hp)).2 ⟨hm, hm'⟩, (reaches_iff (hpivots p hp)).2 ⟨hn, hn'⟩⟩
  · rintro ⟨p, hp, hm, hn⟩
    rw [reaches_iff (hpivots p hp)] at hm hn
    exact ⟨⟨p, hp, hm.1, hn.1⟩, hm.2, hn.2⟩

theorem common_ne_nil (hpivots : ∀ p ∈ pivots, p ∈ g.entityIDs) :
    (compute g pivots).common a b ≠ [] ↔
      ∃ p ∈ pivots, ∃ m n, Reaches g p m a ∧ Reaches g p n b := by
  rw [ne_eq, eq_nil_iff_forall_not_mem]
  push Not
  constructor
  · rintro ⟨⟨m, n⟩, h⟩
    obtain ⟨p, hp, h⟩ := (mem_common hpivots).1 h
    exact ⟨p, hp, m, n, h⟩
  · rintro ⟨p, hp, m, n, h⟩
    exact ⟨(m, n), (mem_common hpivots).2 ⟨p, hp, h⟩⟩

theorem lowerBound_le (h : ∀ d ∈ ds, d.1 ≤ d.2 + n ∧ d.2 ≤ d.1 + n) : lowerBound ds ≤ n := by
  refine foldlRecOn (motive := (· ≤ n)) ds _ (Nat.zero_le n) fun lower hle d hd => ?_
  have hdiff := h d hd
  exact Nat.max_le.2 ⟨hle, by omega⟩

theorem le_upperBound (h : ∀ d ∈ ds, n ≤ d.1 + d.2) : min n maxHopDistance ≤ upperBound ds := by
  refine foldlRecOn (motive := (min n maxHopDistance ≤ ·)) ds _ (Nat.min_le_right ..) ?_
  intro upper hle d hd
  exact Nat.le_min.2 ⟨hle, (Nat.min_le_left ..).trans (h d hd)⟩

/-- The triangle inequality, at a common pivot. -/
theorem triangle (hg : Undirected g) (hpivots : ∀ p ∈ pivots, p ∈ g.entityIDs)
    (ha : a ∈ g.entityIDs) (hd : Distance g a distance b)
    (h : (m, n) ∈ (compute g pivots).common a b) :
    m ≤ n + distance ∧ n ≤ m + distance ∧ distance ≤ m + n := by
  obtain ⟨p, hp, ⟨-, -, hpa⟩, -, -, hpb⟩ := (mem_common hpivots).1 h
  have hid := hpivots p hp
  exact ⟨hpa.le (hpb.1.trans (hd.1.symm hg ha)), hpb.le (hpa.1.trans hd.1),
    hd.le ((hpa.1.symm hg hid).trans hpb.1)⟩

/-- **The bounds are sound**: two entities that a pivot reaches are at a distance between them, up
to the sentinel. -/
theorem estimateDistance_sound (hg : Undirected g) (hpivots : ∀ p ∈ pivots, p ∈ g.entityIDs)
    (ha : a ∈ g.entityIDs) (hb : b ∈ g.entityIDs) (hpivot : pivot ∈ pivots)
    (hm : m < maxHopDistance) (hpa : Distance g pivot m a)
    (hn : n < maxHopDistance) (hpb : Distance g pivot n b) :
    ∃ d, Distance g a d b ∧ ((compute g pivots).estimateDistance a b).1 ≤ d ∧
      min d maxHopDistance ≤ ((compute g pivots).estimateDistance a b).2 := by
  obtain ⟨d, hd⟩ := exists_distance ((hpa.1.symm hg (hpivots pivot hpivot)).trans hpb.1)
  have hcommon : (compute g pivots).common a b ≠ [] := by
    rw [common_ne_nil hpivots]
    exact ⟨pivot, hpivot, m, n, ⟨by omega, by omega, hpa⟩, by omega, by omega, hpb⟩
  rw [PivotIndex.estimateDistance, if_pos ⟨ha, hb, hcommon⟩]
  refine ⟨d, hd, lowerBound_le fun e he => ?_, le_upperBound fun e he => ?_⟩
  · have htriangle := triangle hg hpivots ha hd he
    exact ⟨htriangle.1, htriangle.2.1⟩
  · exact (triangle hg hpivots ha hd he).2.2

theorem estimateDistance_sound_row :
    ∃ d, Distance (row 3) 1 d 2 ∧ ((compute (row 3) [0]).estimateDistance 1 2).1 ≤ d ∧
      min d maxHopDistance ≤ ((compute (row 3) [0]).estimateDistance 1 2).2 :=
  estimateDistance_sound (by unfold Undirected; decide) (by decide) (by decide) (by decide) mem_cons_self (by decide)
    (distance_row (by decide)) (by decide) (distance_row (by decide))

/-- **An entity within the limit is a candidate exactly if it shares a pivot with the source.** -/
theorem mem_getReachableCandidates_iff (hg : Undirected g)
    (hpivots : ∀ p ∈ pivots, p ∈ g.entityIDs) (ha : a ∈ g.entityIDs) (hx : x ∈ g.entityIDs)
    (hne : x ≠ a) (hd : Distance g a distance x) {maxHops : ℕ} (hle : distance ≤ maxHops) :
    x ∈ (compute g pivots).getReachableCandidates a maxHops ↔
      ∃ p ∈ pivots, ∃ m n, Reaches g p m a ∧ Reaches g p n x := by
  have hlower : lowerBound ((compute g pivots).common a x) ≤ maxHops := by
    refine (lowerBound_le fun e he => ?_).trans hle
    have htriangle := triangle hg hpivots ha hd he
    exact ⟨htriangle.1, htriangle.2.1⟩
  have hid : a ∈ (compute g pivots).entityIDs := ha
  rw [← common_ne_nil hpivots, PivotIndex.getReachableCandidates, if_pos hid, mem_filter,
    decide_eq_true_eq]
  exact ⟨fun h => h.2.2.1, fun h => ⟨hx, hne, h, hlower⟩⟩

theorem mem_getReachableCandidates_row : 3 ∈ (compute (row 5) [0]).getReachableCandidates 1 2 := by
  have hpath : Path (row 5) 1 2 3 := ⟨2, ⟨1, rfl, by decide, by decide⟩, by decide, by decide⟩
  have hd : Distance (row 5) 1 2 3 := by
    refine ⟨hpath, ?_⟩
    rintro (_ | _ | m) hm
    · simp [Path]
    · simp [Path, row]
    · omega
  exact (mem_getReachableCandidates_iff (by unfold Undirected; decide) (by decide) (by decide)
    (by decide) (by decide) hd le_rfl).2
    ⟨0, mem_cons_self, 1, 3, ⟨by decide, by decide, distance_row (by decide)⟩, by decide, by decide,
      distance_row (by decide)⟩

def pairs : Provider ℕ :=
  ⟨range 4, fun | 0 => [1] | 1 => [0] | 2 => [3] | _ => [2]⟩

/-- Whatever pivot is taken, a neighbor is missing among the candidates. -/
theorem neighbor_missing_of_pairs :
    ¬ ∃ p ∈ pairs.entityIDs, ∀ a ∈ pairs.entityIDs, ∀ x ∈ pairs.entityIDs,
      x ≠ a → Distance pairs a 1 x → x ∈ (compute pairs [p]).getReachableCandidates a 1 := by
  have hlow : Distance pairs 0 1 1 := ⟨⟨0, rfl, by decide, by decide⟩, by simp [Path]⟩
  have hhigh : Distance pairs 2 1 3 := ⟨⟨2, rfl, by decide, by decide⟩, by simp [Path]⟩
  have hmissing : ∀ p ∈ pairs.entityIDs,
      3 ∉ (compute pairs [p]).getReachableCandidates 2 1 ∨
        1 ∉ (compute pairs [p]).getReachableCandidates 0 1 := by decide
  rintro ⟨p, hp, hall⟩
  rcases hmissing p hp with h | h
  · exact h (hall 2 (by decide) 3 (by decide) (by decide) hhigh)
  · exact h (hall 0 (by decide) 1 (by decide) (by decide) hlow)

end SemStreams.Structural
