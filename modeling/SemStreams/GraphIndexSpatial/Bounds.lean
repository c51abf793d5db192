import SemStreams.Graph.Entity
import SemStreams.Lib.Collect
import Mathlib.Data.List.AList
import Mathlib.Data.List.Dedup
import Mathlib.Data.List.Induction
import Mathlib.Data.Rat.Floor
/-!
# graph-index-spatial — positions and bounds queries

An entity with coordinates is entered in the cell its position falls into. Nothing is
ever taken out of a cell: a row stays when its entity moves to another cell, and when it
loses its coordinates. A bounds query reads the cells that meet the box, or all of them
if there are too many, and keeps the rows inside. So it is exact for every box exactly if
every entity has stayed in the cell it was first seen in; and an index without rows
answers a large box with an error.

Coordinates are exact numbers here, and so are the bins. The number of cells is a machine
integer: from 2^63 on it wraps around, the box may pass for a small one, and the query
never comes to list its cells. The boxes below that are `Listable`.
-/

namespace SemStreams.GraphIndexSpatial

open List Option

open SemStreams.Graph (EntityState Object Triple)

/-! ## Positions -/

/-- An entry of `ENTITY_STATES`, decoded. -/
structure Update where
  key : String
  state : EntityState

/-- The id an update is indexed under. -/
def Update.entityID (u : Update) : String :=
  if u.state.id ≠ "" then u.state.id
  else if u.key ≠ "" then u.key
  else (u.state.triples.head?.map Triple.subject).getD ""

/-- A row of a cell. -/
structure Position where
  lat : ℚ
  lon : ℚ
  alt : ℚ
deriving DecidableEq

section Extract

/- What the decoder makes of an object: a number, or no number. -/
variable (number : Object → Option ℚ)

/-- `extractGeoCoordinates`: of each coordinate the last number given. -/
def extractGeoCoordinates (triples : List Triple) : Option ℚ × Option ℚ × Option ℚ :=
  triples.foldl (fun (lat, lon, alt) t =>
    if t.predicate = "geo.location.latitude" then ((number t.object).or lat, lon, alt)
    else if t.predicate = "geo.location.longitude" then (lat, (number t.object).or lon, alt)
    else if t.predicate = "geo.location.altitude" then (lat, lon, (number t.object).or alt)
    else (lat, lon, alt)) (none, none, none)

/-- The position of an update, if it has a latitude and a longitude. -/
def Update.position (u : Update) : Option Position :=
  match extractGeoCoordinates number u.state.triples with
  | (some lat, some lon, alt) => some ⟨lat, lon, alt.getD 0⟩
  | _ => none

end Extract

/-! ## Cells -/

/-- `geohashMultiplier`, and the switch of `calculateGeohash`. -/
def geohashMultiplier (precision : ℤ) : ℚ :=
  if precision = 4 then 10
  else if precision = 5 then 50
  else if precision = 6 then 100
  else if precision = 7 then 300
  else if precision = 8 then 1000
  else 300

def latBin (precision : ℤ) (lat : ℚ) : ℤ := ⌊(lat + 90) * geohashMultiplier precision⌋

def lonBin (precision : ℤ) (lon : ℚ) : ℤ := ⌊(lon + 180) * geohashMultiplier precision⌋

def cellKey (precision lat lon : ℤ) : String :=
  "geo_" ++ toString precision ++ "_" ++ toString lat ++ "_" ++ toString lon

def calculateGeohash (precision : ℤ) (pos : Position) : String :=
  cellKey precision (latBin precision pos.lat) (lonBin precision pos.lon)

abbrev Cell := AList fun _ : String => Position

/-- `SPATIAL_INDEX`. -/
abbrev SpatialIndex := AList fun _ : String => Cell

def updateSpatialIndex (index : SpatialIndex) (key entityID : String) (pos : Position) :
    SpatialIndex :=
  index.insert key (((index.lookup key).getD ∅).insert entityID pos)

section Index

variable (number : Object → Option ℚ) (precision : ℤ)

def processEntityUpdate (index : SpatialIndex) (u : Update) : SpatialIndex :=
  match u.position number with
  | none => index
  | some pos => updateSpatialIndex index (calculateGeohash precision pos) u.entityID pos

/-- **The index after a sequence of updates.** -/
def indexOf (updates : List Update) : SpatialIndex :=
  updates.foldl (processEntityUpdate number precision) ∅

end Index

/-! ## Queries -/

structure BoundsRequest where
  north : ℚ
  south : ℚ
  east : ℚ
  west : ℚ
  limit : ℤ

structure SpatialResult where
  id : String
  position : Position
deriving DecidableEq

/-- The bins from one to another. -/
def binRange (lo hi : ℤ) : List ℤ := (List.range (hi - lo + 1).toNat).map fun i : ℕ => lo + i

/-- `latCount * lonCount`, before it is an `int`. -/
def BoundsRequest.cellCount (req : BoundsRequest) (precision : ℤ) : ℤ :=
  (latBin precision req.north - latBin precision req.south + 1) *
    (lonBin precision req.east - lonBin precision req.west + 1)

/-- An `int` holds the number of cells. -/
abbrev BoundsRequest.Listable (req : BoundsRequest) (precision : ℤ) : Prop :=
  req.cellCount precision < 2 ^ 63

/-- `geohashCellsInBounds`; `none` asks for all cells. -/
def geohashCellsInBounds (req : BoundsRequest) (precision : ℤ) : Option (List String) :=
  let minLat := latBin precision req.south
  let maxLat := latBin precision req.north
  let minLon := lonBin precision req.west
  let maxLon := lonBin precision req.east
  if maxLat < minLat ∨ maxLon < minLon then none
  else if 10000 < (req.cellCount precision).bmod (2 ^ 64) then none
  else some ((binRange minLat maxLat).flatMap fun lat =>
    (binRange minLon maxLon).map fun lon => cellKey precision lat lon)

/-- The test of `collectSpatialResults`. -/
def BoundsRequest.holds (req : BoundsRequest) (pos : Position) : Bool :=
  req.south ≤ pos.lat && pos.lat ≤ req.north && req.west ≤ pos.lon && pos.lon ≤ req.east

/-- The orders in which the bucket lists its keys and a map its entries. -/
structure Orders where
  keys : List String → List String
  keys_perm : ∀ l, (keys l).Perm l
  rows : List SpatialResult → List SpatialResult
  rows_perm : ∀ l, (rows l).Perm l

section Query

variable (o : Orders) (index : SpatialIndex)

def cellRows (key : String) : List SpatialResult :=
  o.rows (((index.lookup key).getD ∅).entries.map fun entry => ⟨entry.1, entry.2⟩)

def collectSpatialResults (keys : List String) (req : BoundsRequest) (limit : ℕ) :
    List SpatialResult :=
  collect SpatialResult.id (fun r => req.holds r.position) limit
    (keys.flatMap (cellRows o index)) []

def BoundsRequest.count (req : BoundsRequest) : ℕ :=
  if req.limit ≤ 0 then 100 else req.limit.toNat

/-- `handleQueryBoundsNATS`; `none` where no answer comes: the bucket has no keys to list,
which is an error of the listing, or the cells are more than a slice holds. -/
def handleQueryBounds (precision : ℤ) (req : BoundsRequest) : Option (List SpatialResult) :=
  match geohashCellsInBounds req precision with
  | some cells =>
    if req.Listable precision then some (collectSpatialResults o index cells req req.count)
    else none
  | none =>
    if index.keys = [] then none
    else some (collectSpatialResults o index (o.keys index.keys) req req.count)

end Query

/-! ## What the queries ought to say -/

section Spec

variable (number : Object → Option ℚ)

/-- The position an entity has now: that of its last update. -/
def current (updates : List Update) (e : String) : Option Position :=
  (updates.reverse.find? fun u => u.entityID = e).bind (Update.position number)

def entities (updates : List Update) : List String := (updates.map Update.entityID).dedup

/-- **The query is exact**: it answers with every entity whose current position is in the
box, once, and with that position. -/
def Exact (updates : List Update) (req : BoundsRequest) (answer : Option (List SpatialResult)) :
    Prop :=
  ∃ results, answer = some results ∧ (results.map SpatialResult.id).Nodup ∧
    ∀ r, r ∈ results ↔ current number updates r.id = some r.position ∧ req.holds r.position = true

/-- **No entity leaves its cell**: wherever an update has placed it, its last update
places it in the same cell. -/
def Settled (precision : ℤ) (updates : List Update) : Prop :=
  ∀ u ∈ updates, ∀ pos, u.position number = some pos →
    ∃ now, current number updates u.entityID = some now ∧
      calculateGeohash precision now = calculateGeohash precision pos

end Spec

/-! ## Rows -/

section Rows

variable {number : Object → Option ℚ} {precision : ℤ} {updates : List Update} {key e : String}

def row (index : SpatialIndex) (key e : String) : Option Position :=
  ((index.lookup key).getD ∅).lookup e

theorem row_updateSpatialIndex :
    row (updateSpatialIndex index key' e' pos) key e =
      if key = key' ∧ e = e' then some pos else row index key e := by
  unfold row updateSpatialIndex
  by_cases hkey : key = key'
  · subst hkey
    rw [AList.lookup_insert, getD_some]
    by_cases he : e = e'
    · subst he
      rw [AList.lookup_insert, if_pos ⟨rfl, rfl⟩]
    · rw [AList.lookup_insert_ne he, if_neg fun h => he h.2]
  · rw [AList.lookup_insert_ne hkey, if_neg fun h => hkey h.1]

/-- What an update enters for an entity in a cell. -/
def placed (number : Object → Option ℚ) (precision : ℤ) (key e : String) (u : Update) :
    Option Position :=
  if u.entityID = e then
    (u.position number).filter fun pos => calculateGeohash precision pos = key
  else none

theorem row_processEntityUpdate (u : Update) :
    row (processEntityUpdate number precision index u) key e =
      (placed number precision key e u).or (row index key e) := by
  unfold processEntityUpdate placed
  cases hpos : u.position number with
  | none => simp
  | some pos =>
    rw [row_updateSpatialIndex]
    by_cases he : u.entityID = e
    · by_cases hkey : calculateGeohash precision pos = key
      · simp [he, hkey, filter_some]
      · simp [he, hkey, Ne.symm hkey, filter_some]
    · simp [he, Ne.symm he]

/-- **A row is the last position an update has entered in the cell.** -/
theorem row_indexOf : row (indexOf number precision updates) key e =
    updates.reverse.findSome? (placed number precision key e) := by
  unfold indexOf
  induction updates using List.reverseRecOn with
  | nil => rfl
  | append_singleton updates u ih =>
    rw [foldl_append, foldl_cons, foldl_nil, row_processEntityUpdate, ih,
      reverse_append, reverse_singleton, singleton_append, List.findSome?_cons]
    cases placed number precision key e u <;> rfl

theorem placed_eq_some : placed number precision key e u = some pos ↔
      u.entityID = e ∧ u.position number = some pos ∧ calculateGeohash precision pos = key := by
  unfold placed
  split
  · next he => simp [he]
  · next he => simp [he]

theorem of_row {pos : Position} (h : row (indexOf number precision updates) key e = some pos) :
    ∃ u ∈ updates, u.entityID = e ∧ u.position number = some pos ∧
      calculateGeohash precision pos = key := by
  rw [row_indexOf] at h
  obtain ⟨u, hu, hplaced⟩ := exists_of_findSome?_eq_some h
  exact ⟨u, mem_reverse.1 hu, placed_eq_some.1 hplaced⟩

/-- And every update that has a position leaves a row in its cell. -/
theorem exists_row {u : Update} (hu : u ∈ updates) {pos : Position}
    (hpos : u.position number = some pos) :
    ∃ pos', row (indexOf number precision updates) (calculateGeohash precision pos) u.entityID =
      some pos' := by
  rw [row_indexOf, ← isSome_iff_exists, List.findSome?_isSome_iff]
  refine ⟨u, mem_reverse.2 hu, ?_⟩
  rw [placed_eq_some.2 ⟨rfl, hpos, rfl⟩]
  rfl

/-- The current position is a row, of the cell it falls into. -/
theorem row_of_current {pos : Position} (h : current number updates e = some pos) :
    row (indexOf number precision updates) (calculateGeohash precision pos) e = some pos := by
  obtain ⟨u, hu, hpos⟩ := bind_eq_some_iff.1 h
  rw [List.find?_eq_some_iff_append] at hu
  obtain ⟨he, before, _, hsplit, hbefore⟩ := hu
  rw [row_indexOf, hsplit, List.findSome?_append]
  have hnone : before.findSome? (placed number precision (calculateGeohash precision pos) e) =
      none := by
    rw [List.findSome?_eq_none_iff]
    intro v hv
    have hother := hbefore v hv
    simp only [Bool.not_eq_true', decide_eq_false_iff_not] at hother
    rw [placed, if_neg hother]
  rw [hnone, List.findSome?_cons, placed_eq_some.2 ⟨by simpa using he, hpos, rfl⟩]
  rfl

/-- Where entities stay in their cells, every row is current. -/
theorem current_of_row (hsettled : Settled number precision updates) {pos : Position}
    (h : row (indexOf number precision updates) key e = some pos) :
    current number updates e = some pos := by
  obtain ⟨u, hu, rfl, hpos, rfl⟩ := of_row h
  obtain ⟨now, hnow, hcell⟩ := hsettled u hu pos hpos
  have hrow := @row_of_current number precision updates u.entityID now hnow
  rw [hcell, h, Option.some.injEq] at hrow
  rw [hnow, hrow]

end Rows

/-! ## Cells of a box -/

section Cells

variable {precision : ℤ} {req : BoundsRequest} {pos : Position}

theorem geohashMultiplier_nonneg (precision : ℤ) : 0 ≤ geohashMultiplier precision := by
  unfold geohashMultiplier
  split_ifs <;> decide +kernel

theorem mem_binRange : i ∈ binRange lo hi ↔ lo ≤ i ∧ i ≤ hi := by
  unfold binRange
  rw [List.mem_map]
  constructor
  · rintro ⟨k, hk, rfl⟩
    rw [mem_range] at hk
    omega
  · rintro ⟨_, _⟩
    exact ⟨(i - lo).toNat, mem_range.2 (by omega), by omega⟩

theorem latBin_mono (h : lat ≤ lat') : latBin precision lat ≤ latBin precision lat' :=
  Int.floor_le_floor (mul_le_mul_of_nonneg_right (by linarith) (geohashMultiplier_nonneg precision))

theorem lonBin_mono (h : lon ≤ lon') : lonBin precision lon ≤ lonBin precision lon' :=
  Int.floor_le_floor (mul_le_mul_of_nonneg_right (by linarith) (geohashMultiplier_nonneg precision))

theorem holds_iff : req.holds pos ↔
    (req.south ≤ pos.lat ∧ pos.lat ≤ req.north) ∧ req.west ≤ pos.lon ∧ pos.lon ≤ req.east := by
  simp [BoundsRequest.holds, and_assoc]

/-- **The cells of a box hold every position in it.** -/
theorem calculateGeohash_mem
    (hcells : geohashCellsInBounds req precision = some cells) (hpos : req.holds pos) :
    calculateGeohash precision pos ∈ cells := by
  simp only [geohashCellsInBounds] at hcells
  split_ifs at hcells
  rw [Option.some.injEq] at hcells
  obtain ⟨⟨hsouth, hnorth⟩, hwest, heast⟩ := holds_iff.1 hpos
  rw [← hcells, mem_flatMap]
  refine ⟨latBin precision pos.lat, mem_binRange.2 ⟨latBin_mono hsouth, latBin_mono hnorth⟩, ?_⟩
  exact List.mem_map.2 ⟨lonBin precision pos.lon,
    mem_binRange.2 ⟨lonBin_mono hwest, lonBin_mono heast⟩, rfl⟩

end Cells

/-! ## Answers -/

variable {o : Orders} {index : SpatialIndex} {number : Object → Option ℚ} {precision : ℤ}
  {updates : List Update} {req : BoundsRequest} {r : SpatialResult} {key : String}

theorem mem_cellRows : r ∈ cellRows o index key ↔ row index key r.id = some r.position := by
  unfold cellRows row
  rw [(o.rows_perm _).mem_iff, List.mem_map, ← mem_def, AList.mem_lookup_iff]
  constructor
  · rintro ⟨_, hentry, rfl⟩
    exact hentry
  · exact fun h => ⟨⟨r.id, r.position⟩, h, rfl⟩

/-- The keys a query reads, where it answers. -/
def Reads (o : Orders) (index : SpatialIndex) (precision : ℤ) (req : BoundsRequest)
    (keys : List String) : Prop :=
  handleQueryBounds o index precision req = some (collectSpatialResults o index keys req req.count) ∧
    ∀ pos e, req.holds pos = true → row index (calculateGeohash precision pos) e = some pos →
      calculateGeohash precision pos ∈ keys

theorem mem_keys_of_row (h : row index key e = some pos) :
    key ∈ index.keys := by
  by_contra hkey
  rw [row, AList.lookup_eq_none.2 hkey] at h
  cases h

/-- An index with rows answers, from all the cells that matter. -/
theorem exists_reads (h : index.keys ≠ []) (hlist : req.Listable precision) : ∃ keys, Reads o index precision req keys := by
  unfold Reads handleQueryBounds
  cases hcells : geohashCellsInBounds req precision with
  | some cells => exact ⟨cells, if_pos hlist, fun pos e hpos _ => calculateGeohash_mem hcells hpos⟩
  | none =>
    refine ⟨o.keys index.keys, by rw [if_neg h], fun pos e _ hrow => ?_⟩
    exact (o.keys_perm _).mem_iff.2 (mem_keys_of_row hrow)

theorem id_mem_entities
    (h : row (indexOf number precision updates) key e = some pos) : e ∈ entities updates := by
  obtain ⟨u, hu, rfl, -⟩ := of_row h
  exact mem_dedup.2 (List.mem_map_of_mem hu)

variable {keys : List String}

theorem row_of_mem_results {limit : ℕ} (h : r ∈ collectSpatialResults o index keys req limit) :
    (∃ key ∈ keys, row index key r.id = some r.position) ∧ req.holds r.position := by
  rcases mem_of_mem_collect h with hnil | ⟨hmem, hholds⟩
  · exact absurd hnil not_mem_nil
  · obtain ⟨key, hkey, hrow⟩ := mem_flatMap.1 hmem
    exact ⟨⟨key, hkey, mem_cellRows.1 hrow⟩, hholds⟩

/-- A row in the box is answered, or another row of its entity is. -/
theorem id_mem_results {limit : ℕ} (hlimit : (entities updates).length ≤ limit) (hkey : key ∈ keys)
    (hrow : row (indexOf number precision updates) key r.id = some r.position)
    (hholds : req.holds r.position) :
    ∃ r' ∈ collectSpatialResults o (indexOf number precision updates) keys req limit,
      r'.id = r.id := by
  have hids : ∀ r' ∈ keys.flatMap (cellRows o (indexOf number precision updates)),
      r'.id ∈ entities updates := by
    intro r' hr'
    obtain ⟨_, -, hrow'⟩ := mem_flatMap.1 hr'
    exact id_mem_entities (mem_cellRows.1 hrow')
  have hmem : r ∈ keys.flatMap (cellRows o (indexOf number precision updates)) :=
    mem_flatMap.2 ⟨key, hkey, mem_cellRows.2 hrow⟩
  exact exists_mem_collect hlimit hids hmem hholds

theorem le_count {n : ℕ} (h : (n : ℤ) ≤ req.limit) : n ≤ req.count := by
  unfold BoundsRequest.count
  split <;> omega

/-- **Where entities stay in their cells, every box is answered exactly.** -/
theorem exact_of_settled (hsettled : Settled number precision updates)
    (hrows : (indexOf number precision updates).keys ≠ []) (hlist : req.Listable precision)
    (hlimit : ((entities updates).length : ℤ) ≤ req.limit) :
    Exact number updates req
      (handleQueryBounds o (indexOf number precision updates) precision req) := by
  obtain ⟨keys, hanswer, hkeys⟩ := @exists_reads o _ precision req hrows hlist
  refine ⟨_, hanswer, nodup_collect nodup_nil, fun r => ⟨fun hr => ?_, fun ⟨hnow, hholds⟩ => ?_⟩⟩
  · obtain ⟨⟨_, -, hrow⟩, hholds⟩ := row_of_mem_results hr
    exact ⟨current_of_row hsettled hrow, hholds⟩
  · have hrow := @row_of_current number precision updates r.id r.position hnow
    obtain ⟨r', hr', _⟩ := @id_mem_results o number precision updates req r _ keys _
      (le_count hlimit) (hkeys _ _ hholds hrow) hrow hholds
    -- the row of the entity that is answered is current as well: it is this one
    obtain ⟨⟨_, -, hrow'⟩, -⟩ := row_of_mem_results hr'
    have hnow' := current_of_row hsettled hrow'
    have heq : r' = r := by
      cases r
      cases r'
      simp_all
    exact heq ▸ hr'

def BoundsRequest.point (pos : Position) (limit : ℤ) : BoundsRequest :=
  ⟨pos.lat, pos.lat, pos.lon, pos.lon, limit⟩

/-- The box of all points. -/
def BoundsRequest.world (limit : ℤ) : BoundsRequest := ⟨90, -90, 180, -180, limit⟩

theorem cellCount_point (pos : Position) (limit : ℤ) :
    (BoundsRequest.point pos limit).cellCount precision = 1 := by
  simp [BoundsRequest.cellCount, BoundsRequest.point]

theorem geohashCellsInBounds_point (pos : Position) (limit : ℤ) :
    geohashCellsInBounds (.point pos limit) precision = some [calculateGeohash precision pos] := by
  rw [geohashCellsInBounds, cellCount_point]
  simp [BoundsRequest.point, binRange, calculateGeohash]

theorem cellCount_world (limit : ℤ) : 10000 < (BoundsRequest.world limit).cellCount precision ∧
    (BoundsRequest.world limit).Listable precision := by
  simp only [BoundsRequest.Listable, BoundsRequest.cellCount, BoundsRequest.world, latBin, lonBin,
    geohashMultiplier]
  split_ifs <;> decide +kernel

theorem geohashCellsInBounds_world (limit : ℤ) :
    geohashCellsInBounds (.world limit) precision = none := by
  obtain ⟨hmany, hlist⟩ := @cellCount_world precision limit
  unfold geohashCellsInBounds
  dsimp only
  rw [Int.bmod_eq_of_le (by omega) (by omega), if_pos hmany, ite_self]

/-- Some update has placed its entity. -/
def Populated (number : Object → Option ℚ) (updates : List Update) : Prop :=
  ∃ u ∈ updates, (u.position number).isSome = true

theorem indexOf_eq_empty (h : ∀ u ∈ updates, u.position number = none) :
    indexOf number precision updates = ∅ := by
  unfold indexOf
  induction updates with
  | nil => rfl
  | cons u updates ih =>
    have hskip : processEntityUpdate number precision ∅ u = ∅ := by
      rw [processEntityUpdate, h u (by simp)]
    rw [foldl_cons, hskip]
    exact ih fun v hv => h v (by simp [hv])

theorem keys_ne_nil_iff : (indexOf number precision updates).keys ≠ [] ↔ Populated number updates := by
  constructor
  · intro hkeys
    by_contra hnone
    refine hkeys ?_
    rw [indexOf_eq_empty, AList.keys_empty]
    intro u hu
    rw [← not_isSome_iff_eq_none]
    exact fun hsome => hnone ⟨u, hu, hsome⟩
  · rintro ⟨u, hu, hpos⟩
    obtain ⟨pos, hpos⟩ := isSome_iff_exists.1 hpos
    obtain ⟨_, hrow⟩ := @exists_row number precision updates u hu pos hpos
    exact ne_nil_of_mem (mem_keys_of_row hrow)

/-- **A row left in an old cell is seen**: by the box of the point it stands at. -/
theorem settled_of_exact
    (h : ∀ req : BoundsRequest, req.south ≤ req.north → req.west ≤ req.east →
      req.Listable precision → ((entities updates).length : ℤ) ≤ req.limit →
      Exact number updates req
        (handleQueryBounds o (indexOf number precision updates) precision req)) :
    Settled number precision updates := by
  intro u hu pos hpos
  obtain ⟨pos', hrow⟩ := @exists_row number precision updates u hu pos hpos
  obtain ⟨-, -, -, -, hcell⟩ := of_row hrow
  obtain ⟨req, hreq⟩ : ∃ req, req = BoundsRequest.point pos' (entities updates).length := ⟨_, rfl⟩
  have hlimit : ((entities updates).length : ℤ) ≤ req.limit := by rw [hreq]; exact le_refl _
  have hholds : req.holds pos' := by
    rw [hreq]
    exact holds_iff.2 ⟨⟨le_refl _, le_refl _⟩, le_refl _, le_refl _⟩
  have hlist : req.Listable precision := by
    rw [hreq, BoundsRequest.Listable, cellCount_point]
    decide
  obtain ⟨_, hanswer, -, hexact⟩ := h req (by rw [hreq]; exact le_refl _)
    (by rw [hreq]; exact le_refl _) hlist hlimit
  have hcells : geohashCellsInBounds req precision = some [calculateGeohash precision pos'] := by
    rw [hreq, geohashCellsInBounds_point]
  simp only [handleQueryBounds, hcells] at hanswer
  rw [if_pos hlist, Option.some.injEq] at hanswer
  obtain ⟨r, hr, hid⟩ := @id_mem_results o number precision updates req ⟨u.entityID, pos'⟩ _
    [calculateGeohash precision pos'] _ (le_count hlimit) (mem_singleton.2 hcell.symm)
    hrow hholds
  rw [hanswer] at hr
  obtain ⟨hnow, hin⟩ := (hexact r).1 hr
  rw [hid] at hnow
  refine ⟨r.position, hnow, ?_⟩
  -- the answer stands at the same point
  rw [hreq] at hin
  obtain ⟨⟨hsouth, hnorth⟩, hwest, heast⟩ := holds_iff.1 hin
  have hlat : r.position.lat = pos'.lat := le_antisymm hnorth hsouth
  have hlon : r.position.lon = pos'.lon := le_antisymm heast hwest
  rw [← hcell, calculateGeohash, calculateGeohash, hlat, hlon]

/-- A few whole degrees as they are read. -/
def degrees (object : Object) : Option ℚ :=
  if object = .json "2" then some 2
  else if object = .json "48" then some 48
  else if object = .json "50" then some 50
  else none

/-- A sighting of a drone at a latitude. -/
def sighting (lat : String) : Update where
  key := "drone"
  state :=
    { id := "drone"
      triples := [
        { subject := "drone", predicate := "geo.location.latitude", object := .json lat },
        { subject := "drone", predicate := "geo.location.longitude", object := .json "2" }]
      storageRef := none
      messageType := ⟨"robotics", "drone", "v1"⟩
      version := 1
      updatedAt := 0 }

/-- Everything in the order it is stored in. -/
def Orders.stored : Orders := ⟨id, .refl, id, .refl⟩

end SemStreams.GraphIndexSpatial
