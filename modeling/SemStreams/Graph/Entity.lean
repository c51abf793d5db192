import Mathlib.Data.Rat.Defs
import Mathlib.Data.List.Basic
/-!
# Graph — triples, entity states and the predicate-level merge

An entity is stored as a list of triples with a little metadata.
`mergeTriples` is the merge every writer of the graph uses: it replaces
per subject and predicate, the newer side winning, and keeps every
existing triple under a key the newer side does not carry.
-/

namespace SemStreams.Graph

/-- The object of a triple: a JSON string, or any other JSON value in its
serialised form. -/
inductive Object
  | text (value : String)
  | json (value : String)
deriving DecidableEq, Repr

/-- `message.Triple`. Times are nanosecond counts. -/
structure Triple where
  subject : String
  predicate : String
  object : Object
  source : String := ""
  timestamp : ℕ := 0
  confidence : ℚ := 1
  context : String := ""
  datatype : String := ""
  expiresAt : Option ℕ := none
deriving DecidableEq

/-- `message.Type`. -/
structure MessageType where
  domain : String
  category : String
  version : String
deriving DecidableEq

/-- `message.StorageReference`. -/
structure StorageReference where
  storageInstance : String
  key : String
  contentType : String
  size : ℤ
deriving DecidableEq

/-- `graph.EntityState`. -/
structure EntityState where
  id : String
  triples : List Triple
  storageRef : Option StorageReference
  messageType : MessageType
  version : ℕ
  updatedAt : ℕ
deriving DecidableEq

/-- The key the merge works on. -/
def Triple.key (t : Triple) : String × String := (t.subject, t.predicate)

/-- Some triple of `newer` has the subject and predicate of `t`. -/
def conflicts (newer : List Triple) (t : Triple) : Bool :=
  newer.any fun n => t.subject == n.subject && t.predicate == n.predicate

/-- `graph.MergeTriples`: all of `newer`, then the existing triples whose
subject and predicate `newer` does not carry. -/
def mergeTriples (existing newer : List Triple) : List Triple :=
  if existing = [] then newer
  else if newer = [] then existing
  else newer ++ existing.filter fun t => !conflicts newer t

variable {newer : List Triple} {t : Triple}

theorem conflicts_iff : conflicts newer t ↔ ∃ n ∈ newer, n.key = t.key := by
  simp only [conflicts, List.any_eq_true, Bool.and_eq_true, beq_iff_eq, Triple.key, Prod.mk.injEq]
  exact exists_congr fun n => and_congr_right fun _ => and_congr eq_comm eq_comm

/-- The two shortcuts of `mergeTriples` agree with its general case. -/
theorem mergeTriples_eq (existing newer : List Triple) :
    mergeTriples existing newer = newer ++ existing.filter fun t => !conflicts newer t := by
  unfold mergeTriples
  split
  · rename_i h
    simp [h]
  · split
    · rename_i h
      simp [h, conflicts]
    · rfl

/-- Some triple of the list stands under the key. -/
def Carries (triples : List Triple) (k : String × String) : Prop := ∃ t ∈ triples, t.key = k

instance (triples : List Triple) (k : String × String) : Decidable (Carries triples k) :=
  inferInstanceAs (Decidable (∃ t ∈ triples, t.key = k))

variable {existing : List Triple}

/-- **The merge, key by key.** Under a key the newer side carries stand its
triples, under any other the existing ones. -/
theorem mem_mergeTriples : t ∈ mergeTriples existing newer ↔
      if Carries newer t.key then t ∈ newer else t ∈ existing := by
  rw [mergeTriples_eq, List.mem_append, List.mem_filter]
  have hconf : conflicts newer t ↔ Carries newer t.key := conflicts_iff
  split
  · rename_i h
    simp [hconf.2 h]
  · rename_i h
    have hnew : t ∉ newer := fun ht => h ⟨t, ht, rfl⟩
    have hfalse : conflicts newer t = false := by
      rw [← Bool.not_eq_true, hconf]
      exact h
    simp [hnew, hfalse]

/-- A fold of merges leaves a key alone that no newer side carries. -/
theorem mem_foldl_mergeTriples_of_not_carries {newers : List (List Triple)}
    (h : ∀ newer ∈ newers, ¬ Carries newer t.key) :
    t ∈ newers.foldl mergeTriples existing ↔ t ∈ existing := by
  induction newers generalizing existing with
  | nil => rfl
  | cons newer newers ih =>
    rw [List.foldl_cons, ih fun n hn => h n (by simp [hn]), mem_mergeTriples,
      if_neg (h newer (by simp))]

/-- And it leaves under every other key what the last side that carries it
brought. -/
theorem mem_foldl_mergeTriples_of_last {before after : List (List Triple)}
    (hnewer : Carries newer t.key) (hafter : ∀ n ∈ after, ¬ Carries n t.key) :
    t ∈ (before ++ newer :: after).foldl mergeTriples existing ↔ t ∈ newer := by
  rw [List.foldl_append, List.foldl_cons, mem_foldl_mergeTriples_of_not_carries hafter,
    mem_mergeTriples, if_pos hnewer]

theorem conflicts_mergeTriples (a b : List Triple) (t : Triple) :
    conflicts (mergeTriples a b) t = (conflicts b t || conflicts a t) := by
  rw [Bool.eq_iff_iff, Bool.or_eq_true]
  simp only [conflicts_iff, mem_mergeTriples]
  grind [Carries]

theorem mergeTriples_assoc (a b c : List Triple) :
    mergeTriples (mergeTriples a b) c = mergeTriples a (mergeTriples b c) := by
  have hconf := conflicts_mergeTriples b c
  simp only [mergeTriples_eq] at hconf ⊢
  simp [hconf, List.filter_append, List.filter_filter]

/-- **Updates may be coalesced, and one redelivered at once is harmless.** -/
theorem merges_coalesce (existing newer : List Triple) (newers : List (List Triple)) :
    newers.foldl mergeTriples existing = mergeTriples existing (newers.foldl mergeTriples []) ∧
      mergeTriples (mergeTriples existing newer) newer = mergeTriples existing newer := by
  constructor
  · induction newers generalizing existing with
    | nil => simp [mergeTriples_eq, conflicts]
    | cons n newers ih =>
      rw [List.foldl_cons, ih, mergeTriples_assoc, ← ih n]
      rfl
  · have hself : mergeTriples newer newer = newer := by
      simpa [mergeTriples_eq, conflicts_iff] using fun t ht => ⟨t, ht, rfl⟩
    rw [mergeTriples_assoc, hself]

end SemStreams.Graph
