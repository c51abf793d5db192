import SemStreams.Lib.Run
import Mathlib.Data.List.Forall2
/-!
# Graph ingest — batch fetch

A batch is answered from the cache where it can, and the other ids are read by one worker each.
Workers run in any order and leave without an answer only once the context is cancelled, and then
the whole call fails. So a call that does not fail has one entry for every id it was asked for. It
does not look at the id of an entity it has read: the ids are those asked for where every entity is
kept under its own (`Keyed`).
-/

namespace SemStreams.GraphIngest

open List

variable {α : Type*}

/-- What a read of one key is answered with. -/
inductive FetchResult (α : Type*)
  | ok (entity : α)
  | notFound
  | poisoned
  | failed

inductive FetchError
  | cancelled
  | poisoned (ids : List String)
  | other

/-- An id that is asked for, and what the cache has for it then. -/
structure Asked (α : Type*) where
  id : String
  cached : Option α

section Phases

variable (asked : List (Asked α))

/-- The three lists of the first phase. -/
def invalidIDs : List String := (asked.map Asked.id).filter fun id => id = ""
def cachedEntities : List α := (asked.filter fun a => a.id ≠ "").filterMap Asked.cached
def missIDs : List String :=
  ((asked.filter fun a => a.id ≠ "").filter fun a => a.cached.isNone).map Asked.id

end Phases

/-- What the third phase makes of a result and the id it is for. -/
def poisonedID : String × Option (FetchResult α) → Option String
  | (id, some .poisoned) => some id
  | _ => none

def isFailed : String × Option (FetchResult α) → Bool
  | (_, some .failed) => true
  | _ => false

def foundEntity : String × Option (FetchResult α) → Option α
  | (_, some (.ok e)) => some e
  | _ => none

def missingID : String × Option (FetchResult α) → Option String
  | (id, some .notFound) => some id
  | _ => none

/-- The workers that were started, each running (`none`) or returned, with its result if it left
one; whether the loop that starts them broke off; and whether the context is cancelled. -/
structure Fetch (α : Type*) where
  workers : List (Option (Option (FetchResult α))) := []
  stopped : Bool := false
  cancelled : Bool := false

inductive FetchEvent (α : Type*)
  | cancel
  | start
  | leave (i : ℕ)
  | answer (i : ℕ) (result : FetchResult α)

namespace Fetch

variable (asked : List (Asked α))

/-- One step of the loop, of a worker, or of the caller's context. -/
def step (s : Fetch α) : FetchEvent α → Option (Fetch α)
  | .cancel => some { s with cancelled := true }
  | .start =>
    if !s.stopped && s.workers.length < (missIDs asked).length then
      if s.cancelled then some { s with stopped := true }
      else some { s with workers := s.workers ++ [none] }
    else none
  | .leave i =>
    match s.workers[i]? with
    | some none =>
      if s.cancelled then some { s with workers := s.workers.set i (some none) } else none
    | _ => none
  | .answer i result =>
    match s.workers[i]? with
    | some none => some { s with workers := s.workers.set i (some (some result)) }
    | _ => none

/-- The wait group is done: the loop is over and every worker has returned. -/
def Waited (s : Fetch α) : Prop :=
  (s.stopped = true ∨ s.workers.length = (missIDs asked).length) ∧ none ∉ s.workers

/-- `fetchEntitiesConcurrent`, once the workers are waited for. -/
def fetchEntitiesConcurrent (s : Fetch α) : Except FetchError (List α × List String) :=
  let results := (missIDs asked).zip (s.workers.map Option.join)
  if missIDs asked = [] then .ok (cachedEntities asked, invalidIDs asked)
  else if s.cancelled then .error .cancelled
  else if results.filterMap poisonedID ≠ [] then .error (.poisoned (results.filterMap poisonedID))
  else if results.any isFailed then .error .other
  else
    .ok (cachedEntities asked ++ results.filterMap foundEntity,
      invalidIDs asked ++ results.filterMap missingID)

variable {asked} {s s' : Fetch α} {e : FetchEvent α} {es : List (FetchEvent α)}

/-- **While the context lives**, the loop goes on, and a worker that has returned left the result
of its read. -/
def Answered (es : List (FetchEvent α)) (s : Fetch α) : Prop :=
  s.cancelled = false → s.stopped = false ∧ ∀ (i : ℕ) w, s.workers[i]? = some (some w) →
    ∃ r, w = some r ∧ .answer i r ∈ es

theorem Answered.step (h : Answered es s) (he : e ∈ es) (hstep : s.step asked e = some s') :
    Answered es s' := by
  cases e with (simp only [Fetch.step] at hstep; try split at hstep <;> try contradiction)
  | cancel =>
    cases hstep
    exact nofun
  | start =>
    split at hstep
    · next hcancelled =>
      cases hstep
      exact fun hlive => Bool.noConfusion (hlive.symm.trans hcancelled)
    · cases hstep
      refine fun hlive => ⟨(h hlive).1, fun i w hw => ?_⟩
      rw [getElem?_append] at hw
      split at hw
      · exact (h hlive).2 i w hw
      · rw [getElem?_singleton] at hw
        split at hw <;> cases hw
  | leave i =>
    split at hstep
    · next hcancelled =>
      cases hstep
      exact fun hlive => Bool.noConfusion (hlive.symm.trans hcancelled)
    · cases hstep
  | answer i result =>
    cases hstep
    refine fun hlive => ⟨(h hlive).1, fun j w hw => ?_⟩
    rw [getElem?_set] at hw
    split at hw
    · next hij =>
      split at hw <;> cases hw
      exact ⟨result, rfl, hij ▸ he⟩
    · exact (h hlive).2 j w hw

variable {P : String → α → Prop}

/-- Results without a failure account for the ids they are for. -/
theorem perm_of_results
    (h : Forall₂ (fun id w => ∃ r, w = some (some r) ∧ ∀ e, r = .ok e → P id e) misses ws)
    (hpoisoned : (misses.zip (ws.map Option.join)).filterMap poisonedID = [])
    (hfailed : (misses.zip (ws.map Option.join)).any isFailed = false) :
    ∃ keys, Forall₂ P keys ((misses.zip (ws.map Option.join)).filterMap foundEntity) ∧
      (keys ++ (misses.zip (ws.map Option.join)).filterMap missingID).Perm misses := by
  induction h with
  | nil => exact ⟨[], .nil, .nil⟩
  | @cons id w misses ws hw _ ih =>
    obtain ⟨r, rfl, hr⟩ := hw
    cases r with
    | ok e =>
      obtain ⟨keys, hkeys, hperm⟩ := ih hpoisoned hfailed
      exact ⟨id :: keys, .cons (hr e rfl) hkeys, hperm.cons id⟩
    | notFound =>
      obtain ⟨keys, hkeys, hperm⟩ := ih hpoisoned hfailed
      exact ⟨keys, hkeys, perm_middle.trans (hperm.cons id)⟩
    | poisoned => cases hpoisoned
    | failed => cases hfailed

/-- The first phase puts every id into one of its lists. -/
theorem perm_partition (h : ∀ a ∈ asked, ∀ e ∈ a.cached, P a.id e) :
    ∃ keys, Forall₂ P keys (cachedEntities asked) ∧
      (keys ++ (missIDs asked ++ invalidIDs asked)).Perm (asked.map Asked.id) := by
  induction asked with
  | nil => exact ⟨[], .nil, .nil⟩
  | cons a asked ih =>
    obtain ⟨keys, hkeys, hperm⟩ := ih fun b hb => h b (mem_cons_of_mem _ hb)
    by_cases hid : a.id = ""
    · simp only [cachedEntities, missIDs, invalidIDs, hid, map_cons, filter_cons, ne_eq, decide_true,
        not_true, decide_false, if_true, Bool.false_eq_true, if_false, ← append_assoc] at *
      exact ⟨keys, hkeys, perm_middle.trans (hperm.cons _)⟩
    · simp only [cachedEntities, missIDs, invalidIDs, hid, map_cons, filter_cons, ne_eq, decide_true,
        not_false_eq_true, decide_false, if_true, Bool.false_eq_true, if_false] at *
      cases hcached : a.cached with
      | none =>
        simp only [hcached, filterMap_cons, Option.isNone_none, if_true, map_cons]
        exact ⟨keys, hkeys, perm_middle.trans (hperm.cons _)⟩
      | some e =>
        simp only [hcached, filterMap_cons, Option.isNone_some, Bool.false_eq_true, if_false]
        exact ⟨a.id :: keys, .cons (h a mem_cons_self e hcached) hkeys, hperm.cons _⟩

end Fetch

/-- Every entity that is in the cache, or read, under an id asked for has that id. -/
def Keyed (idOf : α → String) (asked : List (Asked α)) (es : List (FetchEvent α)) : Prop :=
  (∀ a ∈ asked, ∀ e ∈ a.cached, idOf e = a.id) ∧
    ∀ (i : ℕ) e id, .answer i (.ok e) ∈ es → (missIDs asked)[i]? = some id → idOf e = id

variable {idOf : α → String} {asked : List (Asked α)} {es : List (FetchEvent α)} {s : Fetch α}

/-- Every worker was started and left a result for its id. -/
theorem Fetch.Answered.results (h : Answered es s) (hlive : s.cancelled = false)
    (hwaited : s.Waited asked) : Forall₂ (fun id w => ∃ r, w = some (some r) ∧
      ∀ e, r = .ok e → Keyed idOf asked es → idOf e = id) (missIDs asked) s.workers := by
  have hlength := hwaited.1.resolve_left (by simp [(h hlive).1])
  refine forall₂_iff_get.2 ⟨hlength.symm, fun i hi hi' => ?_⟩
  cases hw : s.workers[i] with
  | none => exact absurd (hw ▸ getElem_mem hi') hwaited.2
  | some w =>
    obtain ⟨r, rfl, hr⟩ := (h hlive).2 i w (List.getElem?_eq_some_iff.2 ⟨hi', hw⟩)
    refine ⟨r, hw, ?_⟩
    rintro e rfl hkeyed
    exact hkeyed.2 i e _ hr (List.getElem?_eq_getElem hi)

/-- It is enough to have the keys the entities were found under. -/
theorem account_of_keys {keys : List String}
    (hkeys : Forall₂ (fun id e => keyed → idOf e = id) keys found)
    (hperm : (keys ++ missing).Perm (asked.map Asked.id)) :
    found.length + missing.length = asked.length ∧
      (keyed → (found.map idOf ++ missing).Perm (asked.map Asked.id)) := by
  refine ⟨?_, fun hkeyed => ?_⟩
  · have hlength := hperm.length_eq
    rwa [length_append, length_map, hkeys.length_eq] at hlength
  · have heq : Forall₂ Eq keys (found.map idOf) :=
      forall₂_map_right_iff.2 (hkeys.imp fun _ _ h => (h hkeyed).symm)
    rw [forall₂_eq_eq_eq] at heq
    exact heq ▸ hperm

/-- **A batch fetch accounts for every id**: in every run of the loop and its workers that comes to
its end, the call fails, or it has one entity or one missing id for each id asked for, and where
every entity is kept under its id, the ids of the entities found and the ids missing are together
the ids asked for, each as often as it was. -/
theorem fetch_accounts (idOf : α → String) (asked : List (Asked α)) (es : List (FetchEvent α))
    (s : Fetch α) (hrun : run (Fetch.step asked) {} es = some s) (hwaited : s.Waited asked) :
    (∃ err, s.fetchEntitiesConcurrent asked = .error err) ∨
      ∃ found missing, s.fetchEntitiesConcurrent asked = .ok (found, missing) ∧
        found.length + missing.length = asked.length ∧
        (Keyed idOf asked es → (found.map idOf ++ missing).Perm (asked.map Asked.id)) := by
  have hinv : Fetch.Answered es s :=
    run_invariant_along (C := fun _ e => e ∈ es) (fun _ _ _ hs he hstep => hs.step he hstep)
      (fun _ => ⟨rfl, fun _ _ hw => by simp at hw⟩) (along_of_forall_mem fun _ _ he => he) hrun
  obtain ⟨cachedKeys, hcached, hpartition⟩ :=
    Fetch.perm_partition (P := fun id e => Keyed idOf asked es → idOf e = id)
      fun (a : Asked α) (ha : a ∈ asked) e he hkeyed => hkeyed.1 a ha e he
  unfold Fetch.fetchEntitiesConcurrent
  dsimp only
  split
  · next hnone =>
    rw [hnone, nil_append] at hpartition
    exact .inr ⟨_, _, rfl, account_of_keys hcached hpartition⟩
  split
  · exact .inl ⟨_, rfl⟩
  split
  · exact .inl ⟨_, rfl⟩
  split
  · exact .inl ⟨_, rfl⟩
  next hlive hpoisoned hfailed =>
  rw [Bool.not_eq_true] at hlive hfailed
  obtain ⟨keys, hkeys, hperm⟩ := Fetch.perm_of_results (hinv.results hlive hwaited) (not_not.1 hpoisoned)
    hfailed
  refine .inr ⟨_, _, rfl, account_of_keys (rel_append hcached hkeys) ?_⟩
  rw [append_assoc]
  refine (Perm.append_left _ ?_).trans hpartition
  refine (perm_append_comm.append_left _).trans ?_
  rw [← append_assoc]
  exact hperm.append_right _

/-- The first id is in the cache, the second was dropped from it before it is asked for again. -/
def droneAsked : List (Asked String) := [⟨"a", some "a"⟩, ⟨"a", none⟩, ⟨"", none⟩, ⟨"c", none⟩]

def droneReads : List (FetchEvent String) :=
  [.start, .start, .answer 1 .notFound, .answer 0 (.ok "a")]

theorem fetch_accounts_drones : ∃ s, run (Fetch.step droneAsked) {} droneReads = some s ∧
    ∃ found missing, s.fetchEntitiesConcurrent droneAsked = .ok (found, missing) ∧
      (found.map (fun e => e) ++ missing).Perm ["a", "a", "", "c"] := by
  let s : Fetch String := ⟨[some (some (.ok "a")), some (some .notFound)], false, false⟩
  have hrun : run (Fetch.step droneAsked) {} droneReads = some s := rfl
  have hkeyed : Keyed (fun e => e) droneAsked droneReads := by
    refine ⟨by decide, ?_⟩
    rintro i e id hread hid
    obtain ⟨rfl, rfl⟩ : i = 0 ∧ e = "a" := by simpa [droneReads] using hread
    exact Option.some.inj hid
  refine ⟨s, hrun, ?_⟩
  rcases fetch_accounts (fun e => e) droneAsked _ s hrun ⟨.inr rfl, by simp [s]⟩ with ⟨_, h⟩ | h
  · cases h
  · obtain ⟨found, missing, hok, -, hperm⟩ := h
    exact ⟨found, missing, hok, hperm hkeyed⟩

/-- **An id is lost**: the key `a` holds an entity `b`, which is returned for it. -/
theorem fetch_misnames : ∃ s, run (Fetch.step [⟨"a", none⟩]) {} [.start, .answer 0 (.ok "b")] = some s ∧
    s.Waited [⟨"a", none⟩] ∧ s.fetchEntitiesConcurrent [⟨"a", none⟩] = .ok (["b"], []) ∧
    ¬(["b"].map (fun e => e) ++ []).Perm ["a"] := by
  exact ⟨_, rfl, ⟨.inr rfl, by simp⟩, rfl, by decide⟩

end SemStreams.GraphIngest
