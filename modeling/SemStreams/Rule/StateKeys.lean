import SemStreams.Graph.Contract
import SemStreams.Rule.StatefulEvaluator
/-!
# Rules — the keys of match states

The state of a rule for an entity is kept under the rule's id and the entity's, and the state for a
pair of entities under the two ids with `_` between them. Keys of single entities are apart from
each other and from those of pairs. But `_` may also stand inside a segment of an id: two pairs
have one key where it can be read as the separator in two places, and deleting the states of an
entity takes the key of a pair with it that ends in its id.
-/

namespace SemStreams.Rule

open SemStreams.Graph

def buildStateKey (ruleID entityKey : String) : String := ruleID ++ "." ++ entityKey

def stateKeyBelongsToEntity (key entityID : String) : Bool :=
  entityID ≠ "" && ("." ++ entityID).toList.isSuffixOf key.toList

/-- `DeleteAllForEntity`: the keys of the bucket that are left. -/
def deleteAllForEntity (keys : List String) (entityID : String) : List String :=
  keys.filter fun key => !stateKeyBelongsToEntity key entityID

variable {a b : String}

theorem length_tokens : (tokens a).length = a.toList.count '.' + 1 := by
  unfold tokens List.splitOn
  induction a.toList with
  | nil => rfl
  | cons x l ih =>
    rw [List.splitOnP_cons_eq_if_modifyHead]
    split <;> simp_all

theorem count_dot (h : isValidEntityID a) : a.toList.count '.' = 5 := by
  have hlength := (keyTokens_entityID h).length
  rw [length_tokens] at hlength
  exact Nat.succ.inj hlength

theorem buildStateKey_inj (hrule : '.' ∉ ruleID.toList) (hrule' : '.' ∉ ruleID'.toList) :
    buildStateKey ruleID a = buildStateKey ruleID' b ↔ ruleID = ruleID' ∧ a = b := by
  refine ⟨fun h => ?_, fun h => by rw [h.1, h.2]⟩
  have htokens := congrArg tokens h
  unfold buildStateKey at htokens
  rw [tokens_append_dot, tokens_append_dot, tokens_eq_singleton hrule, tokens_eq_singleton hrule',
    List.singleton_append, List.singleton_append, List.cons.injEq, tokens_inj] at htokens
  exact ⟨String.toList_inj.1 htokens.1, htokens.2⟩

theorem buildPairKey_of_le (h : a ≤ b) : buildPairKey a b = a ++ "_" ++ b := by
  unfold buildPairKey
  split
  · rfl
  · next hlt => rw [String.le_antisymm h (String.not_lt.1 hlt)]

/-- A separator stands at the same place, or one text has the other's separator inside. -/
theorem append_under_inj : a ++ "_" ++ b = c ++ "_" ++ d ↔ (a = c ∧ b = d) ∨
    (∃ w, c = a ++ "_" ++ w ∧ b = w ++ "_" ++ d) ∨ ∃ w, a = c ++ "_" ++ w ∧ d = w ++ "_" ++ b := by
  constructor
  · intro h
    have hlist : a.toList ++ '_' :: b.toList = c.toList ++ '_' :: d.toList := by
      simpa using congrArg String.toList h
    rcases List.append_eq_append_iff.1 hlist with ⟨w, hc, hb⟩ | ⟨w, ha, hd⟩
    · cases w with
      | nil => simp_all [String.toList_inj]
      | cons x w =>
        obtain ⟨rfl, hw⟩ := List.cons.inj hb
        exact .inr (.inl ⟨String.ofList w, String.toList_inj.1 (by simp [hc]),
          String.toList_inj.1 (hw.trans (by simp))⟩)
    · cases w with
      | nil => simp_all [String.toList_inj]
      | cons x w =>
        obtain ⟨rfl, hw⟩ := List.cons.inj hd
        exact .inr (.inr ⟨String.ofList w, String.toList_inj.1 (by simp [ha]),
          String.toList_inj.1 (hw.trans (by simp))⟩)
  · rintro (⟨rfl, rfl⟩ | ⟨w, rfl, rfl⟩ | ⟨w, rfl, rfl⟩) <;> simp [String.append_assoc]

/-- **A key belongs to an entity** if its last segments are those of the id. -/
theorem belongs_iff (he : isValidEntityID e) (hkey : a.toList.count '.' = 5) :
    stateKeyBelongsToEntity (front ++ "." ++ a) e ↔ e = a := by
  have hne : e ≠ "" := by
    rintro rfl
    exact absurd he (by decide +kernel)
  simp only [stateKeyBelongsToEntity, hne, ne_eq, not_false_eq_true, decide_true, Bool.true_and,
    List.isSuffixOf_iff_suffix]
  constructor
  · rintro ⟨l, hl⟩
    have htext : String.ofList l ++ "." ++ e = front ++ "." ++ a :=
      String.toList_inj.1 (by simpa [String.append_assoc] using hl)
    have htokens := congrArg tokens htext
    rw [tokens_append_dot, tokens_append_dot] at htokens
    refine tokens_injective (List.append_inj_right' htokens ?_)
    rw [length_tokens, length_tokens, count_dot he, hkey]
  · rintro rfl
    exact ⟨front.toList, by simp⟩

theorem exists_segment (h : isValidEntityID a) :
    ∃ front inst, a = front ++ "." ++ inst ∧ '.' ∉ inst.toList := by
  have hmem : '.' ∈ a.toList.reverse := by
    rw [List.mem_reverse, ← List.count_pos_iff, count_dot h]
    omega
  obtain ⟨s, t, hst, hs⟩ := List.eq_append_cons_of_mem hmem
  refine ⟨String.ofList t.reverse, String.ofList s.reverse, String.toList_inj.1 ?_, by simpa using hs⟩
  rw [← List.reverse_inj, hst]
  simp

/-- The key of a pair belongs to the entity whose id is its end. -/
theorem belongs_pair_iff (ha : isValidEntityID a) (hb : isValidEntityID b)
    (he : isValidEntityID e) :
    stateKeyBelongsToEntity (buildStateKey ruleID (a ++ "_" ++ b)) e ↔
      ∃ front inst, a = front ++ "." ++ inst ∧ '.' ∉ inst.toList ∧ e = inst ++ "_" ++ b := by
  have hbelongs : ∀ {front inst : String}, '.' ∉ inst.toList →
      (stateKeyBelongsToEntity (buildStateKey ruleID (front ++ "." ++ inst ++ "_" ++ b)) e ↔
        e = inst ++ "_" ++ b) := by
    intro front inst hinst
    have hcount : (inst ++ "_" ++ b).toList.count '.' = 5 := by
      simp [List.count_eq_zero_of_not_mem hinst, count_dot hb]
    have hiff := @belongs_iff (inst ++ "_" ++ b) e (ruleID ++ "." ++ front) he hcount
    simpa [buildStateKey, String.append_assoc] using hiff
  constructor
  · intro h
    obtain ⟨front, inst, rfl, hinst⟩ := exists_segment ha
    exact ⟨front, inst, rfl, hinst, (hbelongs hinst).1 h⟩
  · rintro ⟨front, inst, rfl, hinst, h⟩
    exact (hbelongs hinst).2 h

/-- **What the keys of match states tell apart**, for rule ids without dots and canonical entity
ids: single entities always, a pair from a single entity always, two pairs unless a `_` of an id can
be taken for the separator. Deleting the states of an entity deletes its own keys, and those of the
pairs whose key ends in its id. -/
theorem stateKeys_iff (ruleID ruleID' : String) (hrule : '.' ∉ ruleID.toList)
    (hrule' : '.' ∉ ruleID'.toList) (a b c d e : String) (ha : isValidEntityID a = true)
    (hb : isValidEntityID b = true) (he : isValidEntityID e = true) (hab : a ≤ b) (hcd : c ≤ d)
    (keys : List String) :
    buildPairKey b a = buildPairKey a b ∧
    (buildStateKey ruleID a = buildStateKey ruleID' c ↔ ruleID = ruleID' ∧ a = c) ∧
    buildStateKey ruleID e ≠ buildStateKey ruleID' (buildPairKey a b) ∧
    (buildStateKey ruleID (buildPairKey a b) = buildStateKey ruleID' (buildPairKey c d) ↔
      ruleID = ruleID' ∧ ((a = c ∧ b = d) ∨ (∃ w, c = a ++ "_" ++ w ∧ b = w ++ "_" ++ d) ∨
        ∃ w, a = c ++ "_" ++ w ∧ d = w ++ "_" ++ b)) ∧
    (buildStateKey ruleID a ∈ keys → (buildStateKey ruleID a ∉ deleteAllForEntity keys e ↔ e = a)) ∧
    (buildStateKey ruleID (buildPairKey a b) ∈ keys →
      (buildStateKey ruleID (buildPairKey a b) ∉ deleteAllForEntity keys e ↔
        ∃ front inst, a = front ++ "." ++ inst ∧ '.' ∉ inst.toList ∧ e = inst ++ "_" ++ b)) := by
  have hdeleted : ∀ {key}, key ∈ keys →
      (key ∉ deleteAllForEntity keys e ↔ stateKeyBelongsToEntity key e) := by
    intro key hkey
    simp [deleteAllForEntity, hkey]
  rw [buildPairKey_of_le hab, buildPairKey_of_le hcd]
  refine ⟨?_, buildStateKey_inj hrule hrule', fun h => ?_, ?_, fun h => ?_, fun h => ?_⟩
  · unfold buildPairKey
    rw [if_neg (String.not_lt.2 hab)]
  · have hcount := count_dot he
    rw [((buildStateKey_inj hrule hrule').1 h).2] at hcount
    simp [count_dot ha, count_dot hb] at hcount
  · rw [buildStateKey_inj hrule hrule', append_under_inj]
  · rw [hdeleted h]
    exact belongs_iff he (count_dot ha)
  · rw [hdeleted h]
    exact belongs_pair_iff ha hb he

/-- Two pairs with a common drone, and the states deleted with it. -/
theorem stateKeys_iff_drones :
    let drone (n : String) := "acme.fleet.air.uav.drone." ++ n
    let near := buildStateKey "near" (buildPairKey (drone "1") (drone "2"))
    let keys := [buildStateKey "near" (drone "1"), near]
    near ≠ buildStateKey "near" (buildPairKey (drone "1") (drone "3")) ∧
      buildStateKey "near" (drone "1") ∉ deleteAllForEntity keys (drone "1") ∧
      near ∈ deleteAllForEntity keys (drone "1") := by
  intro drone near keys
  obtain ⟨-, -, -, hpairs, hsingle, hpair⟩ := stateKeys_iff "near" "near" (by decide +kernel)
    (by decide +kernel) (drone "1") (drone "2") (drone "1") (drone "3") (drone "1")
    (by decide +kernel) (by decide +kernel) (by decide +kernel) (by decide +kernel)
    (by decide +kernel) keys
  have hlonger : ∀ {a b w : String}, a.length = b.length → a ≠ w ++ "_" ++ b := by
    intro a b w hlength h
    have hlength' := congrArg String.length h
    have hone : "_".length = 1 := rfl
    simp only [String.length_append] at hlength'
    omega
  refine ⟨fun h => ?_, (hsingle (by simp [keys])).2 rfl, ?_⟩
  · obtain ⟨-, ⟨-, h⟩ | ⟨_, -, h⟩ | ⟨_, -, h⟩⟩ := hpairs.1 h
    · exact absurd h (by decide +kernel)
    all_goals exact hlonger (by decide +kernel) h
  · by_contra hnot
    obtain ⟨_, _, -, -, h⟩ := (hpair (by simp [keys, near])).1 hnot
    exact hlonger (by decide +kernel) h

/-- **Two pairs share a key, and an entity takes it with it.** -/
theorem pair_key_shared :
    buildPairKey "a.b.c.d.e.x" "y_z.b.c.d.e.f" = buildPairKey "a.b.c.d.e.x_y" "z.b.c.d.e.f" ∧
    deleteAllForEntity [buildStateKey "near" (buildPairKey "a.b.c.d.e.x" "z.b.c.d.e.f")]
      "x_z.b.c.d.e.f" = [] ∧
    ["a.b.c.d.e.x", "y_z.b.c.d.e.f", "a.b.c.d.e.x_y", "z.b.c.d.e.f", "x_z.b.c.d.e.f"].all
      isValidEntityID = true := by
  decide +kernel

end SemStreams.Rule
