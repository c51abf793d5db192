import Mathlib.Data.List.Basic
import Mathlib.Order.MinMax
/-!
# Splicing by offsets of the original

A list of replacements, each between two offsets of the original text, is carried out one
after the other on the text as it stands, the later offsets first. Where the spans overlap,
the offsets are off: a replacement made before has moved what they meant. This file says
exactly when that does no harm.

Every character of the outcome carries where it came from: a position of the original, or a
span it was put in place of. From the start of a replacement on, up to where the one before it
starts, the spans end at their `reach`, and what the replacements leave begins at `moved`, which
takes the changes of length into account. The outcome is exact where the two agree, or neither
is before that start (`Aligned`, `exact_iff`): so it is for spans that do not overlap, and for
replacements as long as what they replace.
-/

namespace SemStreams

open List Option

variable {α β : Type*}

/-- What is put in place of the characters from `start` to before `stop`. -/
structure Edit (α : Type*) where
  start : ℕ
  stop : ℕ
  new : List α
  le : start ≤ stop

namespace Edit

/-- By how much the text grows. -/
def growth (e : Edit α) : ℤ := e.new.length - (e.stop - e.start)

def map (f : α → β) (e : Edit α) : Edit β := { e with new := e.new.map f }

/-- The text with the replacement made; `none` where an offset is beyond its end. -/
def splice (e : Edit α) (l : List α) : Option (List α) :=
  if e.start ≤ l.length ∧ e.stop ≤ l.length then some (l.take e.start ++ e.new ++ l.drop e.stop)
  else none

variable {e : Edit α} {l : List α}

theorem splice_eq_some (h : e.splice l = some l') :
    e.stop ≤ l.length ∧ l' = l.take e.start ++ e.new ++ l.drop e.stop := by
  rw [splice] at h
  split at h
  · next hle => exact ⟨hle.2, (Option.some.inj h).symm⟩
  · cases h

theorem splice_of_le (h : e.stop ≤ l.length) :
    e.splice l = some (l.take e.start ++ e.new ++ l.drop e.stop) :=
  if_pos ⟨e.le.trans h, h⟩

theorem length_splice (h : e.splice l = some l') :
    l'.length = l.length - e.stop + e.start + e.new.length := by
  obtain ⟨_, rfl⟩ := splice_eq_some h
  have := e.le
  simp only [length_append, length_take, length_drop]
  omega

end Edit

/-- The replacements, one after the other. -/
def spliceAll : List (Edit α) → List α → Option (List α)
  | [], l => some l
  | e :: es, l => (e.splice l).bind (spliceAll es)

/-- Splicing does not look at the characters. -/
theorem spliceAll_map (f : α → β) (es : List (Edit α)) (l : List α) :
    spliceAll (es.map (Edit.map f)) (l.map f) = (spliceAll es l).map (List.map f) := by
  induction es generalizing l with
  | nil => rfl
  | cons e es ih =>
    simp only [map_cons, spliceAll, Edit.splice, Edit.map, length_map]
    split
    · simp [← ih, map_take, map_drop]
    · rfl

/-! ## Where a position goes -/

/-- The index, after the replacements, of the character now at `q`. -/
def place : List (Edit α) → ℕ → Option ℕ
  | [], q => some q
  | e :: es, q =>
    if q < e.start then place es q
    else if e.stop ≤ q then place es (q - e.stop + e.start + e.new.length)
    else none

/-- The position is in none of the spans. -/
def Uncovered (es : List (Edit α)) (p : ℕ) : Prop := ∀ e ∈ es, e.start ≤ p → e.stop ≤ p

/-- The later offsets come first. -/
def Descending (es : List (Edit α)) : Prop := es.Pairwise fun e e' => e'.start ≤ e.start

instance (es : List (Edit α)) (p : ℕ) : Decidable (Uncovered es p) :=
  inferInstanceAs (Decidable (∀ e ∈ es, _ → _))

/-- The last end of a span. -/
def reach : List (Edit α) → ℤ
  | [] => 0
  | e :: es => max e.stop (reach es)

/-- The last end of a span, each where it was before the replacements made until then moved it. -/
def moved : List (Edit α) → ℤ
  | [] => 0
  | e :: es => max e.stop (moved es - e.growth)

/-- **The ends of the spans are where they were**: for each replacement and the ones after it they
agree up to `hi`, where the one before it starts. -/
def Aligned : ℕ → List (Edit α) → Prop
  | _, [] => True
  | hi, e :: es => min (moved (e :: es)) hi = min (reach (e :: es)) hi ∧ Aligned e.start es

instance decidableAligned : ∀ hi (es : List (Edit α)), Decidable (Aligned hi es)
  | _, [] => isTrue trivial
  | _, e :: es =>
    have := decidableAligned e.start es
    inferInstanceAs (Decidable (_ ∧ _))

variable {es : List (Edit α)} {p : ℕ}

theorem uncovered_iff (hp : ∀ e ∈ es, e.start ≤ p) : Uncovered es p ↔ reach es ≤ p := by
  induction es with
  | nil => simp [Uncovered, reach]
  | cons e es ih =>
    obtain ⟨he, hes⟩ := forall_mem_cons.1 hp
    rw [Uncovered, forall_mem_cons, ← Uncovered, ih hes, reach, max_le_iff]
    simp [he]

/-- A position after all the starts is followed by the changes of length alone. -/
theorem place_isSome_iff (hdesc : Descending es) (hp : ∀ e ∈ es, e.start ≤ p) :
    (place es p).isSome ↔ moved es ≤ p := by
  induction es generalizing p with
  | nil => simp [place, moved]
  | cons e es ih =>
    obtain ⟨hbelow, hrest⟩ := pairwise_cons.1 hdesc
    have hstart := hp e (by simp)
    rw [place, if_neg (by omega), moved, max_le_iff, Int.ofNat_le]
    by_cases hstop : e.stop ≤ p
    · have hafter : ∀ e' ∈ es, e'.start ≤ p - e.stop + e.start + e.new.length := by
        intro e' he'
        have := hbelow e' he'
        omega
      have hle := e.le
      rw [if_pos hstop, ih hrest hafter, Edit.growth]
      omega
    · rw [if_neg hstop]
      simp [hstop]

/-- **The positions that have a place are those in no span just where the ends are aligned.** -/
theorem forall_place_iff (hdesc : Descending es) (hhi : ∀ e ∈ es, e.start ≤ hi) :
    (∀ p < hi, (place es p).isSome ↔ Uncovered es p) ↔ Aligned hi es := by
  induction es generalizing hi with
  | nil => simp [place, Uncovered, Aligned]
  | cons e es ih =>
    obtain ⟨hbelow, hrest⟩ := pairwise_cons.1 hdesc
    have hstart := hhi e (by simp)
    rw [Aligned, ← ih hrest hbelow]
    have hlow : ∀ p < e.start, ((place (e :: es) p).isSome ↔ Uncovered (e :: es) p) ↔
        ((place es p).isSome ↔ Uncovered es p) := by
      intro p hp
      rw [place, if_pos hp, Uncovered, forall_mem_cons, ← Uncovered]
      simp [Nat.not_le.2 hp]
    have hhigh : ∀ p, e.start ≤ p → (((place (e :: es) p).isSome ↔ Uncovered (e :: es) p) ↔
        (moved (e :: es) ≤ p ↔ reach (e :: es) ≤ p)) := by
      intro p hp
      have hall : ∀ e' ∈ e :: es, e'.start ≤ p :=
        forall_mem_cons.2 ⟨hp, fun e' he' => (hbelow e' he').trans hp⟩
      rw [place_isSome_iff hdesc hall, uncovered_iff hall]
    have hmoved : (e.start : ℤ) ≤ moved (e :: es) :=
      (Int.ofNat_le.2 e.le).trans (le_max_left _ _)
    have hreach : (e.start : ℤ) ≤ reach (e :: es) :=
      (Int.ofNat_le.2 e.le).trans (le_max_left _ _)
    constructor
    · refine fun h => ⟨?_, fun p hp => (hlow p hp).1 (h p (by omega))⟩
      -- where the ends differ, the first of them tells
      have htell : ∀ q : ℤ, e.start ≤ q → q < hi → (moved (e :: es) ≤ q ↔ reach (e :: es) ≤ q) := by
        intro q hq hlt
        obtain ⟨p, rfl⟩ := Int.eq_ofNat_of_zero_le ((Int.natCast_nonneg _).trans hq)
        exact (hhigh p (by omega)).1 (h p (by omega))
      have := htell _ hmoved
      have := htell _ hreach
      omega
    · rintro ⟨hmin, hrest⟩ p hp
      by_cases hbefore : p < e.start
      · exact (hlow p hbefore).2 (hrest p hbefore)
      · refine (hhigh p (by omega)).2 ?_
        omega

theorem aligned_of_growth_eq_zero (h : ∀ e ∈ es, e.growth = 0) (hi : ℕ) : Aligned hi es := by
  have hsame : ∀ {es : List (Edit α)}, (∀ e ∈ es, e.growth = 0) → moved es = reach es := by
    intro es h
    induction es with
    | nil => rfl
    | cons e es ih => rw [moved, reach, h e (by simp), Int.sub_zero, ih fun e' he' => h e' (by simp [he'])]
  induction es generalizing hi with
  | nil => trivial
  | cons e es ih => exact ⟨by rw [hsame h], ih (fun e' he' => h e' (by simp [he'])) _⟩

theorem aligned_of_disjoint (h : es.Pairwise fun e e' => e'.stop ≤ e.start) (hi : ℕ) :
    Aligned hi es := by
  have hends : ∀ {es : List (Edit α)}, (es.Pairwise fun e e' => e'.stop ≤ e.start) →
      ∀ {b : ℕ}, (∀ e ∈ es, e.stop ≤ b) → moved es ≤ b ∧ reach es ≤ b := by
    intro es h
    induction es with
    | nil => simp [moved, reach]
    | cons e es ih =>
      intro b hb
      obtain ⟨hbelow, hrest⟩ := pairwise_cons.1 h
      have := ih hrest hbelow
      have := hb e (by simp)
      have := e.le
      rw [moved, reach, Edit.growth]
      omega
  induction es generalizing hi with
  | nil => trivial
  | cons e es ih =>
    obtain ⟨hbelow, hrest⟩ := pairwise_cons.1 h
    refine ⟨?_, ih hrest _⟩
    have := hends hrest hbelow
    have := e.le
    rw [moved, reach, Edit.growth]
    omega

variable {l : List α}

/-- The offsets stay within the text as long as its end is not reached. -/
theorem spliceAll_isSome_iff (hdesc : Descending es) (hin : ∀ e ∈ es, e.start ≤ l.length) :
    (spliceAll es l).isSome ↔ (place es l.length).isSome := by
  induction es generalizing l with
  | nil => simp [spliceAll, place]
  | cons e es ih =>
    obtain ⟨hbelow, hrest⟩ := pairwise_cons.1 hdesc
    have hstart : ¬ l.length < e.start := by
      have := hin e (by simp)
      omega
    rw [spliceAll, place, if_neg hstart]
    by_cases hstop : e.stop ≤ l.length
    · have hlen := Edit.length_splice (Edit.splice_of_le hstop)
      rw [if_pos hstop, Edit.splice_of_le hstop, bind_some, ih hrest, hlen]
      intro e' he'
      have := hbelow e' he'
      omega
    · rw [if_neg hstop, Edit.splice, if_neg (by omega)]
      rfl

/-! ## What is left of the original -/

section Seen

variable (g : α → Option β)

/-- What a function sees of the characters whose index passes a test, the first having
index `n`. -/
def seen (pass : ℕ → Bool) (n : ℕ) (l : List α) : List β :=
  (l.zipIdx n).filterMap fun x => if pass x.2 then g x.1 else none

variable {g}

theorem seen_append (pass : ℕ → Bool) (n : ℕ) (l l' : List α) :
    seen g pass n (l ++ l') = seen g pass n l ++ seen g pass (n + l.length) l' := by
  rw [seen, zipIdx_append, filterMap_append]
  rfl

variable {l : List α} {pass : ℕ → Bool} {n : ℕ}

theorem seen_congr (h : ∀ i < l.length, pass (n + i) = pass' (m + i)) :
    seen g pass n l = seen g pass' m l := by
  induction l generalizing n m with
  | nil => rfl
  | cons a l ih =>
    have htail : seen g pass (n + 1) l = seen g pass' (m + 1) l := by
      refine ih fun i hi => ?_
      have := h (i + 1) (by simpa using hi)
      rwa [show n + 1 + i = n + (i + 1) by omega, show m + 1 + i = m + (i + 1) by omega]
    have hhead : pass n = pass' m := h 0 (by simp)
    simp only [seen, zipIdx_cons, filterMap_cons] at htail ⊢
    rw [hhead, htail]

theorem seen_eq_nil (h : ∀ a ∈ l, g a = none) : seen g pass n l = [] := by
  refine filterMap_eq_nil_iff.2 fun x hx => ?_
  rw [h _ (fst_mem_of_mem_zipIdx hx), ite_self]

theorem seen_eq_nil_of_pass (h : ∀ i < l.length, pass (n + i) = false) : seen g pass n l = [] := by
  have hfalse : seen g pass n l = seen g (fun _ => false) n l := seen_congr h
  rw [hfalse]
  exact filterMap_eq_nil_iff.2 fun _ _ => rfl

theorem seen_true : seen g (fun _ => true) n l = l.filterMap g := by
  conv_rhs => rw [← zipIdx_map_fst n l, filterMap_map]
  rfl

/-- **What is left of the original**, seen by a function that does not see what is put in
its place: the characters that have a place. -/
theorem filterMap_spliceAll
    (hnew : ∀ e ∈ es, ∀ a ∈ e.new, g a = none) (h : spliceAll es l = some r) :
    r.filterMap g = seen g (fun q => (place es q).isSome) 0 l := by
  induction es generalizing l with
  | nil =>
    cases h
    exact seen_true.symm
  | cons e es ih =>
    obtain ⟨_, hl', hr⟩ := bind_eq_some_iff.1 h
    rw [ih (fun e' he' => hnew e' (by simp [he'])) hr]
    obtain ⟨_, rfl⟩ := Edit.splice_eq_some hl'
    have hle := e.le
    -- the text falls into what is before the span, the span, and what is after it
    have hparts : l = l.take e.start ++ ((l.drop e.start).take (e.stop - e.start) ++
        l.drop e.stop) := by
      conv_lhs => rw [← take_append_drop e.start l,
        ← take_append_drop (e.stop - e.start) (l.drop e.start), drop_drop,
        show e.start + (e.stop - e.start) = e.stop by omega]
    have hbefore : (l.take e.start).length = e.start := by
      rw [length_take]
      omega
    have hspan : ((l.drop e.start).take (e.stop - e.start)).length = e.stop - e.start := by
      rw [length_take, length_drop]
      omega
    conv_rhs => rw [hparts]
    rw [seen_append, seen_append, seen_append, seen_append, seen_eq_nil (hnew e (by simp)),
      append_nil, length_append, hbefore, hspan]
    congr 1
    · refine seen_congr fun i hi => ?_
      rw [place, if_pos (by omega)]
    · have hgone : seen g (fun q => (place (e :: es) q).isSome) (0 + e.start)
          ((l.drop e.start).take (e.stop - e.start)) = [] := by
        refine seen_eq_nil_of_pass fun i hi => ?_
        rw [place, if_neg (by omega), if_neg (by omega)]
        rfl
      rw [hgone, nil_append]
      refine seen_congr fun i _ => ?_
      rw [place, if_neg (by omega), if_pos (by omega)]
      congr 2
      omega

end Seen

/-! ## Marks -/

/-- A character of the outcome, and where it came from: a position of the original, or the
span it was put in place of. -/
inductive Mark (α : Type*) where
  | kept (position : ℕ) (value : α)
  | put (start stop : ℕ) (value : α)
deriving DecidableEq

namespace Mark

def value : Mark α → α
  | kept _ a => a
  | put _ _ a => a

/-- What was kept, with its position. -/
def kept? : Mark α → Option (α × ℕ)
  | kept i a => some (a, i)
  | put _ _ _ => none

/-- What comes first in the outcome came first in the original, a replacement standing where
its span starts. -/
def Ordered : Mark α → Mark α → Prop
  | kept i _, kept j _ => i < j
  | kept i _, put start _ _ => i < start
  | put start _ _, kept j _ => start ≤ j
  | put _ _ _, put _ _ _ => True

/-- Nothing from before an offset. -/
def From (b : ℕ) : Mark α → Prop
  | kept i _ => b ≤ i
  | put start _ _ => b ≤ start

end Mark

/-- The original, each character with its position. -/
def marked (l : List α) : List (Mark α) := l.zipIdx.map fun x => .kept x.2 x.1

/-- The replacement, each character with its span. -/
def Edit.marked (e : Edit α) : Edit (Mark α) := e.map (.put e.start e.stop)

@[simp] theorem length_marked (l : List α) : (marked l).length = l.length := by simp [marked]

theorem marked_value (l : List α) : (marked l).map Mark.value = l := by
  rw [marked, List.map_map]
  exact zipIdx_map_fst 0 l

theorem Edit.marked_value (e : Edit α) : e.marked.map Mark.value = e := by
  simp only [Edit.marked, Edit.map, List.map_map]
  congr 1
  exact List.map_id _

/-- The marks are only marks. -/
theorem spliceAll_marked (es : List (Edit α)) (l : List α) : spliceAll es l =
      (spliceAll (es.map Edit.marked) (marked l)).map (List.map Mark.value) := by
  rw [← spliceAll_map, marked_value, List.map_map]
  congr 1
  exact ((map_congr_left fun e _ => e.marked_value).trans (List.map_id _)).symm

theorem place_marked (es : List (Edit α)) (q : ℕ) : place (es.map Edit.marked) q = place es q := by
  induction es generalizing q with
  | nil => rfl
  | cons e es ih => simp [place, ih, Edit.marked, Edit.map]

theorem descending_marked (h : Descending es) : Descending (es.map Edit.marked) := pairwise_map.2 h

/-- A position of the original passes with its character. -/
theorem seen_marked (pass : ℕ → Bool) (n : ℕ) (l : List α) :
    seen Mark.kept? pass n ((l.zipIdx n).map fun x => .kept x.2 x.1) =
      (l.zipIdx n).filter fun x => pass x.2 := by
  induction l generalizing n with
  | nil => rfl
  | cons a l ih =>
    have htail := ih (n + 1)
    simp only [seen] at htail ⊢
    simp only [zipIdx_cons, map_cons, filterMap_cons, filter_cons, htail]
    cases pass n <;> rfl

variable {r : List (Mark α)}

/-- What is kept has a place, and stands in the order of the original. -/
theorem kept_spliceAll (h : spliceAll (es.map Edit.marked) (marked l) = some r) :
    r.filterMap Mark.kept? = l.zipIdx.filter fun x => (place es x.2).isSome := by
  rw [filterMap_spliceAll _ h, marked, seen_marked]
  · simp only [place_marked]
  · intro e he a ha
    obtain ⟨_, _, rfl⟩ := List.mem_map.1 he
    obtain ⟨b, _, rfl⟩ := List.mem_map.1 ha
    rfl

variable {a : α}

/-- What is in the outcome is the original's or a replacement's. -/
theorem mem_spliceAll {r : List α} (h : spliceAll es l = some r) (ha : a ∈ r) :
    a ∈ l ∨ ∃ e ∈ es, a ∈ e.new := by
  induction es generalizing l with
  | nil =>
    cases h
    exact .inl ha
  | cons e es ih =>
    obtain ⟨_, hl', hr⟩ := bind_eq_some_iff.1 h
    rcases ih hr with hmem | ⟨e', he', hmem⟩
    · obtain ⟨-, rfl⟩ := Edit.splice_eq_some hl'
      rcases mem_append.1 hmem with hmem | hmem
      · rcases mem_append.1 hmem with hmem | hmem
        · exact .inl (mem_of_mem_take hmem)
        · exact .inr ⟨e, by simp, hmem⟩
      · exact .inl (mem_of_mem_drop hmem)
    · exact .inr ⟨e', by simp [he'], hmem⟩

/-! ## Order -/

variable {i : ℕ}

theorem getElem_marked (h : i < (marked l).length) : ∃ a, (marked l)[i] = .kept i a := by
  simp [marked]

variable {m : Mark α} {b : ℕ}

theorem mem_take_marked (h : m ∈ (marked l).take b) : ∃ i a, m = .kept i a ∧ i < b := by
  obtain ⟨i, hi, rfl⟩ := getElem_of_mem h
  rw [length_take] at hi
  obtain ⟨a, ha⟩ := @getElem_marked _ l i (by omega)
  exact ⟨i, a, by rw [getElem_take, ha], by omega⟩

theorem from_of_mem_drop_marked (h : m ∈ (marked l).drop b) : m.From b := by
  obtain ⟨i, hi, rfl⟩ := getElem_of_mem h
  rw [length_drop] at hi
  obtain ⟨a, ha⟩ := @getElem_marked _ l (b + i) (by omega)
  rw [getElem_drop, ha]
  exact Nat.le_add_right b i

theorem Mark.From.mono (h : m.From b) (hb : b' ≤ b) : m.From b' := by
  cases m <;> exact hb.trans h

/-- What is kept from before an offset comes before what is from there on. -/
theorem Mark.From.ordered (h : m.From b) (hi : i < b) : (Mark.kept i a).Ordered m := by
  cases m <;> exact hi.trans_le h

/-- The characters up to `b` are still the original's, and the others are in order, from `b`
on. -/
structure Spliced (l : List α) (b : ℕ) (r : List (Mark α)) : Prop where
  head : r.take b = (marked l).take b
  tail : ∀ m ∈ r.drop b, m.From b
  ordered : r.Pairwise Mark.Ordered

theorem spliced_marked (l : List α) : Spliced l l.length (marked l) where
  head := rfl
  tail m hm := by
    rw [drop_eq_nil_of_le (length_marked l).le] at hm
    cases hm
  ordered := by
    refine pairwise_iff_getElem.2 fun i j hi hj hij => ?_
    obtain ⟨a, ha⟩ := getElem_marked hi
    obtain ⟨b, hb⟩ := getElem_marked hj
    rw [ha, hb]
    exact hij

theorem Spliced.from_of_mem_drop (h : Spliced l b r) (hb : b' ≤ b) (hm : m ∈ r.drop b') :
    m.From b' := by
  have hparts : r.drop b' = ((marked l).take b).drop b' ++ r.drop b := by
    rw [← h.head, drop_take]
    have hsplit := take_append_drop (b - b') (r.drop b')
    rw [drop_drop, Nat.add_sub_cancel' hb] at hsplit
    exact hsplit.symm
  rw [hparts] at hm
  rcases mem_append.1 hm with hm | hm
  · rw [drop_take] at hm
    exact from_of_mem_drop_marked (mem_of_mem_take hm)
  · exact (h.tail m hm).mono hb

theorem Spliced.splice {e : Edit α} (h : Spliced l b r) (hstart : e.start ≤ b)
    (hr : e.marked.splice r = some r') : Spliced l e.start r' := by
  obtain ⟨hstop, rfl⟩ := Edit.splice_eq_some hr
  have hle : e.start ≤ e.stop := e.le
  have hstop' : e.stop ≤ r.length := hstop
  have hhead : r.take e.start = (marked l).take e.start := by
    have htake := congrArg (List.take e.start) h.head
    rwa [take_take, take_take, Nat.min_eq_left hstart] at htake
  have hlength : (r.take e.start).length = e.start := by
    rw [length_take]
    omega
  have hafter : ∀ m ∈ r.drop e.stop, m.From e.start := fun m hm =>
    h.from_of_mem_drop hstart
      (drop_subset_drop_left r hle hm)
  have hnew : ∀ m ∈ e.marked.new, ∃ a, m = .put e.start e.stop a := by
    intro m hm
    obtain ⟨a, _, rfl⟩ := List.mem_map.1 hm
    exact ⟨a, rfl⟩
  show Spliced l e.start (r.take e.start ++ e.marked.new ++ r.drop e.stop)
  refine ⟨?_, ?_, ?_⟩
  · rw [append_assoc, take_left' hlength, hhead]
  · intro m hm
    rw [append_assoc, drop_left' hlength] at hm
    rcases mem_append.1 hm with hm | hm
    · obtain ⟨a, rfl⟩ := hnew m hm
      exact Nat.le_refl _
    · exact hafter m hm
  · rw [append_assoc]
    refine pairwise_append.2 ⟨h.ordered.sublist (take_sublist _ _),
      pairwise_append.2 ⟨?_, h.ordered.sublist (drop_sublist _ _), ?_⟩, ?_⟩
    · refine pairwise_iff_forall_sublist.2 fun {m m'} hsub => ?_
      obtain ⟨a, rfl⟩ := hnew m (hsub.subset (by simp))
      obtain ⟨a', rfl⟩ := hnew m' (hsub.subset (by simp))
      trivial
    · intro m hm m' hm'
      obtain ⟨a, rfl⟩ := hnew m hm
      have hfrom := hafter m' hm'
      cases m' with
      | kept j b => exact hfrom
      | put start stop b => trivial
    · intro m hm m' hm'
      obtain ⟨i, a, rfl, hi⟩ := mem_take_marked (hhead ▸ hm)
      refine Mark.From.ordered ?_ hi
      rcases mem_append.1 hm' with hm' | hm'
      · obtain ⟨a', rfl⟩ := hnew m' hm'
        exact Nat.le_refl _
      · exact hafter m' hm'

theorem Spliced.ordered_spliceAll (h : Spliced l b r) (hdesc : Descending es)
    (hb : ∀ e ∈ es, e.start ≤ b) (hr : spliceAll (es.map Edit.marked) r = some r') :
    r'.Pairwise Mark.Ordered := by
  induction es generalizing b r with
  | nil =>
    cases hr
    exact h.ordered
  | cons e es ih =>
    obtain ⟨hbelow, hrest⟩ := pairwise_cons.1 hdesc
    obtain ⟨_, hr₁, hr⟩ := bind_eq_some_iff.1 hr
    exact ih (h.splice (hb e (by simp)) hr₁) hrest hbelow hr

/-! ## Exactness -/

/-- **The outcome is exact**: what is kept is what lies in no span, in order; what is put in
is a replacement's; and it stands in place of the span. -/
structure Exact (es : List (Edit α)) (l : List α) (r : List (Mark α)) : Prop where
  kept : r.filterMap Mark.kept? = l.zipIdx.filter fun x => Uncovered es x.2
  replaced : ∀ start stop a, .put start stop a ∈ r →
    ∃ e ∈ es, e.start = start ∧ e.stop = stop ∧ a ∈ e.new
  placed : ∀ before start stop a after, r = before ++ .put start stop a :: after →
    (∀ i b, .kept i b ∈ before → i < start) ∧ ∀ i b, .kept i b ∈ after → stop ≤ i

theorem exact_of_kept (hdesc : Descending es) (hin : ∀ e ∈ es, e.stop ≤ l.length)
    (h : spliceAll (es.map Edit.marked) (marked l) = some r)
    (hkept : r.filterMap Mark.kept? = l.zipIdx.filter fun x => Uncovered es x.2) :
    Exact es l r := by
  have hreplaced : ∀ start stop a, .put start stop a ∈ r →
      ∃ e ∈ es, e.start = start ∧ e.stop = stop ∧ a ∈ e.new := by
    intro start stop a hmem
    rcases mem_spliceAll h hmem with hmem | ⟨e, he, hmem⟩
    · obtain ⟨x, _, hx⟩ := List.mem_map.1 hmem
      cases hx
    · obtain ⟨e', he', rfl⟩ := List.mem_map.1 he
      obtain ⟨b, hb, hx⟩ := List.mem_map.1 hmem
      cases hx
      exact ⟨e', he', rfl, rfl, hb⟩
  refine ⟨hkept, hreplaced, ?_⟩
  rintro before start stop a after rfl
  have hordered := (spliced_marked l).ordered_spliceAll hdesc
    (fun e he => e.le.trans (hin e he)) h
  obtain ⟨_, hafter, hbefore⟩ := pairwise_append.1 hordered
  refine ⟨fun i b hmem => hbefore _ hmem (.put start stop a) (by simp), fun i b hmem => ?_⟩
  -- what is kept after the span's start lies in no span, so after its end
  have hstart : start ≤ i := (pairwise_cons.1 hafter).1 _ hmem
  have hmem' : (b, i) ∈ (before ++ Mark.put start stop a :: after).filterMap Mark.kept? :=
    mem_filterMap.2 ⟨.kept i b, by simp [hmem], rfl⟩
  rw [hkept, mem_filter, decide_eq_true_eq] at hmem'
  obtain ⟨e, he, rfl, rfl, -⟩ := hreplaced start stop a (by simp)
  exact hmem'.2 e he hstart

/-- **When splicing is exact**: when the ends of the spans are aligned. -/
theorem exact_iff (hdesc : Descending es) (hin : ∀ e ∈ es, e.stop ≤ l.length) :
    (∃ r, spliceAll (es.map Edit.marked) (marked l) = some r ∧ Exact es l r) ↔
      Aligned (l.length + 1) es := by
  have hstarts : ∀ e ∈ es, e.start ≤ l.length := fun e he => e.le.trans (hin e he)
  rw [← forall_place_iff hdesc fun e he => (hstarts e he).trans (Nat.le_succ _)]
  have hsome : (spliceAll (es.map Edit.marked) (marked l)).isSome ↔ (place es l.length).isSome := by
    rw [spliceAll_isSome_iff (descending_marked hdesc), length_marked, place_marked]
    intro e he
    obtain ⟨e', he', rfl⟩ := List.mem_map.1 he
    rw [length_marked]
    exact hstarts e' he'
  have hend : Uncovered es l.length := fun e he _ => hin e he
  constructor
  · rintro ⟨r, hr, hexact⟩ p hp
    rcases Nat.lt_or_eq_of_le (Nat.le_of_lt_succ hp) with hlt | rfl
    · have hsame := (kept_spliceAll hr).symm.trans hexact.kept
      have hmem : (l[p], p) ∈ l.zipIdx := by simp [mem_zipIdx_iff_getElem?, hlt]
      have hiff := (@mem_filter _ _ _ (l[p], p)).symm.trans
        ((Iff.of_eq (congrArg ((l[p], p) ∈ ·) hsame)).trans mem_filter)
      simpa [hmem] using hiff
    · rw [hr] at hsome
      exact iff_of_true (hsome.1 rfl) hend
  · intro h
    obtain ⟨r, hr⟩ := isSome_iff_exists.1 (hsome.2 ((h _ (Nat.lt_succ_self _)).2 hend))
    refine ⟨r, hr, exact_of_kept hdesc hin hr ?_⟩
    rw [kept_spliceAll hr]
    refine filter_congr fun x hx => ?_
    have hlt : x.2 < l.length := by simpa using snd_lt_of_mem_zipIdx hx
    rw [Bool.eq_iff_iff, decide_eq_true_eq]
    exact h x.2 (by omega)

end SemStreams
