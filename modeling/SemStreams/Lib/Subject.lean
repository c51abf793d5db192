import Mathlib.Data.List.Basic
/-!
# Dotted subjects and wildcard filters

A subject is a text of tokens separated by dots. A filter is a subject in
which the token `*` stands for any one token, and a last token `>` for one or
more. The lemmas read a subject token by token, so that what a filter selects
among subjects of a known shape is settled by comparing tokens.
-/

namespace SemStreams

open List

def tokens (text : String) : List (List Char) := text.toList.splitOn '.'

def joinTokens (parts : List (List Char)) : String := String.ofList (['.'].intercalate parts)

/-- **What a filter selects**, token by token. -/
def filterSelects : List (List Char) → List (List Char) → Bool
  | [], ts => ts.isEmpty
  | _ :: _, [] => false
  | f :: fs, t :: ts =>
    if f = ['>'] ∧ fs = [] then true else (f = ['*'] || f = t) && filterSelects fs ts

def subjectSelects (filter key : String) : Bool := filterSelects (tokens filter) (tokens key)

/-- A token that a filter takes literally. -/
def Literal (token : List Char) : Prop := token ≠ ['*'] ∧ token ≠ ['>']

variable {a b : String}

theorem tokens_ne_nil (a : String) : tokens a ≠ [] := splitOn_ne_nil _ _

theorem joinTokens_tokens (a : String) : joinTokens (tokens a) = a := by
  unfold joinTokens tokens
  rw [intercalate_splitOn, String.ofList_toList]

theorem tokens_injective (h : tokens a = tokens b) : a = b := by
  rw [← joinTokens_tokens a, h, joinTokens_tokens]

theorem tokens_inj : tokens a = tokens b ↔ a = b := ⟨tokens_injective, congrArg tokens⟩

/-- A dot between two texts puts their tokens side by side. -/
theorem tokens_append_dot (a b : String) : tokens (a ++ "." ++ b) = tokens a ++ tokens b := by
  have htext : (a ++ "." ++ b).toList = a.toList ++ '.' :: b.toList := by
    rw [String.toList_append, String.toList_append, append_assoc]
    rfl
  unfold tokens
  rw [htext]
  exact splitOnP_append_cons _ _ rfl

theorem tokens_eq_singleton (h : '.' ∉ a.toList) : tokens a = [a.toList] := by
  refine splitOnP_eq_singleton fun x hx => ?_
  rw [beq_eq_false_iff_ne]
  rintro rfl
  exact h hx

theorem tokens_joinTokens (hne : parts ≠ [])
    (h : ∀ part ∈ parts, '.' ∉ part) : tokens (joinTokens parts) = parts := by
  unfold tokens joinTokens
  rw [String.toList_ofList]
  exact splitOn_intercalate '.' h hne

theorem joinTokens_append (ha : as ≠ []) (hb : bs ≠ []) :
    joinTokens (as ++ bs) = joinTokens as ++ "." ++ joinTokens bs := by
  have happend : ['.'].intercalate (as ++ bs) =
      ['.'].intercalate as ++ '.' :: ['.'].intercalate bs := by
    induction as with
    | nil => exact absurd rfl ha
    | cons a as ih =>
      cases as with
      | nil =>
        cases bs with
        | nil => exact absurd rfl hb
        | cons b bs => simp [intercalate_cons_cons]
      | cons a' as =>
        rw [cons_append, cons_append, intercalate_cons_cons, ← cons_append,
          ih (by simp), intercalate_cons_cons]
        simp
  apply String.toList_inj.1
  simp [joinTokens, happend]

/-- **A text ends with the tokens of another** if it is the other, or the other
stands behind a dot. -/
theorem tokens_suffix_iff : tokens b <:+ tokens a ↔ a = b ∨ ∃ front, a = front ++ "." ++ b := by
  constructor
  · rintro ⟨front, hfront⟩
    by_cases hnil : front = []
    · rw [hnil, nil_append, tokens_inj] at hfront
      exact .inl hfront.symm
    · refine .inr ⟨joinTokens front, ?_⟩
      rw [← joinTokens_tokens a, ← hfront, joinTokens_append hnil (tokens_ne_nil b),
        joinTokens_tokens]
  · rintro (rfl | ⟨front, rfl⟩)
    · exact suffix_rfl
    · exact ⟨tokens front, (tokens_append_dot front b).symm⟩

variable {fs ts : List (List Char)}

theorem filterSelects_cons_star : filterSelects (['*'] :: fs) (t :: ts) = filterSelects fs ts := by
  rw [filterSelects, if_neg (by simp)]
  simp

theorem filterSelects_cons_literal (hf : Literal f) :
    filterSelects (f :: fs) (t :: ts) = (decide (f = t) && filterSelects fs ts) := by
  rw [filterSelects, if_neg (fun h => hf.2 h.1), decide_eq_false hf.1, Bool.false_or]

/-- Leading stars take one token each. -/
theorem filterSelects_stars (hn : us.length = n) :
    filterSelects (List.replicate n ['*'] ++ fs) (us ++ ts) = filterSelects fs ts := by
  induction us generalizing n with
  | nil =>
    subst hn
    rfl
  | cons u us ih =>
    subst hn
    exact ih rfl

/-- Leading literal tokens have to be the tokens themselves. -/
theorem filterSelects_literals (hls : ∀ l ∈ ls, Literal l) (hlen : ls.length = us.length) :
    filterSelects (ls ++ fs) (us ++ ts) = (decide (ls = us) && filterSelects fs ts) := by
  induction ls generalizing us with
  | nil =>
    have hus : us = [] := length_eq_zero_iff.1 hlen.symm
    subst hus
    simp
  | cons l ls ih =>
    cases us with
    | nil => cases hlen
    | cons u us =>
      rw [cons_append, cons_append, filterSelects_cons_literal (hls l (by simp)),
        ih (fun x hx => hls x (by simp [hx])) (Nat.succ.inj hlen)]
      simp [Bool.and_assoc]

theorem filterSelects_rest (h : ts ≠ []) : filterSelects [['>']] ts := by
  cases ts with
  | nil => exact absurd rfl h
  | cons t ts => rfl

/-- **Literal tokens and `>`** select what goes on after them. -/
theorem filterSelects_literals_rest (hls : ∀ l ∈ ls, Literal l) :
    filterSelects (ls ++ [['>']]) ts ↔ ∃ rest, rest ≠ [] ∧ ts = ls ++ rest := by
  induction ls generalizing ts with
  | nil =>
    cases ts with
    | nil => simp [filterSelects]
    | cons t ts => exact iff_of_true rfl ⟨t :: ts, by simp, rfl⟩
  | cons l ls ih =>
    obtain ⟨hl, hls⟩ := forall_mem_cons.1 hls
    cases ts with
    | nil => simp [filterSelects]
    | cons t ts =>
      rw [cons_append, filterSelects_cons_literal hl, Bool.and_eq_true, decide_eq_true_eq, ih hls]
      constructor
      · rintro ⟨rfl, rest, hrest, rfl⟩
        exact ⟨rest, hrest, rfl⟩
      · rintro ⟨rest, hrest, heq⟩
        obtain ⟨rfl, rfl⟩ := List.cons.inj heq
        exact ⟨rfl, rest, hrest, rfl⟩

end SemStreams
