import Mathlib.Data.List.Basic
/-!
# Keeping the first element of a kind

`keepFirst p false` keeps every element that is not of kind `p` and the
first one that is; the flag says whether one was kept already. It is the
loop that makes a list single-valued in one kind of element.

`overwritten ys xs` is what a view of length `|xs|` on an array holds
after the array's front was overwritten by `ys`: the compaction of a
list in place, seen through the list's old length.
-/

namespace SemStreams

variable {α : Type*} (p : α → Bool)

/-- Keeps the first element of kind `p`, unless one was `kept` before, and
every element of another kind. -/
def keepFirst (kept : Bool) : List α → List α
  | [] => []
  | x :: xs =>
    if p x then
      if kept then keepFirst kept xs else x :: keepFirst true xs
    else x :: keepFirst kept xs

/-- The list `xs` seen at its old length after its front became `ys`. -/
def overwritten (ys xs : List α) : List α := ys ++ xs.drop ys.length

variable {p} {kept : Bool} {xs : List α}

@[simp] theorem keepFirst_nil : keepFirst p kept [] = [] := rfl

theorem keepFirst_cons : keepFirst p kept (x :: xs) =
      if p x then if kept then keepFirst p kept xs else x :: keepFirst p true xs
      else x :: keepFirst p kept xs := rfl

/-- Once one is kept, no other is. -/
theorem keepFirst_true : keepFirst p true xs = xs.filter fun x => !p x := by
  induction xs with
  | nil => rfl
  | cons x xs ih =>
    rw [keepFirst_cons]
    cases hx : p x with
    | true => simp [hx, ih]
    | false => simp [hx, ih]

theorem keepFirst_append :
    keepFirst p kept (xs ++ ys) = keepFirst p kept xs ++ keepFirst p (kept || xs.any p) ys := by
  induction xs generalizing kept with
  | nil => simp
  | cons x xs ih =>
    rw [List.cons_append, keepFirst_cons, keepFirst_cons]
    cases hx : p x with
    | true =>
      cases kept with
      | true => simp [hx, ih]
      | false => simp [hx, ih]
    | false => simp [hx, ih]

/-- A list without the kind is kept whole. -/
theorem keepFirst_of_none (h : ∀ x ∈ xs, p x = false) : keepFirst p kept xs = xs := by
  induction xs with
  | nil => rfl
  | cons x xs ih =>
    have hx : p x = false := h x (by simp)
    have hxs : ∀ y ∈ xs, p y = false := fun y hy => h y (by simp [hy])
    simp [keepFirst, hx, ih hxs]

@[simp] theorem any_keepFirst : (keepFirst p false xs).any p = xs.any p := by
  induction xs with
  | nil => rfl
  | cons x xs ih =>
    rw [keepFirst_cons]
    cases hx : p x with
    | true => simp [hx]
    | false => simp [hx, ih]

/-- What is not of the kind is untouched. -/
@[simp] theorem filter_keepFirst :
    (keepFirst p kept xs).filter (fun x => !p x) = xs.filter fun x => !p x := by
  induction xs generalizing kept with
  | nil => rfl
  | cons x xs ih =>
    rw [keepFirst_cons]
    cases hx : p x with
    | true =>
      cases kept with
      | true => simp [hx, ih]
      | false => simp [hx, ih]
    | false => simp [hx, ih]

/-- Of the kind, the first one is kept. -/
theorem filter_keepFirst_take : (keepFirst p false xs).filter p = (xs.filter p).take 1 := by
  induction xs with
  | nil => rfl
  | cons x xs ih =>
    rw [keepFirst_cons]
    cases hx : p x with
    | true => simp [hx, keepFirst_true, List.filter_filter]
    | false => simp [hx, ih]

/-- An element of another kind is kept. -/
theorem mem_keepFirst_iff (hx : p x = false) : x ∈ keepFirst p kept xs ↔ x ∈ xs := by
  have hmem : ∀ l : List α, x ∈ l ↔ x ∈ l.filter fun y => !p y := by
    simp [hx]
  rw [hmem, filter_keepFirst, ← hmem]

/-- A filter that leaves the kind alone may come before. -/
theorem keepFirst_filter (h : ∀ x, p x → q x) :
    keepFirst p kept (xs.filter q) = (keepFirst p kept xs).filter q := by
  induction xs generalizing kept with
  | nil => rfl
  | cons x xs ih =>
    rw [keepFirst_cons]
    cases hx : p x with
    | true =>
      rw [List.filter_cons_of_pos (h x hx), keepFirst_cons, hx]
      cases kept with
      | true => simpa using ih
      | false => simp [h x hx, ih]
    | false =>
      cases hq : q x with
      | true => simp [keepFirst_cons, hx, hq, ih]
      | false => simp [hq, ih]

/-- Keeping first is idempotent. -/
theorem keepFirst_keepFirst : keepFirst p false (keepFirst p false xs) = keepFirst p false xs := by
  induction xs with
  | nil => rfl
  | cons x xs ih =>
    cases hx : p x with
    | true => simp [keepFirst, hx, keepFirst_true, List.filter_filter]
    | false => simp [keepFirst, hx, ih]

end SemStreams
