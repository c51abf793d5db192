import Mathlib.Data.List.Nodup
/-!
# Coalescing windows and overlays

A window buffers keyed changes, the last writer of a key winning. An
overlay applies a list of keyed changes to a function of the keys. Where
each change determines the value at its key, laying a window over a
function shows the window's change at every key it holds, in whatever
order the window is read out.
-/

namespace SemStreams

open List Function

variable {α κ γ : Type*} [DecidableEq κ]

/-- Changes with distinct keys. -/
structure Window (key : α → κ) where
  items : List α
  nodup : (items.map key).Nodup

namespace Window

variable {key : α → κ} {w : Window key} {x : α}

def empty : Window key := ⟨[], by simp⟩

/-- The window with a change buffered, over what it held at its key. -/
def put (w : Window key) (a : α) : Window key where
  items := w.items.filter (fun x => key x ≠ key a) ++ [a]
  nodup := by
    rw [map_append, nodup_append]
    refine ⟨w.nodup.sublist (filter_sublist.map key), by simp, ?_⟩
    intro k hk k' hk' heq
    obtain ⟨x, hx, rfl⟩ := List.mem_map.1 hk
    have hne : key x ≠ key a := by simpa using (mem_filter.1 hx).2
    have ha : k' = key a := by simpa using hk'
    exact hne (heq.trans ha)

/-- The window without what it held at a key. -/
def remove (w : Window key) (k : κ) : Window key where
  items := w.items.filter fun x => key x ≠ k
  nodup := w.nodup.sublist (filter_sublist.map key)

/-- What the window holds at a key. -/
def lookup (w : Window key) (k : κ) : Option α := w.items.find? fun x => key x = k

/-- Several changes buffered one after the other. -/
def putAll (w : Window key) (l : List α) : Window key := l.foldl put w

omit [DecidableEq κ] in
/-- A key has one change. -/
theorem eq_of_key_eq (hx : x ∈ w.items) (hy : y ∈ w.items) (h : key x = key y) : x = y :=
  inj_on_of_nodup_map w.nodup hx hy h

omit [DecidableEq κ] in
@[simp] theorem mem_empty : x ∈ (empty : Window key).items ↔ False := by simp [empty]

@[simp] theorem mem_put : x ∈ (w.put a).items ↔ x = a ∨ (x ∈ w.items ∧ key x ≠ key a) := by
  simp only [put, mem_append, mem_filter, mem_singleton, decide_eq_true_eq]
  exact Or.comm

@[simp] theorem mem_remove : x ∈ (w.remove k).items ↔ x ∈ w.items ∧ key x ≠ k := by
  simp [remove, mem_filter]

theorem mem_of_lookup (h : w.lookup k = some x) : x ∈ w.items ∧ key x = k :=
  ⟨mem_of_find?_eq_some h, by simpa using List.find?_some h⟩

theorem lookup_of_mem (h : x ∈ w.items) : w.lookup (key x) = some x := by
  cases hx : w.lookup (key x) with
  | none => exact absurd (List.find?_eq_none.1 hx x h) (by simp)
  | some y =>
    obtain ⟨hy, hkey⟩ := mem_of_lookup hx
    rw [eq_of_key_eq hy h hkey]

/-- What a window holds after the changes of another: those changes, and
its own under the other keys. -/
theorem mem_putAll (hl : (l.map key).Nodup) :
    x ∈ (w.putAll l).items ↔ x ∈ l ∨ (x ∈ w.items ∧ ∀ y ∈ l, key x ≠ key y) := by
  induction l generalizing w with
  | nil => simp [putAll]
  | cons b l ih =>
    obtain ⟨hb, hl⟩ := nodup_cons.1 hl
    have hputAll : w.putAll (b :: l) = (w.put b).putAll l := rfl
    have hfresh : ∀ y ∈ l, key b ≠ key y := fun y hy h => hb (h ▸ List.mem_map_of_mem hy)
    rw [hputAll, ih hl, mem_put]
    simp only [mem_cons, forall_eq_or_imp]
    constructor
    · rintro (h | ⟨rfl | ⟨hx, hne⟩, hall⟩)
      · exact .inl (.inr h)
      · exact .inl (.inl rfl)
      · exact .inr ⟨hx, hne, hall⟩
    · rintro ((rfl | h) | ⟨hx, hne, hall⟩)
      · exact .inr ⟨.inl rfl, hfresh⟩
      · exact .inl h
      · exact .inr ⟨.inr ⟨hx, hne⟩, hall⟩

end Window

variable (key : α → κ) (value : α → γ)

/-- A function of the keys with a list of changes laid over it. -/
def overlay (f : κ → γ) (l : List α) : κ → γ :=
  l.foldl (fun f a => update f (key a) (value a)) f

variable {key value} {f : κ → γ} {l : List α}

theorem overlay_append :
    overlay key value f (l ++ l') = overlay key value (overlay key value f l) l' :=
  foldl_append

/-- A key no change names keeps its value. -/
theorem overlay_of_not_mem (h : ∀ a ∈ l, key a ≠ k) : overlay key value f l k = f k := by
  induction l generalizing f with
  | nil => rfl
  | cons b l ih =>
    have hb : k ≠ key b := fun hk => h b (by simp) hk.symm
    have hrest := @ih (update f (key b) (value b)) fun a ha => h a (by simp [ha])
    rw [update_of_ne hb] at hrest
    exact hrest

/-- With one change per key, the value at its key is the change's. -/
theorem overlay_of_mem (hl : (l.map key).Nodup) (ha : a ∈ l) :
    overlay key value f l (key a) = value a := by
  induction l generalizing f with
  | nil => simp at ha
  | cons b l ih =>
    obtain ⟨hb, hl⟩ := nodup_cons.1 hl
    rcases mem_cons.1 ha with rfl | ha
    · have hfresh : ∀ y ∈ l, key y ≠ key a := fun y hy h => hb (h ▸ List.mem_map_of_mem hy)
      have hrest := @overlay_of_not_mem _ _ _ _ key value
        (update f (key a) (value a)) l (key a) hfresh
      rw [update_self] at hrest
      exact hrest
    · exact ih hl ha

end SemStreams
