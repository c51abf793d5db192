import SemStreams.GatedDag.Executor
import Mathlib.Data.Multiset.ZeroCons
/-!
# Gated DAG — one dispatch a reset

What the executor does to one unit is a small machine of its own (`Slice`): the
unit's entity, its hint, what a pass in progress has read of it, the positions
of its workers, and the two counts. `SliceStep` says once what can happen to a
unit when no acknowledgement of a publish is lost and a dirtied marker is acted
on, by a pass or by another reset, only while the unit is idle: unclaimed, and
held by no worker. `slice_step` shows that a step of the executor that keeps to
this is such a step, or none, for every unit.

The invariant (`Slice.Sound`) is about a unit that has had all its dispatches:
it is claimed or a worker still holds one, and then its hint covers it.
-/

namespace SemStreams.GatedDag

open List Function Option

/-! ## One unit -/

structure Slice where
  unit : Option UnitState
  hinted : Bool
  seen : Option (Option UnitState)
  pcs : Multiset JobPc
  published : ℕ
  resets : ℕ

/-- The dispatches a unit has had, those a worker still holds included. -/
def Slice.spent (t : Slice) : ℕ := t.published + t.pcs.card

/-- Another dispatch is within the bound. -/
def Slice.Due (t : Slice) : Prop := t.spent ≤ t.resets

def Slice.Idle (t : Slice) : Prop := t.unit.any (·.claimed) = false ∧ t.pcs = 0

/-- What can happen to a unit. -/
inductive SliceStep (t : Slice) : Slice → Prop
  | write {e : UnitState} (h : keepsMarkers t.unit e = true) {rev : ℕ} :
      SliceStep t { t with unit := some { e with revision := rev } }
  | reset {e : UnitState} {resets : ℕ}
      (h : t.unit.any (·.dirtied) = false ∧ resets = t.resets + 1 ∨ t.Idle ∧ resets = t.resets) :
      SliceStep t { t with unit := some e, resets := resets }
  | read (h : t.seen = none) : SliceStep t { t with seen := some t.unit }
  | skip {view : Option UnitState} (h : t.seen = some view)
      (hidle : view.any (·.dirtied) = true → t.Idle) :
      SliceStep t
        { t with
          seen := none
          hinted := t.hinted && view.any fun e => !e.terminal && !e.dirtied }
  | submit {e : UnitState} (h : t.seen = some (some e)) (hidle : e.dirtied = true → t.Idle)
      (hsub : e.dirtied = true ∨ e.terminal = false ∧ e.claimed = false ∧ t.hinted = false) :
      SliceStep t { t with seen := none, hinted := true, pcs := .queued ::ₘ t.pcs }
  /-- A worker goes on: what it writes is the claim, and the claim stands before it
  publishes. -/
  | work {pc pc' : JobPc} {rest : Multiset JobPc} {unit : Option UnitState}
      (h : t.pcs = pc ::ₘ rest) (hborn : unit = none → t.unit = none)
      (hterm : unit.any (·.terminal) = t.unit.any (·.terminal))
      (hheld : unit.any (·.claimed) = true ∨ pc' ≠ .publishing) :
      SliceStep t { t with unit := unit, pcs := pc' ::ₘ rest }
  | publish {rest : Multiset JobPc} (h : t.pcs = .publishing ::ₘ rest) :
      SliceStep t { t with pcs := rest, published := t.published + 1 }
  | release {pc : JobPc} {rest : Multiset JobPc} (h : t.pcs = pc ::ₘ rest) (hseen : t.seen = none) :
      SliceStep t { t with pcs := rest, hinted := false }
  | restart : SliceStep t { t with hinted := false, seen := none, pcs := 0 }

/-- A unit that no pass submits again by itself: it is claimed unless a worker
is about to claim it or is giving its dispatch up, and it is terminal or its hint
stands while a worker holds a dispatch. -/
structure Slice.Guarded (t : Slice) : Prop where
  held : t.unit.any (·.claimed) = true ∨ ∃ pc ∈ t.pcs, pc ≠ .publishing
  covered : t.unit.any (·.terminal) = true ∨ (0 < t.pcs.card → t.hinted = true)

structure Slice.Sound (t : Slice) : Prop where
  spent_le : t.spent ≤ 1 + t.resets
  unborn : t.unit = none → t.spent = 0
  guarded : t.Due ∨ t.Guarded
  seen_unborn : t.seen = some none → t.spent = 0
  seen_born : ∀ e, t.seen = some (some e) → t.unit ≠ none
  seen_terminal : ∀ e, t.seen = some (some e) → e.terminal = true →
    t.Due ∨ t.unit.any (·.terminal) = true
  seen_free : ∀ e, t.seen = some (some e) → e.terminal = false → e.claimed = false →
    t.hinted = false → t.Due

section Slice

variable {t : Slice}

/-- Where a dispatch is due there is nothing else to ask. -/
theorem Slice.Sound.of_due (hdue : t.Due) (hunborn : t.unit = none → t.spent = 0)
    (hseen : t.seen = some none → t.spent = 0)
    (hborn : ∀ e, t.seen = some (some e) → t.unit ≠ none) : t.Sound where
  spent_le := Nat.le_trans hdue (Nat.le_add_left _ _)
  unborn := hunborn
  guarded := .inl hdue
  seen_unborn := hseen
  seen_born := hborn
  seen_terminal := fun _ _ _ => .inl hdue
  seen_free := fun _ _ _ _ _ => hdue

/-- A unit without claim, hint and terminal marker has a dispatch due. -/
theorem Slice.Sound.due_of_free (hs : t.Sound) (hterm : t.unit.any (·.terminal) = false)
    (hclaim : t.unit.any (·.claimed) = false) (hhint : t.hinted = false) : t.Due := by
  rcases hs.guarded with hdue | ⟨h | ⟨pc, hpc, -⟩, hcovered⟩
  · exact hdue
  · rw [hclaim] at h
    cases h
  · rcases hcovered with h | hlive
    · rw [hterm] at h
      cases h
    · have := hlive (Multiset.card_pos_iff_exists_mem.2 ⟨pc, hpc⟩)
      rw [hhint] at this
      cases this

/-- **So has a unit that is idle**, whatever its markers. -/
theorem Slice.Sound.due_of_idle (hs : t.Sound) (h : t.Idle) : t.Due := by
  rcases hs.guarded with hdue | ⟨hheld, -⟩
  · exact hdue
  · rw [h.1, h.2] at hheld
    simp at hheld

theorem keepsMarkers_terminal (h : keepsMarkers old e) (hold : old.any (·.terminal)) :
    e.terminal := by
  cases old with
  | none => cases hold
  | some o =>
    simp only [any_some, UnitState.terminal, Bool.or_eq_true] at hold ⊢
    simp only [keepsMarkers, any_some, Bool.and_eq_true, Bool.or_eq_true, Bool.not_eq_true'] at h
    obtain ⟨⟨⟨hc, hf⟩, -⟩, -⟩ := h
    rcases hold with hold | hold
    · exact .inl (hc.resolve_left (by rw [hold]; exact Bool.noConfusion))
    · exact .inr (hf.resolve_left (by rw [hold]; exact Bool.noConfusion))

theorem keepsMarkers_claimed (h : keepsMarkers old e) : e.claimed = old.any (·.claimed) := by
  simp only [keepsMarkers, Bool.and_eq_true, beq_iff_eq] at h
  exact h.1.2

/-- A worker's step that leaves the unit's dispatches as they are: the terminal
markers stay, and the claim stands or a worker is not publishing. -/
theorem Slice.Sound.of_worker (hs : t.Sound) {unit : Option UnitState} {pcs : Multiset JobPc}
    {published : ℕ} (hspent : published + pcs.card = t.spent)
    (hborn : unit = none → t.unit = none)
    (hterm : unit.any (·.terminal) = t.unit.any (·.terminal)) (hcard : pcs.card ≤ t.pcs.card)
    (hguard : (t.unit.any (·.claimed) ∨ ∃ pc ∈ t.pcs, pc ≠ .publishing) →
      unit.any (·.claimed) ∨ ∃ pc ∈ pcs, pc ≠ .publishing) :
    Slice.Sound { t with unit := unit, pcs := pcs, published := published } where
  spent_le := (hspent.trans_le hs.spent_le :)
  unborn := fun h => hspent.trans (hs.unborn (hborn h))
  guarded := by
    rcases hs.guarded with hdue | ⟨hheld, hcovered⟩
    · exact .inl (hspent.trans_le hdue :)
    · exact .inr ⟨hguard hheld, hcovered.imp hterm.trans fun hlive h => hlive (h.trans_le hcard)⟩
  seen_unborn := fun h => hspent.trans (hs.seen_unborn h)
  seen_born := fun e h hnone => hs.seen_born e h (hborn hnone)
  seen_terminal := fun e h he => by
    rcases hs.seen_terminal e h he with hdue | hterminal
    · exact .inl (hspent.trans_le hdue :)
    · exact .inr (hterm.trans hterminal)
  seen_free := fun e h h₁ h₂ h₃ => (hspent.trans_le (hs.seen_free e h h₁ h₂ h₃) :)

/-- A pass drops the hint only of a unit that is not born, terminal or dirtied. -/
theorem Slice.Sound.hint_of_seen (hs : t.Sound) {view : Option UnitState} (h : t.seen = some view)
    (hidle : view.any (·.dirtied) → t.Idle) :
    t.Due ∨ t.unit.any (·.terminal) ∨ (view.any fun e => !e.terminal && !e.dirtied) := by
  cases view with
  | none =>
    refine .inl ?_
    change t.spent ≤ _
    rw [hs.seen_unborn h]
    exact Nat.zero_le _
  | some e =>
    cases hd : e.dirtied with
    | true => exact .inl (hs.due_of_idle (hidle hd))
    | false =>
      cases ht : e.terminal with
      | true => exact (hs.seen_terminal e h ht).imp_right .inl
      | false => exact .inr (.inr (by simp [hd, ht]))

/-- Where all dispatches were had and the workers all returned, the unit is claimed. -/
theorem Slice.Sound.restart (hs : t.Sound) :
    Slice.Sound { t with hinted := false, seen := none, pcs := 0 } := by
  have hle := hs.spent_le
  have hpub : t.published ≤ t.spent := Nat.le_add_right _ _
  refine ⟨(hpub.trans hle :), fun hnone => ?_, ?_, nofun, nofun, nofun, nofun⟩
  · exact Nat.le_zero.1 (hpub.trans_eq (hs.unborn hnone))
  · rcases hs.guarded with hdue | ⟨hclaim | ⟨pc, hpc, -⟩, -⟩
    · exact .inl (hpub.trans hdue :)
    · exact .inr ⟨.inl hclaim, .inr fun h => absurd h (lt_irrefl 0)⟩
    · have hpos := Multiset.card_pos_iff_exists_mem.2 ⟨pc, hpc⟩
      refine .inl ?_
      change t.published ≤ t.resets
      unfold Slice.spent at hle
      omega

/-- **Every step of a unit keeps the invariant.** -/
theorem Slice.Sound.step (hs : t.Sound) (h : SliceStep t t') : t'.Sound := by
  cases h with
  | @write e h rev =>
    have hterm : t.unit.any (·.terminal) → e.terminal := keepsMarkers_terminal h
    have hclaim := keepsMarkers_claimed h
    refine ⟨hs.spent_le, nofun, ?_, hs.seen_unborn,
      nofun, fun v hv hvt => (hs.seen_terminal v hv hvt).imp_right hterm, hs.seen_free⟩
    exact hs.guarded.imp_right fun ⟨hheld, hcovered⟩ =>
      ⟨hheld.imp_left hclaim.trans, hcovered.imp_left hterm⟩
  | @reset e resets h =>
    refine .of_due ?_ nofun hs.seen_unborn nofun
    rcases h with ⟨-, rfl⟩ | ⟨hidle, rfl⟩
    · have := hs.spent_le
      change t.spent ≤ t.resets + 1
      omega
    · exact hs.due_of_idle hidle
  | read h =>
    refine ⟨hs.spent_le, hs.unborn, hs.guarded.imp_right fun h => ⟨h.held, h.covered⟩,
      fun h => hs.unborn (Option.some.inj h), ?_, ?_, ?_⟩
    · intro e he hnone
      rw [hnone] at he
      cases he
    · intro e he hterm
      refine .inr ?_
      rw [Option.some.inj he]
      exact hterm
    · intro e he hterm hclaim hhint
      have he := Option.some.inj he
      exact hs.due_of_free (by rw [he]; exact hterm) (by rw [he]; exact hclaim) hhint
  | @skip view h hidle =>
    refine ⟨hs.spent_le, hs.unborn, ?_, nofun, nofun, nofun, nofun⟩
    rcases hs.hint_of_seen h hidle with hdue | hkeep
    · exact .inl hdue
    · refine hs.guarded.imp_right fun ⟨hheld, hcovered⟩ => ⟨hheld, ?_⟩
      rcases hkeep with hterm | hkeep
      · exact .inl hterm
      · refine hcovered.imp_right fun hlive hpos => ?_
        simp only [Bool.and_eq_true]
        exact ⟨hlive hpos, hkeep⟩
  | @submit e h hidle hsub =>
    have hdue : t.Due := by
      rcases hsub with hd | ⟨hterm, hclaim, hhint⟩
      · exact hs.due_of_idle (hidle hd)
      · exact hs.seen_free e h hterm hclaim hhint
    refine ⟨?_, fun hnone => absurd hnone (hs.seen_born e h), ?_, nofun, nofun, nofun, nofun⟩
    · change t.published + (JobPc.queued ::ₘ t.pcs).card ≤ 1 + t.resets
      unfold Slice.Due Slice.spent at hdue
      rw [Multiset.card_cons]
      omega
    · exact .inr ⟨.inr ⟨.queued, Multiset.mem_cons_self _ _, nofun⟩, .inr fun _ => rfl⟩
  | @work pc pc' rest unit h hborn hterm hheld =>
    refine hs.of_worker ?_ hborn hterm ?_
      fun _ => hheld.imp_right fun hpc => ⟨pc', Multiset.mem_cons_self _ _, hpc⟩
    · rw [Slice.spent, h, Multiset.card_cons, Multiset.card_cons]
    · rw [h, Multiset.card_cons, Multiset.card_cons]
  | @publish rest h =>
    refine hs.of_worker ?_ id rfl ?_ ?_
    · rw [Slice.spent, h, Multiset.card_cons]
      omega
    · rw [h, Multiset.card_cons]
      omega
    · rw [h]
      refine Or.imp_right ?_
      rintro ⟨pc, hpc, hne⟩
      exact ⟨pc, (Multiset.mem_cons.1 hpc).resolve_left hne, hne⟩
  | @release pc rest h hseen =>
    have hspent : t.spent = (t.published + rest.card) + 1 := by
      rw [Slice.spent, h, Multiset.card_cons]
      omega
    have hle := hs.spent_le
    refine .of_due ?_ (fun hnone => ?_) (fun h => ?_) (fun e h => ?_)
    · change t.published + rest.card ≤ t.resets
      omega
    · have := hs.unborn hnone
      omega
    · rw [hseen] at h
      cases h
    · rw [hseen] at h
      cases h
  | restart => exact hs.restart

end Slice

/-! ## The slices of the executor -/

/-- Where the workers of a unit stand. -/
def pcsOf (jobs : List Job) (id : String) : Multiset JobPc :=
  ((jobs.filter fun j => j.unit = id).map Job.pc : List JobPc)

section Pcs

variable {jobs : List Job} {n : ℕ} {id : String}

theorem pcsOf_cons_self : pcsOf (⟨id, pc⟩ :: jobs) id = pc ::ₘ pcsOf jobs id := by
  simp [pcsOf]

theorem pcsOf_cons_of_ne (h : id ≠ u) : pcsOf (⟨u, pc⟩ :: jobs) id = pcsOf jobs id := by
  simp [pcsOf, h.symm]

theorem pcsOf_perm (h : jobs.Perm jobs') : pcsOf jobs id = pcsOf jobs' id :=
  Multiset.coe_eq_coe.2 ((h.filter _).map _)

theorem perm_cons_eraseIdx (h : jobs[n]? = some j) : jobs.Perm (j :: jobs.eraseIdx n) := by
  obtain ⟨hn, rfl⟩ := List.getElem?_eq_some_iff.1 h
  exact (getElem_cons_eraseIdx_perm hn).symm

theorem set_perm_cons (h : jobs[n]? = some j) (j' : Job) :
    (jobs.set n j').Perm (j' :: jobs.eraseIdx n) :=
  set_perm_cons_eraseIdx (List.getElem?_eq_some_iff.1 h).1 j'

theorem pcsOf_self (h : jobs[n]? = some ⟨id, pc⟩) :
    pcsOf jobs id = pc ::ₘ pcsOf (jobs.eraseIdx n) id := by
  rw [pcsOf_perm (perm_cons_eraseIdx h), pcsOf_cons_self]

theorem pcsOf_eraseIdx_of_ne (h : jobs[n]? = some ⟨u, pc⟩) (hne : id ≠ u) :
    pcsOf (jobs.eraseIdx n) id = pcsOf jobs id := by
  rw [pcsOf_perm (perm_cons_eraseIdx h), pcsOf_cons_of_ne hne]

/-- What a pass adds to the workers of a unit. -/
theorem pcsOf_append_queued {ids : List String} (hnd : ids.Nodup) :
    pcsOf (jobs ++ ids.map fun id => ⟨id, .queued⟩) id =
      if id ∈ ids then .queued ::ₘ pcsOf jobs id else pcsOf jobs id := by
  rw [pcsOf_perm perm_append_comm]
  induction ids with
  | nil => rfl
  | cons u ids ih =>
    obtain ⟨hu, hids⟩ := nodup_cons.1 hnd
    rw [map_cons, cons_append]
    by_cases hid : id = u
    · subst hid
      rw [pcsOf_cons_self, ih hids, if_neg hu, if_pos mem_cons_self]
    · rw [pcsOf_cons_of_ne hid, ih hids]
      simp [hid]

end Pcs

def Executor.slice (s : Executor) (id : String) : Slice where
  unit := s.units id
  hinted := decide (id ∈ s.inflight)
  seen := s.pass.map (· id)
  pcs := pcsOf s.jobs id
  published := s.published id
  resets := s.resets id

open Executor

/-- The unit carries no claim and no worker holds a dispatch of it. -/
def Executor.Idle (s : Executor) (id : String) : Prop :=
  (s.units id).any (·.claimed) = false ∧ ∀ j ∈ s.jobs, j.unit ≠ id

instance (s : Executor) (id : String) : Decidable (s.Idle id) := inferInstanceAs (Decidable (_ ∧ _))

/-- A dirtied marker is acted on while its unit is idle: where a pass acts on
what it has read, and where a consumer resets a unit that is dirtied already. And
no acknowledgement of a publish is lost. -/
def Prompt (cfg : Config) (s : Executor) : Event → Prop
  | .write id e => keepsMarkers (s.units id) e = false → (s.units id).any (·.dirtied) = true →
      s.Idle id
  | .act _ => ∀ id ∈ cfg.ids, (s.pass.bind (· id)).any (·.dirtied) = true → s.Idle id
  | .publish _ answer => answer ≠ .lost
  | _ => True

instance (cfg : Config) (s : Executor) : (e : Event) → Decidable (Prompt cfg s e)
  | .write _ _ => inferInstanceAs (Decidable (_ → _ → _))
  | .act _ => inferInstanceAs (Decidable (∀ id ∈ cfg.ids, _ → _))
  | .publish _ _ => inferInstanceAs (Decidable (_ ≠ _))
  | .read | .claimRead _ _ | .claimWrite _ _ | .unclaimRead _ _ | .unclaimWrite _ _ | .release _
  | .restart => .isTrue trivial

variable {cfg : Config} {s s' : Executor} {n : ℕ} {id u : String} {pc pc' : JobPc}

theorem Executor.Idle.slice (h : s.Idle id) : (s.slice id).Idle :=
  ⟨h.1, by simpa [Executor.slice, pcsOf] using h.2⟩

theorem slice_moveJob_self (h : s.jobs[n]? = some ⟨u, pc⟩) : (s.moveJob n u pc').slice u =
      { s.slice u with pcs := pc' ::ₘ pcsOf (s.jobs.eraseIdx n) u } := by
  have hpcs : pcsOf (s.jobs.set n ⟨u, pc'⟩) u = pc' ::ₘ pcsOf (s.jobs.eraseIdx n) u := by
    rw [pcsOf_perm (set_perm_cons h _), pcsOf_cons_self]
  exact congrArg (fun pcs => { s.slice u with pcs := pcs }) hpcs

theorem slice_moveJob_of_ne (h : s.jobs[n]? = some ⟨u, pc⟩) (hne : id ≠ u) :
    (s.moveJob n u pc').slice id = s.slice id := by
  have hpcs : pcsOf (s.jobs.set n ⟨u, pc'⟩) id = pcsOf s.jobs id := by
    rw [pcsOf_perm (set_perm_cons h _), pcsOf_cons_of_ne hne, pcsOf_eraseIdx_of_ne h hne]
  exact congrArg (fun pcs => { s.slice id with pcs := pcs }) hpcs

/-- A worker that goes on without a write. -/
theorem slice_moveJob (h : s.jobs[n]? = some ⟨u, pc⟩) (hpc : pc' ≠ .publishing) (id : String) :
    (s.moveJob n u pc').slice id = s.slice id ∨
      SliceStep (s.slice id) ((s.moveJob n u pc').slice id) := by
  by_cases hid : id = u
  · subst hid
    rw [slice_moveJob_self h]
    exact .inr (.work (t := s.slice id) (pcsOf_self h) (fun h => h) rfl (.inr hpc))
  · exact .inl (slice_moveJob_of_ne h hid)

/-- A compare-and-set of the claim writes nothing, or the claim of its unit. -/
theorem reconcileClaim_cases (units : Units) (u : String) (rev : ℕ) (claimed : Bool)
    (answer : Answer) :
    reconcileClaim units u rev claimed answer = (units, false) ∨
      ∃ e b, units u = some e ∧ reconcileClaim units u rev claimed answer =
        (update units u (some { e with claimed := claimed, revision := rev + 1 }), b) := by
  unfold reconcileClaim
  cases hset : setClaimed units u rev claimed with
  | none => cases answer <;> exact .inl rfl
  | some units' =>
    obtain ⟨e, he, rfl⟩ : ∃ e, units u = some e ∧
        update units u (some { e with claimed := claimed, revision := rev + 1 }) =
          units' := by
      unfold setClaimed at hset
      split at hset
      · next e he =>
        obtain ⟨_, hset⟩ := ite_none_right_eq_some.1 hset
        exact ⟨e, he, Option.some.inj hset⟩
      · cases hset
    cases answer with
    | ok => exact .inr ⟨e, true, he, rfl⟩
    | lost => exact .inr ⟨e, false, he, rfl⟩
    | failed => exact .inl rfl

theorem slice_units {units : Units} {unit : Option UnitState} (h : units id = unit) :
    { s with units := units }.slice id = { s.slice id with unit := unit } := by
  subst h
  rfl

/-- A worker's write of the claim that commits. -/
theorem slice_claimed {claimed : Bool} {rev : ℕ} (h : s.jobs[n]? = some ⟨u, pc⟩)
    (he : s.units u = some e) (hpc : claimed ∨ pc' ≠ .publishing) (id : String) :
    let s₁ := { s with
      units := update s.units u (some { e with claimed := claimed, revision := rev }) }
    (s₁.moveJob n u pc').slice id = s.slice id ∨
      SliceStep (s.slice id) ((s₁.moveJob n u pc').slice id) := by
  intro s₁
  have hget : s₁.jobs[n]? = some ⟨u, pc⟩ := h
  by_cases hid : id = u
  · subst hid
    refine .inr ?_
    have hterm : (s.slice id).unit.any (·.terminal) = e.terminal := congrArg _ he
    rw [slice_moveJob_self hget, slice_units (update_self _ _ _)]
    exact .work (t := s.slice id) (pcsOf_self h) nofun hterm.symm hpc
  · refine .inl ?_
    rw [slice_moveJob_of_ne hget hid]
    exact slice_units (update_of_ne hid _ _)

theorem slice_write (hC : Prompt cfg s (.write u e)) (h : step cfg s (.write u e) = some s')
    (id : String) : s'.slice id = s.slice id ∨ SliceStep (s.slice id) (s'.slice id) := by
  simp only [step] at h
  split at h
  · next hguard =>
    cases h
    by_cases hid : id = u
    · subst hid
      refine .inr ?_
      cases hkeep : keepsMarkers (s.units id) e with
      | true =>
        -- no such write sets the dirtied marker, so the resets stay
        have hdirty : (e.dirtied && !(s.units id).any (·.dirtied)) = false := by
          simp only [keepsMarkers, Bool.and_eq_true, Bool.or_eq_true, Bool.not_eq_true'] at hkeep
          rcases hkeep.2 with hd | hd <;> simp [hd]
        simp only [slice, hdirty, update_self]
        exact .write hkeep
      | false =>
        have hreset : e.isReset := by
          have := hguard.2
          rw [obeysContract, hkeep, Bool.or_false] at this
          exact this
        have hdirty : e.dirtied := by
          simp only [UnitState.isReset, Bool.and_eq_true] at hreset
          exact hreset.2
        simp only [slice, update_self]
        refine .reset (t := s.slice id) ?_
        cases hold : (s.units id).any (·.dirtied) with
        | true => exact .inr ⟨(hC hkeep hold).slice, by simp [slice]⟩
        | false => exact .inl ⟨hold, by simp [hdirty, slice]⟩
    · refine .inl ?_
      simp only [slice, update_of_ne hid]
      split
      · rw [update_of_ne hid]
      · rfl
  · cases h

/-- A pass acts: it submits the unit, or leaves it with the hint its
bookkeeping leaves. -/
theorem slice_act {full : String → Bool} (hids : id ∈ cfg.ids) (hC : Prompt cfg s (.act full))
    (h : step cfg s (.act full) = some s') : SliceStep (s.slice id) (s'.slice id) := by
  simp only [step] at h
  split at h
  · cases h
  next units hpass =>
  cases h
  have hseen : (s.slice id).seen = some (units id) := by simp [slice, hpass]
  have hidle : (units id).any (·.dirtied) → (s.slice id).Idle := by
    have := hC id hids
    rw [hpass] at this
    exact fun hd => (this hd).slice
  simp only [slice, reEvaluate_eq, pcsOf_append_queued nodup_submitted, map_none]
  by_cases hsub : id ∈ submitted cfg units full s.inflight
  · obtain ⟨e, he, hspec⟩ := submitted_spec hids hsub
    rw [he] at hseen hidle
    have hhint : decide (id ∈ (submitted cfg units full s.inflight).reverse ++
        dropHints (extractGraph cfg units) s.inflight) := by
      simp [hsub]
    rw [hhint, if_pos hsub]
    exact .submit (t := s.slice id) hseen hidle
      (hspec.imp_right fun ⟨h₁, h₂, h₃⟩ => ⟨h₁, h₂, decide_eq_false h₃⟩)
  · have hhint : decide (id ∈ (submitted cfg units full s.inflight).reverse ++
        dropHints (extractGraph cfg units) s.inflight) =
        ((s.slice id).hinted && (units id).any fun e => !e.terminal && !e.dirtied) := by
      rw [Bool.eq_iff_iff]
      simp only [mem_append, mem_reverse, hsub, false_or, decide_eq_true_eq,
        slice, Bool.and_eq_true]
      cases he : units id with
      | none =>
        simp only [any_none, Bool.false_eq_true, and_false, iff_false]
        intro hmem
        obtain ⟨e, he'⟩ := born_of_mem_dropHints hmem
        rw [he] at he'
        cases he'
      | some e => simp [mem_dropHints hids he]
    rw [hhint, if_neg hsub]
    exact .skip (t := s.slice id) hseen hidle

/-- **The executor, seen from one unit.** -/
theorem slice_step {ev : Event} (hids : id ∈ cfg.ids) (hC : Prompt cfg s ev)
    (h : step cfg s ev = some s') :
    s'.slice id = s.slice id ∨ SliceStep (s.slice id) (s'.slice id) := by
  have hstep := h
  cases ev with (simp only [step] at h; (try split at h <;> try contradiction); try cases h)
  | write u e => exact slice_write hC hstep id
  | read =>
    rename_i hpass
    exact .inr (.read (t := s.slice id) (by simp [slice, hpass]))
  | act full => exact .inr (slice_act hids hC hstep)
  | claimRead n ok | unclaimRead n ok =>
    rename_i u hget
    split at h <;> cases h <;> exact slice_moveJob hget (by simp) id
  | claimWrite n answer =>
    rename_i u rev hget
    rcases reconcileClaim_cases s.units u rev true answer with hrec | ⟨e, b, he, hrec⟩ <;> rw [hrec]
    · exact @slice_moveJob s n u _ .releasing hget nofun id
    · exact slice_claimed hget he (.inl rfl) id
  | publish n answer =>
    rename_i u hget
    cases answer with cases h
    | ok =>
      by_cases hid : id = u
      · subst hid
        simp only [slice, update_self]
        exact .inr (.publish (t := s.slice id) (pcsOf_self hget))
      · refine .inl ?_
        simp only [slice, update_of_ne hid, pcsOf_eraseIdx_of_ne hget hid]
    | lost => exact absurd rfl hC
    | failed => exact slice_moveJob hget (by simp) id
  | unclaimWrite n answer =>
    rename_i u rev hget
    rcases reconcileClaim_cases s.units u rev false answer with hrec | ⟨e, b, he, hrec⟩ <;> rw [hrec]
    · exact @slice_moveJob s n u _ .releasing hget nofun id
    · exact slice_claimed hget he (.inr (by simp)) id
  | release n =>
    rename_i u hget hpass
    by_cases hid : id = u
    · subst hid
      have hhint : decide (id ∈ s.inflight.filter (· ≠ id)) = false := by simp
      simp only [slice, hhint]
      exact .inr (.release (t := s.slice id) (pcsOf_self hget) (by simp [slice, hpass]))
    · simp [slice, pcsOf_eraseIdx_of_ne hget hid, hid]
  | restart => exact .inr (.restart (t := s.slice id))

/-- **One dispatch a reset.** In a run that acts on a dirtied marker only while
its unit is idle and loses no acknowledgement of a publish, no unit is dispatched
more often than once and once more for each of its resets. -/
theorem published_le_of_prompt {es : List Event} (hC : Along (step cfg) (Prompt cfg) init es)
    (h : run (step cfg) init es = some s) (hid : id ∈ cfg.ids) :
    s.published id ≤ 1 + s.resets id := by
  have hsound : (s.slice id).Sound := by
    refine run_invariant_along (I := fun s => (s.slice id).Sound) ?_ ?_ hC h
    · intro s e _ hs hC hstep
      rcases slice_step hid hC hstep with heq | hsl
      · rw [heq]
        exact hs
      · exact hs.step hsl
    · exact .of_due (Nat.le_refl 0) (fun _ => rfl) (fun _ => rfl) nofun
  exact (Nat.le_add_right _ _).trans hsound.spent_le

/-! ## A unit that is reset -/

def pumpUnit : String := "acme.ops.plan.agent.unit.pump"

def pumpPlan : Config where
  ids := [pumpUnit]
  stopOnFirstFailure := false
  nodup := nodup_singleton _

/-- A pass that submits the unit, and its worker up to the publish. -/
def dispatchPump : List Event :=
  [.read, .act fun _ => false, .claimRead 0 true, .claimWrite 0 .ok, .publish 0 .ok]

/-- The unit is born and dispatched, completes, and is reset. -/
def resetPump : List Event :=
  .write pumpUnit {} :: dispatchPump ++
    [.write pumpUnit { completed := true, claimed := true }, .write pumpUnit { dirtied := true }]

set_option maxRecDepth 10000 in
/-- The consumer clears the dirtied marker of the unit before the next pass, and
the process restarts: the claim alone holds the unit. -/
theorem published_le_of_prompt_pump : ∃ s, run (step pumpPlan) init (resetPump ++ dispatchPump ++
        [.write pumpUnit { claimed := true }, .restart, .read, .act fun _ => false]) = some s ∧
      (s.published pumpUnit, s.resets pumpUnit) = (2, 1) ∧
      s.published pumpUnit ≤ 1 + s.resets pumpUnit := by
  refine' ⟨_, ?run, ?_, published_le_of_prompt ?_ ?run (mem_singleton_self _)⟩
  iterate 2 rfl
  repeat refine (along_cons rfl).2 ⟨by decide, ?_⟩
  exact trivial

set_option maxRecDepth 10000 in
/-- **A reset is dispatched twice.** The worker's own claim nudges the next
pass, which finds the unit still dirtied. -/
theorem published_not_le :
    ∃ s, run (step pumpPlan) init (resetPump ++ dispatchPump ++ dispatchPump) = some s ∧
      s.resets pumpUnit = 1 ∧ s.published pumpUnit = 3 := by
  exact ⟨_, rfl, rfl, rfl⟩

set_option maxRecDepth 10000 in
/-- **So is a unit that was never reset**, where the acknowledgement of its
publish is lost: the claim is taken back. -/
theorem published_twice_of_lost : ∃ s, run (step pumpPlan) init (.write pumpUnit {} ::
      dispatchPump.dropLast ++ [.publish 0 .lost, .unclaimRead 0 true, .unclaimWrite 0 .ok,
        .release 0] ++ dispatchPump) = some s ∧
      s.resets pumpUnit = 0 ∧ s.published pumpUnit = 2 := by
  exact ⟨_, rfl, rfl, rfl⟩

end SemStreams.GatedDag
