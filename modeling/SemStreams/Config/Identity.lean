import SemStreams.Lib.Hex
import SemStreams.Lib.Run
import SemStreams.Lib.Slots
/-!
# config — one platform identity for a bucket

The first process to start against an empty bucket mints an identity, the declared
identifier and some entropy, and records it by an atomic create. Every other adopts the
record, if it declares the same pair. Processes race, crash at any step, and start again;
calls of the bucket fail, with or without having taken effect.

A step is one call of the bucket, or one change of a process's own configuration. The key
listing is a snapshot. Only processes of this kind write the bucket.
-/

namespace SemStreams.ConfigManager

open List Option

/-! ## Names -/

def isBucketNameByte (c : Char) : Bool :=
  ('a' ≤ c && c ≤ 'z') || ('A' ≤ c && c ≤ 'Z') || ('0' ≤ c && c ≤ '9') || c = '_' || c = '-'

def maxBucketNameBytes : ℕ := 252

/-- `BucketName`: `none` for a pair that names no bucket. The separator may be part of either,
so different pairs may name one bucket. -/
def bucketName (org stem : String) : Option String :=
  if org = "" ∨ stem = "" then none
  else if !(org.toList.all isBucketNameByte && stem.toList.all isBucketNameByte) then none
  else
    let name := "semstreams_config" ++ "_" ++ org ++ "_" ++ stem
    if maxBucketNameBytes < name.length then none else some name

/-- A pair of `platform.org` and `platform.id`. -/
structure Platform where
  org : String
  id : String
deriving DecidableEq

/-- `platformIdentityRecord`. -/
structure IdentityRecord where
  org : String
  stem : String
  id : String
deriving DecidableEq

/-- Why no identity is established. -/
inductive IdentityError where
  | readBucket
  | preIdentity (configKeys : ℕ)
  | missingPair
  | declaredMintedElsewhere
  | entropy
  | notUsable
  | createFailed
  | readRecord
  | incomplete
  | declaresMinted
  | mismatch
  | validation
deriving DecidableEq

/-! ## Processes -/

/-- Where a call of `establishPlatformIdentity` is: between calls, returned with an error,
about to mint, to create the record, to read it, or to apply an identifier. -/
inductive Phase where
  | idle
  | failed (error : IdentityError)
  | minting
  | creating (record : IdentityRecord)
  | adopting
  | applying (id : String)
deriving DecidableEq

/-- A process: its configuration's pair, and whether a call has succeeded, so that its
writers are armed. -/
structure Process where
  platform : Platform
  phase : Phase
  established : Bool
deriving DecidableEq

/-- A call that succeeded: the pair it started from, and the one it left. -/
structure Success where
  declared : Platform
  effective : Platform
deriving DecidableEq

structure IdentityState where
  record : Option IdentityRecord
  configKeys : List String
  processes : AList fun _ : ℕ => Process
  successes : List Success

/-- The start: an empty bucket. -/
def IdentityState.initial : IdentityState := ⟨none, [], ∅, []⟩

/-- How the bucket answers a create: done, or failed, having taken effect or not. -/
inductive CreateAnswer where
  | done
  | failed (landed : Bool)
deriving DecidableEq

inductive IdentityEvent where
  | boot (p : ℕ) (declared : Platform)
  | crash (p : ℕ)
  | list (p : ℕ) (answered : Bool)
  | mint (p : ℕ) (siblings : Bool) (entropy : Option (List UInt8))
  | create (p : ℕ) (answer : CreateAnswer)
  | read (p : ℕ) (answered : Bool)
  | apply (p : ℕ) (valid : Bool)
  | writeConfig (p : ℕ) (key : String)
deriving DecidableEq

variable (bucket : String) (usable : String → String → Bool)

/-- The record a process would create. -/
def mintRecord (declared : Platform) (raw : List UInt8) : IdentityRecord :=
  ⟨declared.org, declared.id, declared.id ++ "-" ++ String.ofList (hexEncode raw)⟩

/-- `mintPlatformIdentity` up to its create. The other buckets of the organisation may hold
the declared identifier as a minted one, or fail to be read; entropy may fail. -/
def mintPhase (declared : Platform) (siblings : Bool) (entropy : Option (List UInt8)) : Phase :=
  if declared.org = "" ∨ declared.id = "" then .failed .missingPair
  else if !siblings then .failed .declaredMintedElsewhere
  else
    match entropy with
    | none => .failed .entropy
    | some raw =>
      let record := mintRecord declared raw
      if usable record.org record.id then .creating record else .failed .notUsable

/-- `adoptPlatformIdentity` on a record that was read. -/
def adoptPhase (declared : Platform) (record : IdentityRecord) : Phase :=
  if record.org = "" ∨ record.stem = "" ∨ record.id = "" then .failed .incomplete
  else if record.org ≠ declared.org ∨ declared.id ≠ record.stem then
    if record.org = declared.org ∧ declared.id = record.id then .failed .declaresMinted
    else .failed .mismatch
  else if usable record.org record.id then .applying record.id
  else .failed .notUsable

/-- What a key listing says: adopt, refuse, or mint. -/
def listPhase (s : IdentityState) : Phase :=
  if s.record.isSome then .adopting
  else if s.configKeys ≠ [] then .failed (.preIdentity s.configKeys.length)
  else .minting

namespace IdentityState

variable (s : IdentityState)

def setPhase (p : ℕ) (proc : Process) (phase : Phase) : IdentityState :=
  { s with processes := s.processes.insert p { proc with phase := phase } }

/-- `Create` of the record. -/
def create (p : ℕ) (proc : Process) (record : IdentityRecord) : CreateAnswer → IdentityState
  | .done =>
    if s.record.isSome then s.setPhase p proc .adopting
    else { s.setPhase p proc (.applying record.id) with record := some record }
  | .failed landed =>
    { s.setPhase p proc (.failed .createFailed) with
      record := if landed && s.record.isNone then some record else s.record }

/-- `applyEffectivePlatformID`: the whole configuration is validated, which puts the
organisation in lower case. -/
def apply (p : ℕ) (proc : Process) (id : String) (valid : Bool) : IdentityState :=
  if valid then
    let effective : Platform := ⟨proc.platform.org.toLower, id⟩
    { s with
      processes := s.processes.insert p ⟨effective, .idle, true⟩
      successes := s.successes ++ [⟨proc.platform, effective⟩] }
  else s.setPhase p proc (.failed .validation)

end IdentityState

/-- **One step.** Every process declares a pair that names this bucket. -/
def identityStep (s : IdentityState) : IdentityEvent → Option IdentityState
  | .boot p declared =>
    if s.processes.lookup p = none ∧ bucketName declared.org declared.id = some bucket then
      some { s with processes := s.processes.insert p ⟨declared, .idle, false⟩ }
    else none
  | .crash p => some { s with processes := s.processes.erase p }
  | .list p answered =>
    (s.processes.lookup p).bind fun proc =>
      match proc.phase with
      | .idle | .failed _ =>
        some (s.setPhase p proc (if answered then listPhase s else .failed .readBucket))
      | _ => none
  | .mint p siblings entropy =>
    (s.processes.lookup p).bind fun proc =>
      match proc.phase with
      | .minting => some (s.setPhase p proc (mintPhase usable proc.platform siblings entropy))
      | _ => none
  | .create p answer =>
    (s.processes.lookup p).bind fun proc =>
      match proc.phase with
      | .creating record => some (s.create p proc record answer)
      | _ => none
  | .read p answered =>
    (s.processes.lookup p).bind fun proc =>
      match proc.phase, s.record with
      | .adopting, some record =>
        some (s.setPhase p proc
          (if answered then adoptPhase usable proc.platform record else .failed .readRecord))
      | .adopting, none => some (s.setPhase p proc (.failed .readRecord))
      | _, _ => none
  | .apply p valid =>
    (s.processes.lookup p).bind fun proc =>
      match proc.phase with
      | .applying id => some (s.apply p proc id valid)
      | _ => none
  | .writeConfig p key =>
    (s.processes.lookup p).bind fun proc =>
      if proc.established then some { s with configKeys := key :: s.configKeys } else none

/-! ## The invariant -/

/-- The pair a record gives every process that declares its own. -/
def IdentityRecord.effective (r : IdentityRecord) : Platform := ⟨r.org.toLower, r.id⟩

def IdentityRecord.declared (r : IdentityRecord) : Platform := ⟨r.org, r.stem⟩

/-- What a process may hold: a record of its own making, before it is created; an identifier to
apply, or one applied, only of the record stored. -/
structure ProcessInv (record : Option IdentityRecord) (proc : Process) : Prop where
  creating : ∀ r, proc.phase = .creating r → r.declared = proc.platform
  applying : ∀ id, proc.phase = .applying id →
    ∃ r, record = some r ∧ r.declared = proc.platform ∧ r.id = id
  established : proc.established = true → ∃ r, record = some r ∧ r.effective = proc.platform

structure IdentityInv (s : IdentityState) : Prop where
  configKeys : s.configKeys ≠ [] → s.record.isSome
  processes : ∀ p proc, s.processes.lookup p = some proc → ProcessInv s.record proc
  successes : ∀ x ∈ s.successes,
    ∃ r, s.record = some r ∧ r.declared = x.declared ∧ r.effective = x.effective

theorem identityInv_initial : IdentityInv .initial where
  configKeys h := absurd rfl h
  processes _ _ h := by
    cases h
  successes := nofun

variable {s : IdentityState} {p : ℕ} {proc : Process} {phase : Phase}

/-- A process whose new phase holds neither a record nor an identifier. -/
theorem ProcessInv.setPhase (h : ProcessInv record proc)
    (hcreating : ∀ r, phase = .creating r → r.declared = proc.platform)
    (happlying : ∀ id, phase = .applying id →
      ∃ r, record = some r ∧ r.declared = proc.platform ∧ r.id = id) :
    ProcessInv record { proc with phase := phase } :=
  ⟨hcreating, happlying, h.established⟩

theorem IdentityInv.setPhase (h : IdentityInv s) (hproc : s.processes.lookup p = some proc)
    (hcreating : ∀ r, phase = .creating r → r.declared = proc.platform)
    (happlying : ∀ id, phase = .applying id →
      ∃ r, s.record = some r ∧ r.declared = proc.platform ∧ r.id = id) :
    IdentityInv (s.setPhase p proc phase) where
  configKeys := h.configKeys
  processes := forall_lookup_insert ((h.processes p proc hproc).setPhase hcreating happlying)
    h.processes
  successes := h.successes

/-- A first record contradicts nothing that was held. -/
theorem IdentityInv.setRecord (h : IdentityInv s) (hnone : s.record = none) (r : IdentityRecord) :
    IdentityInv { s with record := some r } where
  configKeys _ := rfl
  processes q other hother := by
    obtain ⟨hcreating, happlying, hestablished⟩ := h.processes q other hother
    refine ⟨hcreating, fun id hid => ?_, fun hdone => ?_⟩
    · obtain ⟨r', hr', -⟩ := happlying id hid
      rw [hnone] at hr'
      cases hr'
    · obtain ⟨r', hr', -⟩ := hestablished hdone
      rw [hnone] at hr'
      cases hr'
  successes x hx := by
    obtain ⟨r', hr', -⟩ := h.successes x hx
    rw [hnone] at hr'
    cases hr'

variable {usable}

/-- Only the declared pair's record is created. -/
theorem mintPhase_creating (h : mintPhase usable declared siblings entropy = phase) :
    (∀ r, phase = .creating r → r.declared = declared) ∧ ∀ id, phase ≠ .applying id := by
  subst h
  unfold mintPhase
  split
  · exact ⟨nofun, nofun⟩
  split
  · exact ⟨nofun, nofun⟩
  split
  · exact ⟨nofun, nofun⟩
  dsimp only
  split
  · refine ⟨?_, nofun⟩
    rintro r ⟨⟩
    rfl
  · exact ⟨nofun, nofun⟩

/-- **Only a process that declares the recorded pair adopts it.** -/
theorem adoptPhase_applying (h : adoptPhase usable declared record = phase) :
    (∀ r, phase ≠ .creating r) ∧
      ∀ id, phase = .applying id → record.declared = declared ∧ record.id = id := by
  subst h
  unfold adoptPhase
  split
  · exact ⟨nofun, nofun⟩
  split
  · split <;> exact ⟨nofun, nofun⟩
  next hsame =>
  split
  · refine ⟨nofun, ?_⟩
    rintro id ⟨⟩
    simp only [not_or, not_not] at hsame
    rw [IdentityRecord.declared, hsame.1, ← hsame.2]
    exact ⟨rfl, rfl⟩
  · exact ⟨nofun, nofun⟩

/-- A listing gives a process nothing to hold. -/
theorem IdentityInv.listed (h : IdentityInv s) (hproc : s.processes.lookup p = some proc)
    (answered : Bool) :
    IdentityInv (s.setPhase p proc (if answered then listPhase s else .failed .readBucket)) := by
  unfold listPhase
  (repeat' split) <;> exact h.setPhase hproc nofun nofun

theorem IdentityInv.create (h : IdentityInv s) (hproc : s.processes.lookup p = some proc)
    (hphase : proc.phase = .creating record) (answer : CreateAnswer) :
    IdentityInv (s.create p proc record answer) := by
  have hdeclared := (h.processes p proc hproc).creating record hphase
  cases answer with
  | done =>
    rw [IdentityState.create]
    split
    · exact h.setPhase hproc nofun nofun
    next hnone =>
    have hnone' : s.record = none := by simpa using hnone
    refine (h.setRecord hnone' record).setPhase hproc nofun ?_
    rintro _ ⟨⟩
    exact ⟨record, rfl, hdeclared, rfl⟩
  | failed landed =>
    rw [IdentityState.create]
    by_cases hlanded : (landed && s.record.isNone)
    · simp only [hlanded, if_true]
      have hnone : s.record = none := by
        simp only [Bool.and_eq_true, isNone_iff_eq_none] at hlanded
        exact hlanded.2
      exact (h.setRecord hnone record).setPhase hproc nofun nofun
    · simp only [hlanded]
      exact h.setPhase hproc nofun nofun

theorem IdentityInv.apply (h : IdentityInv s) (hproc : s.processes.lookup p = some proc)
    {id : String} (hphase : proc.phase = .applying id) (valid : Bool) :
    IdentityInv (s.apply p proc id valid) := by
  obtain ⟨r, hr, hdeclared, rfl⟩ := (h.processes p proc hproc).applying id hphase
  have heffective : r.effective = ⟨proc.platform.org.toLower, r.id⟩ := by
    rw [← hdeclared]
    rfl
  rw [IdentityState.apply]
  split
  · refine ⟨h.configKeys, ?_, fun x hx => ?_⟩
    · exact forall_lookup_insert ⟨nofun, nofun, fun _ => ⟨r, hr, heffective⟩⟩ h.processes
    · rcases mem_append.1 hx with hx | hx
      · exact h.successes x hx
      · rw [mem_singleton.1 hx]
        exact ⟨r, hr, hdeclared, heffective⟩
  · exact h.setPhase hproc nofun nofun

variable {s' : IdentityState} {bucket}

/-- **Every step keeps the invariant.** -/
theorem IdentityInv.step (h : IdentityInv s) (hstep : identityStep bucket usable s event = some s') :
    IdentityInv s' := by
  cases event with
    (try (replace hstep := bind_eq_some_iff.1 hstep; obtain ⟨proc, hproc, hstep⟩ := hstep))
  | boot p declared =>
    rw [identityStep] at hstep
    split at hstep <;> cases hstep
    exact { h with processes := forall_lookup_insert ⟨nofun, nofun, nofun⟩ h.processes }
  | crash p =>
    cases hstep
    exact { h with processes := forall_lookup_erase h.processes }
  | list p answered => split at hstep <;> cases hstep <;> exact h.listed hproc answered
  | mint p siblings entropy =>
    split at hstep <;> cases hstep
    obtain ⟨hcreating, happlying⟩ := mintPhase_creating
      (rfl : mintPhase usable proc.platform siblings entropy = _)
    exact h.setPhase hproc hcreating fun id hid => absurd hid (happlying id)
  | create p answer =>
    split at hstep <;> cases hstep
    next hphase => exact h.create hproc hphase answer
  | read p answered =>
    split at hstep <;> cases hstep
    · next record hphase hrecord =>
      cases answered with
      | false => exact h.setPhase hproc nofun nofun
      | true =>
        obtain ⟨hcreating, happlying⟩ := adoptPhase_applying
          (rfl : adoptPhase usable proc.platform record = _)
        refine h.setPhase hproc (fun r hr => absurd hr (hcreating r)) fun id hid => ?_
        obtain ⟨hdeclared, hid⟩ := happlying id hid
        exact ⟨record, hrecord, hdeclared, hid⟩
    · exact h.setPhase hproc nofun nofun
  | apply p valid =>
    split at hstep <;> cases hstep
    next hphase => exact h.apply hproc hphase valid
  | writeConfig p key =>
    split at hstep <;> cases hstep
    next hestablished =>
    obtain ⟨r, hr, -⟩ := (h.processes p proc hproc).established hestablished
    exact { h with configKeys := fun _ => by rw [hr]; rfl }

/-- **A record is never replaced.** -/
theorem record_step (hstep : identityStep bucket usable s event = some s')
    (hr : s.record = some r) : s'.record = some r := by
  cases event with
    (try (replace hstep := bind_eq_some_iff.1 hstep; obtain ⟨proc, -, hstep⟩ := hstep)
     try split at hstep <;> try contradiction)
  | boot p declared =>
    rw [identityStep] at hstep
    split at hstep <;> cases hstep
    exact hr
  | create p answer =>
    cases hstep
    cases answer with
    | done => simp [IdentityState.create, IdentityState.setPhase, hr]
    | failed landed => simp [IdentityState.create, hr]
  | apply p valid =>
    cases hstep
    rw [IdentityState.apply]
    split <;> exact hr
  | crash | list | mint | read | writeConfig =>
    -- the record is at most read
    cases hstep
    exact hr

/-! ## One identity -/

/-- What holds of a state reached. -/
structure OneIdentity (s : IdentityState) : Prop where
  /-- All calls that succeeded left their process with the same pair. -/
  agreement : ∀ x ∈ s.successes, ∀ y ∈ s.successes, x.effective = y.effective
  /-- A call that succeeded declared the recorded pair. -/
  declared : ∀ x ∈ s.successes, ∃ r, s.record = some r ∧ x.declared = r.declared
  /-- A process that succeeded has the pair still. -/
  kept : ∀ p proc, s.processes.lookup p = some proc → proc.established = true →
    ∃ r, s.record = some r ∧ proc.platform = r.effective
  /-- There is no configuration without a record. -/
  recorded : s.configKeys ≠ [] → s.record.isSome

theorem IdentityInv.oneIdentity (h : IdentityInv s) : OneIdentity s where
  agreement x hx y hy := by
    obtain ⟨r, hr, -, hx⟩ := h.successes x hx
    obtain ⟨_, hr', -, hy⟩ := h.successes y hy
    rw [hr] at hr'
    cases hr'
    exact hx.symm.trans hy
  declared x hx := by
    obtain ⟨r, hr, hx, -⟩ := h.successes x hx
    exact ⟨r, hr, hx.symm⟩
  kept p proc hproc hestablished := by
    obtain ⟨r, hr, heffective⟩ := (h.processes p proc hproc).established hestablished
    exact ⟨r, hr, heffective.symm⟩
  recorded := h.configKeys

/-- **A bucket has one platform identity**, in every state of every run, and it stays. -/
theorem one_platform_identity (bucket : String) (usable : String → String → Bool)
    {events : List IdentityEvent} {s : IdentityState}
    (hrun : run (identityStep bucket usable) .initial events = some s) :
    OneIdentity s ∧
      ∀ more s', run (identityStep bucket usable) s more = some s' →
        OneIdentity s' ∧ ∀ r, s.record = some r → s'.record = some r := by
  have hinv : ∀ {s₁ s₂ : IdentityState} {es : List IdentityEvent}, IdentityInv s₁ →
      run (identityStep bucket usable) s₁ es = some s₂ → IdentityInv s₂ :=
    fun h hes => run_invariant (fun _ _ _ h hstep => h.step hstep) h hes
  have hs := hinv identityInv_initial hrun
  refine ⟨hs.oneIdentity, fun more s' hmore => ⟨(hinv hs hmore).oneIdentity, ?_⟩⟩
  intro r hr
  exact run_invariant (I := fun s => s.record = some r) (fun _ _ _ h hstep => record_step hstep h)
    hr hmore

/-- Two processes race for an empty bucket; a third declares a pair that names it too. -/
def race : List IdentityEvent :=
  [.boot 0 ⟨"acme", "site_a"⟩, .boot 1 ⟨"acme", "site_a"⟩, .boot 2 ⟨"acme_site", "a"⟩,
    .list 0 true, .list 1 true, .mint 0 true (some [1, 2, 3]), .mint 1 true (some [4, 5, 6]),
    .create 1 (.failed true), .create 0 .done, .read 0 true, .apply 0 true, .writeConfig 0 "version",
    .list 1 true, .read 1 true, .apply 1 true, .list 2 true, .read 2 true]

theorem one_platform_identity_race :
    ∃ s, run (identityStep "semstreams_config_acme_site_a" fun _ _ => true) .initial race = some s ∧
      s.successes.length = 2 ∧ OneIdentity s := by
  refine exists_end (P := fun s => s.successes.length = 2) (by decide +kernel) fun s hrun hs => ?_
  exact ⟨hs, (one_platform_identity _ _ hrun).1⟩

end SemStreams.ConfigManager
