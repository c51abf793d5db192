import SemStreams.Lib.Subject
import Mathlib.Data.List.AList
/-!
# config — the configuration in memory, and its keys

A deployment keeps its configuration in a bucket, one key for each service and component.
`updateConfig` is the one place where a key and its value reach the configuration in memory:
the watcher, the writers and the synchronisation at start all go through it. Each change is
made on a copy, which is swapped in only when the whole of it is valid.

The values are left open: `Codec` says what the bucket's bytes mean.
-/

namespace SemStreams.ConfigManager

open List Option

/-! ## Keys -/

/-- Spaces are no part of a key. -/
def sanitizeNATSKey (key : String) : String :=
  String.ofList (key.toList.map fun c => if c = ' ' then '_' else c)

def serviceKey (name : String) : String := "services." ++ sanitizeNATSKey name

def componentKey (name : String) : String := "components." ++ sanitizeNATSKey name

/-- A name that is one token of a key. -/
def Plain (name : String) : Prop := name ≠ "" ∧ '.' ∉ name.toList ∧ ' ' ∉ name.toList

instance (name : String) : Decidable (Plain name) := inferInstanceAs (Decidable (_ ∧ _ ∧ _))

section Keys

variable {name : String}

theorem sanitizeNATSKey_of_plain (h : Plain name) : sanitizeNATSKey name = name := by
  have hmap : name.toList.map (fun c => if c = ' ' then '_' else c) = name.toList := by
    refine (map_congr_left fun c hc => if_neg ?_).trans (List.map_id _)
    rintro rfl
    exact h.2.2 hc
  rw [sanitizeNATSKey, hmap, String.ofList_toList]

theorem componentKey_of_plain (h : Plain name) : componentKey name = "components." ++ name := by
  rw [componentKey, sanitizeNATSKey_of_plain h]

theorem serviceKey_of_plain (h : Plain name) : serviceKey name = "services." ++ name := by
  rw [serviceKey, sanitizeNATSKey_of_plain h]

/-- A family and a plain name are the two tokens of a key. -/
theorem tokens_family (family : String) (hfamily : '.' ∉ family.toList) (h : Plain name) :
    tokens (family ++ "." ++ name) = [family.toList, name.toList] := by
  rw [tokens_append_dot, tokens_eq_singleton hfamily, tokens_eq_singleton h.2.1]
  rfl

theorem tokens_componentKey (h : Plain name) :
    tokens (componentKey name) = ["components".toList, name.toList] := by
  rw [componentKey_of_plain h]
  exact tokens_family "components" (by decide) h

theorem tokens_serviceKey (h : Plain name) :
    tokens (serviceKey name) = ["services".toList, name.toList] := by
  rw [serviceKey_of_plain h]
  exact tokens_family "services" (by decide) h

end Keys

/-! ## The configuration in memory -/

inductive UpdateError where
  | tooLarge
  | tooDeep
  | invalidServiceKey (key : String)
  | parseService
  | invalidComponentKey (key : String)
  | parseComponent
  | parseNATS
  | parseModelRegistry
  | validation
deriving DecidableEq

/-- What the bytes of the bucket mean. -/
structure Codec (Raw Service Component : Type) where
  tooLarge : Raw → Bool
  tooDeep : Raw → Bool
  parseService : Raw → Option Service
  parseComponent : Raw → Option Component
  /-- `ComponentConfig.Validate`. -/
  validComponent : Component → Bool
  /-- `json.Unmarshal` over the present block. -/
  parseNATS : Option Raw → Raw → Option Raw
  parseModelRegistry : Raw → Bool
  validModelRegistry : Raw → Bool

/-- `Config`, without the sections no key of the bucket reaches. -/
structure Config (Raw Service Component : Type) where
  version : String
  services : AList fun _ : String => Service
  components : AList fun _ : String => Component
  nats : Option Raw
  modelRegistry : Option Raw

variable {Raw Service Component : Type} (codec : Codec Raw Service Component)

/-- `Config.Validate`, as far as it reads what updates change. The streams a component
declares are checked with it. -/
def Config.validate (config : Config Raw Service Component) : Bool :=
  config.components.entries.all (fun e => decide (e.1 ≠ "") && codec.validComponent e.2) &&
    config.modelRegistry.all codec.validModelRegistry

/-- The change an update makes to the copy; `none` for a key that is no configuration. -/
def applyKey (config : Config Raw Service Component) (key : String) (value : Option Raw) :
    Except UpdateError (Option (Config Raw Service Component)) :=
  match (tokens key).map String.ofList with
  | "services" :: rest =>
    match rest with
    | [serviceName] =>
      match value with
      | none => .ok (some { config with services := config.services.erase serviceName })
      | some raw =>
        match codec.parseService raw with
        | none => .error .parseService
        | some service =>
          .ok (some { config with services := config.services.insert serviceName service })
    | _ => .error (.invalidServiceKey key)
  | "components" :: rest =>
    match rest with
    | [componentName] =>
      match value with
      | none => .ok (some { config with components := config.components.erase componentName })
      | some raw =>
        match codec.parseComponent raw with
        | none => .error .parseComponent
        | some component =>
          .ok (some { config with components := config.components.insert componentName component })
    | _ => .error (.invalidComponentKey key)
  | "nats" :: _ =>
    match value with
    | none => .error .parseNATS
    | some raw =>
      match codec.parseNATS config.nats raw with
      | none => .error .parseNATS
      | some block => .ok (some { config with nats := some block })
  | "model_registry" :: _ =>
    match value with
    | none => .ok (some { config with modelRegistry := none })
    | some raw =>
      if codec.parseModelRegistry raw then .ok (some { config with modelRegistry := some raw })
      else .error .parseModelRegistry
  | _ => .ok none

/-- `updateConfig`; the value is `none` where it is empty. -/
def updateConfig (config : Config Raw Service Component) (key : String) (value : Option Raw) :
    Except UpdateError (Config Raw Service Component) :=
  if value.any codec.tooLarge then .error .tooLarge
  else if value.any codec.tooDeep then .error .tooDeep
  else
    match applyKey codec config key value with
    | .error e => .error e
    | .ok none => .ok config
    | .ok (some draft) => if draft.validate codec then .ok draft else .error .validation

/-- What is in memory after an update, refused or not. -/
def afterUpdate (config : Config Raw Service Component) (key : String) (value : Option Raw) :
    Config Raw Service Component :=
  match updateConfig codec config key value with
  | .error _ => config
  | .ok updated => updated

/-- The component a value stands for, where updates accept it. -/
def acceptComponent (raw : Raw) : Option Component :=
  if codec.tooLarge raw || codec.tooDeep raw then none
  else (codec.parseComponent raw).filter codec.validComponent

/-- The service a value stands for, where updates accept it. -/
def acceptService (raw : Raw) : Option Service :=
  if codec.tooLarge raw || codec.tooDeep raw then none else codec.parseService raw

/-! ## What an update does -/

variable {codec} {config : Config Raw Service Component} {name : String}

/-- An update leaves what is in memory, or puts a valid draft in its place. -/
theorem afterUpdate_eq (config : Config Raw Service Component) (key : String) (value : Option Raw) :
    afterUpdate codec config key value = config ∨
      ∃ draft, applyKey codec config key value = .ok (some draft) ∧ draft.validate codec ∧
        afterUpdate codec config key value = draft := by
  unfold afterUpdate updateConfig
  grind

/-- The configuration in memory is valid, whatever updates come. -/
theorem validate_afterUpdate (h : config.validate codec) (key : String)
    (value : Option Raw) : (afterUpdate codec config key value).validate codec := by
  rcases afterUpdate_eq config key value with heq | ⟨_, -, hvalid, heq⟩ <;> rw [heq]
  · exact h
  · exact hvalid

theorem validate_eq_true : config.validate codec ↔
      (∀ e ∈ config.components.entries, e.1 ≠ "" ∧ codec.validComponent e.2) ∧
        config.modelRegistry.all codec.validModelRegistry := by
  simp [Config.validate, List.all_eq_true]

theorem validate_erase (h : config.validate codec) :
    ({ config with components := config.components.erase name } :
      Config Raw Service Component).validate codec := by
  rw [validate_eq_true] at h ⊢
  exact ⟨fun e he => h.1 e ((kerase_sublist _ _).subset he), h.2⟩

theorem validate_insert (h : config.validate codec) (hname : name ≠ "")
    : ({ config with components := config.components.insert name component } :
      Config Raw Service Component).validate codec = codec.validComponent component := by
  rw [Bool.eq_iff_iff, validate_eq_true]
  rw [validate_eq_true] at h
  refine ⟨fun hall => ?_, fun hcomponent => ⟨fun e he => ?_, h.2⟩⟩
  · exact (hall.1 ⟨name, component⟩ (by simp [AList.entries_insert])).2
  · rcases mem_cons.1 he with rfl | he
    · exact ⟨hname, hcomponent⟩
    · exact h.1 e ((kerase_sublist _ _).subset he)

/-- **A component's key changes its entry**, where the value is accepted. -/
theorem afterUpdate_componentKey (hname : Plain name) (h : config.validate codec)
    (value : Option Raw) :
    afterUpdate codec config (componentKey name) value =
      match value with
      | none => { config with components := config.components.erase name }
      | some raw =>
        match acceptComponent codec raw with
        | none => config
        | some component =>
          { config with components := config.components.insert name component } := by
  have htokens : (tokens (componentKey name)).map String.ofList = ["components", name] := by
    rw [tokens_componentKey hname]
    simp
  cases value with
  | none => simp [afterUpdate, updateConfig, applyKey, htokens, validate_erase h]
  | some raw =>
    simp only [afterUpdate, updateConfig, applyKey, htokens, acceptComponent, any_some]
    cases codec.tooLarge raw with
    | true => simp
    | false =>
      cases codec.tooDeep raw with
      | true => simp
      | false =>
        cases hparse : codec.parseComponent raw with
        | none => simp
        | some component =>
          cases hvalid : codec.validComponent component with
          | true => simp [validate_insert h hname.1, hvalid, Option.filter]
          | false => simp [validate_insert h hname.1, hvalid, Option.filter]

theorem key_of_tokens
    (h : (tokens key).map String.ofList = [family, name]) : key = family ++ "." ++ name := by
  have hparts : tokens key = [family.toList, name.toList] := by
    have hlists := congrArg (List.map String.toList) h
    simpa using hlists
  rw [← joinTokens_tokens key, hparts]
  apply String.toList_inj.1
  simp [joinTokens, intercalate_cons_cons, String.toList_append]

/-- A key reaches no entry but its own. -/
theorem lookup_applyKey (h : applyKey codec config key value = .ok (some draft)) (name : String) :
    (key ≠ "services." ++ name → draft.services.lookup name = config.services.lookup name) ∧
      (key ≠ "components." ++ name →
        draft.components.lookup name = config.components.lookup name) := by
  have hother : ∀ {family other : String}, (tokens key).map String.ofList = [family, other] →
      key ≠ family ++ "." ++ name → name ≠ other := by
    rintro family other htokens hkey rfl
    exact hkey (key_of_tokens htokens)
  unfold applyKey at h
  split at h
  · next rest htokens =>
    split at h
    · next other =>
      have hne := fun hkey => hother htokens hkey
      split at h
      · cases h
        exact ⟨fun hkey => AList.lookup_erase_ne (hne hkey), fun _ => rfl⟩
      split at h <;> cases h
      exact ⟨fun hkey => AList.lookup_insert_ne (hne hkey), fun _ => rfl⟩
    · cases h
  · next rest htokens =>
    split at h
    · next other =>
      have hne := fun hkey => hother htokens hkey
      split at h
      · cases h
        exact ⟨fun _ => rfl, fun hkey => AList.lookup_erase_ne (hne hkey)⟩
      split at h <;> cases h
      exact ⟨fun _ => rfl, fun hkey => AList.lookup_insert_ne (hne hkey)⟩
    · cases h
  · split at h
    · cases h
    split at h <;> cases h
    exact ⟨fun _ => rfl, fun _ => rfl⟩
  · split at h
    · cases h
      exact ⟨fun _ => rfl, fun _ => rfl⟩
    split at h <;> cases h
    exact ⟨fun _ => rfl, fun _ => rfl⟩
  · cases h

/-- **An update changes no entry but its key's.** -/
theorem lookup_afterUpdate (key : String) (value : Option Raw) (name : String) :
    (key ≠ "services." ++ name →
        (afterUpdate codec config key value).services.lookup name = config.services.lookup name) ∧
      (key ≠ "components." ++ name → (afterUpdate codec config key value).components.lookup name =
          config.components.lookup name) := by
  rcases afterUpdate_eq config key value with heq | ⟨_, hdraft, -, heq⟩ <;> rw [heq]
  · exact ⟨fun _ => rfl, fun _ => rfl⟩
  · exact lookup_applyKey hdraft name

/-- An accepted value, or none, is not refused. -/
theorem updateConfig_componentKey_ok (hname : Plain name) (h : config.validate codec)
    (haccept : ∀ raw, value = some raw → (acceptComponent codec raw).isSome) :
    ∃ updated, updateConfig codec config (componentKey name) value = .ok updated := by
  have htokens : (tokens (componentKey name)).map String.ofList = ["components", name] := by
    rw [tokens_componentKey hname]
    simp
  cases value with
  | none =>
    exact ⟨{ config with components := config.components.erase name }, by
      simp [updateConfig, applyKey, htokens, validate_erase h]⟩
  | some raw =>
    obtain ⟨component, hcomponent⟩ := isSome_iff_exists.1 (haccept raw rfl)
    rw [acceptComponent] at hcomponent
    split at hcomponent
    · cases hcomponent
    next hsize =>
    obtain ⟨hparse, hvalid⟩ := filter_eq_some_iff.1 hcomponent
    simp only [Bool.or_eq_true, not_or, Bool.not_eq_true] at hsize
    exact ⟨{ config with components := config.components.insert name component }, by
      simp [updateConfig, applyKey, htokens, hsize, hparse, validate_insert h hname.1, hvalid]⟩

/-- **A service's key changes its entry**, where the value is accepted. -/
theorem afterUpdate_serviceKey (hname : Plain name) (h : config.validate codec)
    (value : Option Raw) :
    afterUpdate codec config (serviceKey name) value =
      match value with
      | none => { config with services := config.services.erase name }
      | some raw =>
        match acceptService codec raw with
        | none => config
        | some service => { config with services := config.services.insert name service } := by
  have htokens : (tokens (serviceKey name)).map String.ofList = ["services", name] := by
    rw [tokens_serviceKey hname]
    simp
  have hsame : ∀ services, ({ config with services := services } :
      Config Raw Service Component).validate codec := fun _ => h
  cases value with
  | none => simp [afterUpdate, updateConfig, applyKey, htokens, hsame]
  | some raw =>
    simp only [afterUpdate, updateConfig, applyKey, htokens, acceptService, any_some]
    cases codec.tooLarge raw with
    | true => simp
    | false =>
      cases codec.tooDeep raw with
      | true => simp
      | false => cases codec.parseService raw <;> simp [hsame]

/-- Values that are texts, all of them accepted. -/
def textCodec : Codec String String String where
  tooLarge _ := false
  tooDeep _ := false
  parseService := some
  parseComponent := some
  validComponent _ := true
  parseNATS _ raw := some raw
  parseModelRegistry _ := true
  validModelRegistry _ := true

end SemStreams.ConfigManager
