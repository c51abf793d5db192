import SemStreams.Config.Manager
import SemStreams.Lib.Decimal
import Mathlib.Data.List.Perm.Basic
/-!
# config — which of file and bucket wins at start

`Start` compares the version of the file with the one in the bucket. A newer file is pushed,
key by key, its version first; otherwise the bucket is read into memory, where its services
replace those of the file and its components are laid over them. A push that is cut short
leaves the new version over a part of the keys, and the next start reads that part.

Every cut of a push is a number of its writes: a crash, or a put that fails, after which the
push gives up, landed or not. Reads succeed: a read of the stored version that fails, which
the source takes for `0.0.0`, is not modelled.
-/

namespace SemStreams.ConfigManager

open List Option AList

/-! ## Versions -/

/-- Why a version is not one. -/
inductive VersionError where
  | empty
  | format (version : String)
  | major (part : String)
  | minor (part : String)
  | patch (part : String)
deriving DecidableEq

def parseSemVer (version : String) : Except VersionError (ℤ × ℤ × ℤ) :=
  if version = "" then .error .empty
  else
    let trimmed := if version.toList.head? = some 'v' then version.toList.tail else version.toList
    match trimmed.splitOn '.' with
    | [major, minor, patch] =>
      match atoi major, atoi minor, atoi patch with
      | none, _, _ => .error (.major (String.ofList major))
      | some _, none, _ => .error (.minor (String.ofList minor))
      | some _, some _, none => .error (.patch (String.ofList patch))
      | some a, some b, some c => .ok (a, b, c)
    | _ => .error (.format (String.ofList trimmed))

def compareVersions (v₁ v₂ : String) : Except VersionError Ordering :=
  match parseSemVer v₁, parseSemVer v₂ with
  | .error e, _ => .error e
  | .ok _, .error e => .error e
  | .ok (major₁, minor₁, patch₁), .ok (major₂, minor₂, patch₂) =>
    if major₁ ≠ major₂ then .ok (if major₁ > major₂ then .gt else .lt)
    else if minor₁ ≠ minor₂ then .ok (if minor₁ > minor₂ then .gt else .lt)
    else if patch₁ ≠ patch₂ then .ok (if patch₁ > patch₂ then .gt else .lt)
    else .ok .eq

variable (v : String)

theorem compareVersions_self : compareVersions v v ≠ .ok .gt := by
  rw [compareVersions]
  cases parseSemVer v with
  | error e => exact nofun
  | ok parts => simp

theorem compareVersions_empty : compareVersions "" v = .error .empty := rfl

/-! ## Pushing -/

variable {Raw Service Component : Type}

/-- The bucket: the value of each key, `none` where it is empty. -/
abbrev Store (Raw : Type) := AList fun _ : String => Option Raw

/-- How values are written; the version is read back as it was. -/
structure Encoding (Raw Service Component : Type) where
  version : String → Raw
  parseVersion : Raw → Option String
  parseVersion_version : ∀ v, parseVersion (version v) = some v
  service : Service → Raw
  component : Component → Raw
  /-- `adoptPlatformIdentity` takes the record for this platform's. -/
  adopts : Raw → Bool

/-- The configuration as loaded; the platform section is only ever written. -/
structure File (Raw Service Component : Type) where
  config : Config Raw Service Component
  platform : Option Raw

/-- An order in which the maps of the file are iterated. -/
structure PushOrder (file : File Raw Service Component) where
  services : List (Σ _ : String, Service)
  components : List (Σ _ : String, Component)
  services_perm : services.Perm file.config.services.entries
  components_perm : components.Perm file.config.components.entries

section Push

variable (enc : Encoding Raw Service Component) (file : File Raw Service Component)

/-- The writes of `pushToKV` after the version. -/
def pushSections (order : PushOrder file) : List (String × Raw) :=
  order.services.map (fun e => (serviceKey e.1, enc.service e.2)) ++
    order.components.map (fun e => (componentKey e.1, enc.component e.2)) ++
    file.platform.toList.map (fun raw => ("platform", raw)) ++
    file.config.nats.toList.map (fun raw => ("nats", raw)) ++
    file.config.modelRegistry.toList.map fun raw => ("model_registry", raw)

/-- **The writes of `pushToKV`**, in order. -/
def pushToKV (order : PushOrder file) : List (String × Raw) :=
  (if file.config.version = "" then [] else [("version", enc.version file.config.version)]) ++
    pushSections enc file order

/-- The bucket after some puts. -/
def putAll (writes : List (String × Raw)) (bucket : Store Raw) : Store Raw :=
  writes.foldl (fun bucket w => bucket.insert w.1 (some w.2)) bucket

def platformIdentityKVKey : String := "platform_identity"

/-- The bucket holds a key that is not the identity record. -/
def hasConfig (bucket : Store Raw) : Bool := bucket.keys.any fun key => key ≠ platformIdentityKVKey

def getKVVersion (bucket : Store Raw) : String :=
  ((bucket.lookup "version").bind fun value => value.bind enc.parseVersion).getD "0.0.0"

inductive Direction where
  | push
  | sync
deriving DecidableEq

/-- What `Start` decides, once the identity is adopted. -/
def direction (bucket : Store Raw) : Direction :=
  if hasConfig bucket then
    match compareVersions file.config.version (getKVVersion enc bucket) with
    | .ok .gt => .push
    | _ => .sync
  else .push

/-! ## Reading -/

variable (codec : Codec Raw Service Component)

/-- One key of `syncFromKV`. -/
def syncKey (bucket : Store Raw) (config : Config Raw Service Component) (key : String) :
    Config Raw Service Component :=
  if 2 < (tokens key).length then config
  else
    match bucket.lookup key with
    | none => config
    | some value => afterUpdate codec config key value

/-- `syncFromKV`, the keys listed in some order. -/
def syncFromKV (bucket : Store Raw) (keys : List String) (config : Config Raw Service Component) :
    Config Raw Service Component :=
  let reset : Config Raw Service Component := { config with services := ∅ }
  if reset.validate codec then keys.foldl (syncKey codec bucket) reset else config

/-- **`Start` without failures**, against a bucket that holds this platform's identity record:
what is in memory when it returns. -/
def start (bucket : Store Raw) (keys : List String) : Option (Config Raw Service Component) :=
  match bucket.lookup platformIdentityKVKey with
  | some (some record) =>
    if enc.adopts record then
      match direction enc file bucket with
      | .push => some file.config
      | .sync => some (syncFromKV codec bucket keys file.config)
    else none
  | _ => none

/-- A start that fails: the order of its push, and how many writes it makes. -/
structure Cut (file : File Raw Service Component) extends PushOrder file where
  writes : ℕ

/-- The writes a failing start makes, if it pushes. -/
def Cut.written {file : File Raw Service Component} (cut : Cut file) : List (String × Raw) :=
  (pushToKV enc file cut.toPushOrder).take cut.writes

/-- **The bucket after a start that fails.** -/
def interrupt (bucket : Store Raw) (cut : Cut file) : Store Raw :=
  match direction enc file bucket with
  | .push => putAll (cut.written enc) bucket
  | .sync => bucket

end Push

/-! ## What a cut push leaves -/

section Pushed

variable {enc : Encoding Raw Service Component} {file : File Raw Service Component}
  {bucket : Store Raw} {key : String}

theorem lookup_putAll (h : ∀ w ∈ writes, w.1 ≠ key) :
    (putAll writes bucket).lookup key = bucket.lookup key := by
  induction writes generalizing bucket with
  | nil => rfl
  | cons w writes ih =>
    obtain ⟨hw, hrest⟩ := forall_mem_cons.1 h
    exact (ih hrest).trans (lookup_insert_ne (Ne.symm hw))

theorem mem_putAll : key ∈ putAll writes bucket ↔ key ∈ bucket ∨ ∃ w ∈ writes, w.1 = key := by
  induction writes generalizing bucket with
  | nil => simp [putAll]
  | cons w writes ih =>
    show key ∈ putAll writes (bucket.insert w.1 (some w.2)) ↔ _
    rw [ih, mem_insert]
    constructor
    · rintro ((rfl | h) | ⟨w', hw', rfl⟩)
      · exact .inr ⟨w, by simp, rfl⟩
      · exact .inl h
      · exact .inr ⟨w', by simp [hw'], rfl⟩
    · rintro (h | ⟨w', hw', rfl⟩)
      · exact .inl (.inr h)
      · rcases mem_cons.1 hw' with rfl | hw'
        · exact .inl (.inl rfl)
        · exact .inr ⟨w', hw', rfl⟩

variable {order : PushOrder file} {w : String × Raw}

/-- The keys of a push after its version: of a service, of a component, or a section's. -/
theorem key_of_mem_pushSections (h : w ∈ pushSections enc file order) :
    (∃ name ∈ file.config.services, w.1 = serviceKey name) ∨
      (∃ name ∈ file.config.components, w.1 = componentKey name) ∨
        w.1 ∈ ["platform", "nats", "model_registry"] := by
  simp only [pushSections, mem_append, List.mem_map] at h
  rcases h with (((⟨e, he, rfl⟩ | ⟨e, he, rfl⟩) | ⟨raw, -, rfl⟩) | ⟨raw, -, rfl⟩) | ⟨raw, -, rfl⟩
  · exact .inl ⟨e.1, List.mem_map_of_mem (order.services_perm.subset he), rfl⟩
  · exact .inr (.inl ⟨e.1, List.mem_map_of_mem (order.components_perm.subset he), rfl⟩)
  all_goals exact .inr (.inr (by simp))

variable (name : String)

theorem dot_mem_serviceKey : '.' ∈ (serviceKey name).toList := by
  rw [serviceKey, String.toList_append]
  exact mem_append_left _ (by decide)

theorem dot_mem_componentKey : '.' ∈ (componentKey name).toList := by
  rw [componentKey, String.toList_append]
  exact mem_append_left _ (by decide)

/-- No section is written under the version's key, or the identity record's. -/
theorem key_ne_of_mem_pushSections (h : w ∈ pushSections enc file order) (hdot : '.' ∉ key.toList)
    (hkey : key ∉ ["platform", "nats", "model_registry"]) : w.1 ≠ key := by
  rintro rfl
  rcases key_of_mem_pushSections h with ⟨name, -, hname⟩ | ⟨name, -, hname⟩ | hsection
  · exact hdot (hname ▸ dot_mem_serviceKey name)
  · exact hdot (hname ▸ dot_mem_componentKey name)
  · exact hkey hsection

theorem mem_pushToKV (h : w ∈ pushToKV enc file order) :
    w.1 = "version" ∨ w ∈ pushSections enc file order := by
  rcases mem_append.1 h with h | h
  · split at h
    · cases h
    · rw [mem_singleton.1 h]
      exact .inl rfl
  · exact .inr h

theorem key_ne_identity (h : w ∈ pushToKV enc file order) : w.1 ≠ platformIdentityKVKey := by
  rcases mem_pushToKV h with h | h
  · rw [h]
    decide
  · exact key_ne_of_mem_pushSections h (by decide) (by decide)

/-- Where the version is written, it is written first, and read back. -/
theorem getKVVersion_putAll (hversion : file.config.version ≠ "")
    (h : (pushToKV enc file order).take n ≠ []) :
    getKVVersion enc (putAll ((pushToKV enc file order).take n) bucket) = file.config.version := by
  rw [pushToKV, if_neg hversion, singleton_append] at h ⊢
  cases n with
  | zero => exact absurd rfl h
  | succ n =>
    rw [take_succ_cons]
    have hkept : (putAll (("version", enc.version file.config.version) ::
        (pushSections enc file order).take n) bucket).lookup "version" =
          some (some (enc.version file.config.version)) := by
      have hrest : ∀ w ∈ (pushSections enc file order).take n, w.1 ≠ "version" := fun w hw =>
        key_ne_of_mem_pushSections (mem_of_mem_take hw) (by decide) (by decide)
      exact (lookup_putAll hrest).trans (lookup_insert _)
    rw [getKVVersion, hkept]
    simp [enc.parseVersion_version]

/-- **After any write of a push the next start reads the bucket.** -/
theorem direction_putAll {cut : Cut file} (h : cut.written enc ≠ []) :
    direction enc file (putAll (cut.written enc) bucket) = .sync := by
  have hconfig : hasConfig (putAll (cut.written enc) bucket) := by
    obtain ⟨w, hw⟩ := exists_mem_of_ne_nil _ h
    refine List.any_eq_true.2 ⟨w.1, mem_putAll.2 (.inr ⟨w, hw, rfl⟩), ?_⟩
    exact decide_eq_true (key_ne_identity (mem_of_mem_take hw))
  rw [direction, if_pos hconfig]
  by_cases hversion : file.config.version = ""
  · rw [hversion, compareVersions_empty]
  · rw [Cut.written, getKVVersion_putAll hversion h]
    have hself := compareVersions_self file.config.version
    split
    · next heq => exact absurd heq hself
    · rfl

variable {cuts : List (Cut file)}

/-- A start that reads the bucket leaves it. -/
theorem foldl_interrupt_sync (h : direction enc file bucket = .sync) :
    cuts.foldl (interrupt enc file) bucket = bucket := by
  induction cuts with
  | nil => rfl
  | cons cut cuts ih => rw [foldl_cons, interrupt, h, ih]

/-- **Failing starts**: where none has written anything, the bucket is as it was; otherwise
the next start reads it. -/
theorem foldl_interrupt (h : direction enc file bucket = .push) :
    ((∀ cut ∈ cuts, cut.written enc = []) ∧ cuts.foldl (interrupt enc file) bucket = bucket) ∨
      (¬ ∀ cut ∈ cuts, cut.written enc = []) ∧
        direction enc file (cuts.foldl (interrupt enc file) bucket) = .sync := by
  induction cuts with
  | nil => exact .inl ⟨nofun, rfl⟩
  | cons cut cuts ih =>
    have hhead : interrupt enc file bucket cut = putAll (cut.written enc) bucket := by
      rw [interrupt, h]
    rw [foldl_cons, hhead, forall_mem_cons]
    by_cases hwritten : cut.written enc = []
    · rw [hwritten]
      exact ih.imp (fun hnone => ⟨⟨rfl, hnone.1⟩, hnone.2⟩) fun hsome =>
        ⟨fun hall => hsome.1 hall.2, hsome.2⟩
    · have hsync := @direction_putAll _ _ _ enc file bucket cut hwritten
      refine .inr ⟨fun hall => hwritten hall.1, ?_⟩
      rw [foldl_interrupt_sync hsync]
      exact hsync

end Pushed

/-! ## What the next start reads -/

section Read

variable {codec : Codec Raw Service Component} {bucket : Store Raw} {name : String}
  {config : Config Raw Service Component}

/-- An entry in memory after its key is read: as it was where there is no key, or its value
is refused. -/
def readEntry {V : Type} (accept : Raw → Option V) (old : Option V) : Option (Option Raw) → Option V
  | none => old
  | some none => none
  | some (some raw) => (accept raw).or old

theorem length_tokens_serviceKey (hname : Plain name) : ¬ 2 < (tokens (serviceKey name)).length := by
  rw [tokens_serviceKey hname]
  exact Nat.lt_irrefl 2

theorem length_tokens_componentKey (hname : Plain name) :
    ¬ 2 < (tokens (componentKey name)).length := by
  rw [tokens_componentKey hname]
  exact Nat.lt_irrefl 2

theorem validate_syncKey (h : config.validate codec) (key : String) :
    (syncKey codec bucket config key).validate codec := by
  rw [syncKey]
  split
  · exact h
  split
  · exact h
  · exact validate_afterUpdate h _ _

/-- A service's key is read into its entry. -/
theorem services_syncKey (hname : Plain name) (h : config.validate codec) :
    (syncKey codec bucket config (serviceKey name)).services.lookup name =
      readEntry (acceptService codec) (config.services.lookup name)
        (bucket.lookup (serviceKey name)) := by
  rw [syncKey, if_neg (length_tokens_serviceKey hname)]
  match bucket.lookup (serviceKey name) with
  | none => rfl
  | some none =>
    simp only [afterUpdate_serviceKey hname h, readEntry]
    exact lookup_erase _ _
  | some (some raw) =>
    simp only [afterUpdate_serviceKey hname h, readEntry]
    cases acceptService codec raw with
    | none => rfl
    | some service => exact lookup_insert _

/-- A component's key is read into its entry. -/
theorem components_syncKey (hname : Plain name) (h : config.validate codec) :
    (syncKey codec bucket config (componentKey name)).components.lookup name =
      readEntry (acceptComponent codec) (config.components.lookup name)
        (bucket.lookup (componentKey name)) := by
  rw [syncKey, if_neg (length_tokens_componentKey hname)]
  match bucket.lookup (componentKey name) with
  | none => rfl
  | some none =>
    simp only [afterUpdate_componentKey hname h, readEntry]
    exact lookup_erase _ _
  | some (some raw) =>
    simp only [afterUpdate_componentKey hname h, readEntry]
    cases acceptComponent codec raw with
    | none => rfl
    | some component => exact lookup_insert _

/-- No other key is. -/
theorem lookup_syncKey (key : String) (name : String) : (key ≠ "services." ++ name →
        (syncKey codec bucket config key).services.lookup name = config.services.lookup name) ∧
      (key ≠ "components." ++ name → (syncKey codec bucket config key).components.lookup name =
          config.components.lookup name) := by
  rw [syncKey]
  split
  · exact ⟨fun _ => rfl, fun _ => rfl⟩
  split
  · exact ⟨fun _ => rfl, fun _ => rfl⟩
  · exact lookup_afterUpdate _ _ _

variable {keys : List String} {V : Type}

/-- An entry that no key listed reaches stays as it was. -/
theorem foldl_syncKey_of_forall {view : Config Raw Service Component → V}
    (h : ∀ key ∈ keys, ∀ config, view (syncKey codec bucket config key) = view config)
    (config : Config Raw Service Component) :
    view (keys.foldl (syncKey codec bucket) config) = view config := by
  induction keys generalizing config with
  | nil => rfl
  | cons key keys ih =>
    obtain ⟨hkey, hrest⟩ := forall_mem_cons.1 h
    exact (ih hrest _).trans (hkey config)

/-- **An entry is read from its key**, which is listed once. -/
theorem foldl_syncKey {view : Config Raw Service Component → Option V} {accept : Raw → Option V}
    {key : String} (hnodup : keys.Nodup)
    (hown : ∀ config, config.validate codec →
      view (syncKey codec bucket config key) = readEntry accept (view config) (bucket.lookup key))
    (hother : ∀ config other, other ≠ key → view (syncKey codec bucket config other) = view config)
    (hvalid : config.validate codec) (hkey : key ∈ keys) :
    view (keys.foldl (syncKey codec bucket) config) =
      readEntry accept (view config) (bucket.lookup key) := by
  induction keys generalizing config with
  | nil => cases hkey
  | cons head keys ih =>
    obtain ⟨hhead, hrest⟩ := nodup_cons.1 hnodup
    by_cases heq : head = key
    · subst heq
      have hstay : ∀ other ∈ keys, ∀ config,
          view (syncKey codec bucket config other) = view config := by
        intro other hmem config
        refine hother config other ?_
        rintro rfl
        exact hhead hmem
      exact (foldl_syncKey_of_forall hstay _).trans (hown config hvalid)
    · have hmem : key ∈ keys := (mem_cons.1 hkey).resolve_left (Ne.symm heq)
      rw [foldl_cons, ih hrest (validate_syncKey hvalid head) hmem, hother config head heq]

end Read

/-! ## The restart -/

variable (codec : Codec Raw Service Component) (file : File Raw Service Component)
  (bucket : Store Raw)

/-- The names of the file's services and components are plain. -/
structure PlainNames : Prop where
  services : ∀ name ∈ file.config.services, Plain name
  components : ∀ name ∈ file.config.components, Plain name

/-- The services and components of the bucket are among the file's. Keys of more than two
tokens are properties, which are never read. -/
structure KeysWithin : Prop where
  services : ∀ name, '.' ∉ name.toList → "services." ++ name ∈ bucket → name ∈ file.config.services
  components : ∀ name, '.' ∉ name.toList → "components." ++ name ∈ bucket →
    name ∈ file.config.components

/-- **What is stored agrees with the file**: every service is stored as the file has it, and
no component is stored otherwise, unless in a form that is refused. -/
structure Agrees : Prop where
  services : ∀ name service, file.config.services.lookup name = some service →
    ∃ raw, bucket.lookup (serviceKey name) = some (some raw) ∧ acceptService codec raw = some service
  components : ∀ name component, file.config.components.lookup name = some component →
    ∀ value, bucket.lookup (componentKey name) = some value →
      ∃ raw, value = some raw ∧
        (acceptComponent codec raw = some component ∨ acceptComponent codec raw = none)

/-- The services and components are those of the file. -/
structure SameEntries (config : Config Raw Service Component) : Prop where
  services : ∀ name, config.services.lookup name = file.config.services.lookup name
  components : ∀ name, config.components.lookup name = file.config.components.lookup name

variable {codec file bucket} {keys : List String} {name : String}

/-- A key whose name has a dot has more than two tokens. -/
theorem two_lt_length_tokens (family : String) (h : '.' ∈ name.toList) :
    2 < (tokens (family ++ "." ++ name)).length := by
  obtain ⟨x, y, hxy⟩ := append_of_mem h
  have hname : name = String.ofList x ++ "." ++ String.ofList y := by
    apply String.toList_inj.1
    simp [hxy]
  have hlen : ∀ a : String, 0 < (tokens a).length := fun a => length_pos_of_ne_nil (tokens_ne_nil a)
  have hfamily := hlen family
  have hx := hlen (String.ofList x)
  have hy := hlen (String.ofList y)
  rw [hname, tokens_append_dot, tokens_append_dot, length_append, length_append]
  omega

variable {V : Type} {view : Config Raw Service Component → Option V} {key : String}

/-- What `syncFromKV` has made of an entry. -/
theorem view_syncFromKV {accept : Raw → Option V} (hvalid : file.config.validate codec)
    (hkeys : keys.Perm bucket.keys)
    (hown : ∀ config, config.validate codec →
      view (syncKey codec bucket config key) = readEntry accept (view config) (bucket.lookup key))
    (hother : ∀ config other, other ≠ key → view (syncKey codec bucket config other) = view config) :
    view (syncFromKV codec bucket keys file.config) =
      readEntry accept (view { file.config with services := ∅ }) (bucket.lookup key) := by
  have hreset : ({ file.config with services := ∅ } :
      Config Raw Service Component).validate codec := hvalid
  have hnodup : keys.Nodup := hkeys.nodup_iff.2 bucket.keys_nodup
  rw [syncFromKV, if_pos hreset]
  by_cases hkey : key ∈ keys
  · exact foldl_syncKey hnodup hown hother hreset hkey
  have habsent : bucket.lookup key = none :=
    lookup_eq_none.2 fun hmem => hkey (hkeys.symm.subset hmem)
  rw [habsent]
  refine foldl_syncKey_of_forall (fun other hmem config => hother config other ?_) _
  rintro rfl
  exact hkey hmem

/-- What it has left of one whose key is not read. -/
theorem view_syncFromKV_unread (hvalid : file.config.validate codec)
    (hkeys : keys.Perm bucket.keys) (hdeep : key ∈ bucket → 2 < (tokens key).length)
    (hother : ∀ config other, other ≠ key → view (syncKey codec bucket config other) = view config) :
    view (syncFromKV codec bucket keys file.config) = view { file.config with services := ∅ } := by
  have hreset : ({ file.config with services := ∅ } :
      Config Raw Service Component).validate codec := hvalid
  rw [syncFromKV, if_pos hreset]
  refine foldl_syncKey_of_forall (fun other hmem config => ?_) _
  by_cases heq : other = key
  · subst heq
    rw [syncKey, if_pos (hdeep (hkeys.subset hmem))]
  · exact hother config other heq

/-- A service of the file is read from its key alone. -/
theorem services_syncFromKV (hvalid : file.config.validate codec) (hnames : PlainNames file)
    (hkeys : keys.Perm bucket.keys) (hname : name ∈ file.config.services) :
    (syncFromKV codec bucket keys file.config).services.lookup name =
      readEntry (acceptService codec) none (bucket.lookup (serviceKey name)) := by
  have hplain := hnames.services name hname
  refine @view_syncFromKV _ _ _ codec file bucket keys _ (fun config => config.services.lookup name)
    _ _ hvalid hkeys (fun config h => services_syncKey hplain h) fun config other hne => ?_
  exact (lookup_syncKey other name).1 (serviceKey_of_plain hplain ▸ hne)

/-- A component of the file, from its key over the file. -/
theorem components_syncFromKV (hvalid : file.config.validate codec)
    (hnames : PlainNames file) (hkeys : keys.Perm bucket.keys)
    (hname : name ∈ file.config.components) :
    (syncFromKV codec bucket keys file.config).components.lookup name =
      readEntry (acceptComponent codec) (file.config.components.lookup name)
        (bucket.lookup (componentKey name)) := by
  have hplain := hnames.components name hname
  refine @view_syncFromKV _ _ _ codec file bucket keys _ (fun config => config.components.lookup name)
    _ _ hvalid hkeys (fun config h => components_syncKey hplain h) fun config other hne => ?_
  exact (lookup_syncKey other name).2 (componentKey_of_plain hplain ▸ hne)

/-- Nothing is read that is not in the file. -/
theorem lookup_syncFromKV_of_not_mem (hvalid : file.config.validate codec)
    (hwithin : KeysWithin file bucket) (hkeys : keys.Perm bucket.keys) (name : String) :
    (name ∉ file.config.services →
        (syncFromKV codec bucket keys file.config).services.lookup name = none) ∧
      (name ∉ file.config.components →
        (syncFromKV codec bucket keys file.config).components.lookup name = none) := by
  constructor
  · intro hname
    refine (@view_syncFromKV_unread _ _ _ codec file bucket keys _
      (fun config => config.services.lookup name) ("services." ++ name) hvalid hkeys ?_ ?_).trans rfl
    · intro hmem
      by_contra hshort
      refine hname (hwithin.services name (fun hdot => hshort ?_) hmem)
      exact two_lt_length_tokens "services" hdot
    · exact fun config other hne => (lookup_syncKey other name).1 hne
  · intro hname
    refine (@view_syncFromKV_unread _ _ _ codec file bucket keys _
      (fun config => config.components.lookup name) ("components." ++ name) hvalid hkeys ?_ ?_).trans
      (lookup_eq_none.2 hname)
    · intro hmem
      by_contra hshort
      refine hname (hwithin.components name (fun hdot => hshort ?_) hmem)
      exact two_lt_length_tokens "components" hdot
    · exact fun config other hne => (lookup_syncKey other name).2 hne

/-- **What is read is the file, just where the bucket agrees with it.** -/
theorem sameEntries_syncFromKV_iff (hvalid : file.config.validate codec)
    (hnames : PlainNames file) (hwithin : KeysWithin file bucket) (hkeys : keys.Perm bucket.keys) :
    SameEntries file (syncFromKV codec bucket keys file.config) ↔ Agrees codec file bucket := by
  constructor
  · intro hsame
    refine ⟨fun name service hservice => ?_, fun name component hcomponent value hvalue => ?_⟩
    · have hmem : name ∈ file.config.services := lookup_isSome.1 (by rw [hservice]; rfl)
      have hread := hsame.services name
      rw [services_syncFromKV hvalid hnames hkeys hmem, hservice] at hread
      match hlookup : bucket.lookup (serviceKey name) with
      | none => simp [hlookup, readEntry] at hread
      | some none => simp [hlookup, readEntry] at hread
      | some (some raw) => exact ⟨raw, rfl, by simpa [hlookup, readEntry] using hread⟩
    · have hmem : name ∈ file.config.components := lookup_isSome.1 (by rw [hcomponent]; rfl)
      have hread := hsame.components name
      rw [components_syncFromKV hvalid hnames hkeys hmem, hcomponent, hvalue] at hread
      match value with
      | none => simp [readEntry] at hread
      | some raw =>
        refine ⟨raw, rfl, ?_⟩
        cases haccept : acceptComponent codec raw with
        | none => exact .inr rfl
        | some other => simpa [readEntry, haccept] using hread
  · intro hagrees
    refine ⟨fun name => ?_, fun name => ?_⟩
    · by_cases hmem : name ∈ file.config.services
      · obtain ⟨service, hservice⟩ := isSome_iff_exists.1 (lookup_isSome.2 hmem)
        obtain ⟨raw, hraw, haccept⟩ := hagrees.services name service hservice
        rw [services_syncFromKV hvalid hnames hkeys hmem, hraw, hservice]
        simp [readEntry, haccept]
      · rw [(lookup_syncFromKV_of_not_mem hvalid hwithin hkeys name).1 hmem]
        exact (lookup_eq_none.2 hmem).symm
    · by_cases hmem : name ∈ file.config.components
      · obtain ⟨component, hcomponent⟩ := isSome_iff_exists.1 (lookup_isSome.2 hmem)
        rw [components_syncFromKV hvalid hnames hkeys hmem, hcomponent]
        match hlookup : bucket.lookup (componentKey name) with
        | none => rfl
        | some value =>
          obtain ⟨raw, rfl, haccept | haccept⟩ :=
            hagrees.components name component hcomponent value hlookup
          · simp [readEntry, haccept]
          · simp [readEntry, haccept]
      · rw [(lookup_syncFromKV_of_not_mem hvalid hwithin hkeys name).2 hmem]
        exact (lookup_eq_none.2 hmem).symm

variable {enc : Encoding Raw Service Component}

theorem ne_of_head {a b : String} (h : a.toList.head? ≠ b.toList.head?) : a ≠ b := by
  rintro rfl
  exact h rfl

theorem services_ne_components (a b : String) : "services." ++ a ≠ "components." ++ b :=
  ne_of_head (by simp)

/-- A failing start writes no key that is not the file's. -/
theorem KeysWithin.interrupt (h : KeysWithin file bucket) (hnames : PlainNames file)
    (cut : Cut file) : KeysWithin file (interrupt enc file bucket cut) := by
  have hsection : ∀ {key : String} {w : String × Raw}, w ∈ cut.written enc → w.1 = key →
      '.' ∈ key.toList →
      (∃ name ∈ file.config.services, key = "services." ++ name) ∨
        ∃ name ∈ file.config.components, key = "components." ++ name := by
    rintro key w hw rfl hdot
    have hmem := mem_of_mem_take hw
    rcases mem_pushToKV hmem with hversion | hmem
    · rw [hversion] at hdot
      exact absurd hdot (by decide)
    rcases key_of_mem_pushSections hmem with ⟨name, hname, heq⟩ | ⟨name, hname, heq⟩ | heq
    · exact .inl ⟨name, hname, heq.trans (serviceKey_of_plain (hnames.services name hname))⟩
    · exact .inr ⟨name, hname, heq.trans (componentKey_of_plain (hnames.components name hname))⟩
    · have hnone : ∀ key ∈ ["platform", "nats", "model_registry"], '.' ∉ key.toList := by decide
      exact absurd hdot (hnone _ heq)
  rw [ConfigManager.interrupt]
  split
  · refine ⟨fun name hdot hmem => ?_, fun name hdot hmem => ?_⟩
    · rcases mem_putAll.1 hmem with hmem | ⟨w, hw, hkey⟩
      · exact h.services name hdot hmem
      have hdot' : '.' ∈ ("services." ++ name).toList := by
        rw [String.toList_append]
        exact mem_append_left _ (by decide)
      rcases hsection hw hkey hdot' with ⟨other, hother, heq⟩ | ⟨other, -, heq⟩
      · rw [(String.append_right_inj _).1 heq]
        exact hother
      · exact absurd heq (services_ne_components name other)
    · rcases mem_putAll.1 hmem with hmem | ⟨w, hw, hkey⟩
      · exact h.components name hdot hmem
      have hdot' : '.' ∈ ("components." ++ name).toList := by
        rw [String.toList_append]
        exact mem_append_left _ (by decide)
      rcases hsection hw hkey hdot' with ⟨other, -, heq⟩ | ⟨other, hother, heq⟩
      · exact absurd heq.symm (services_ne_components other name)
      · rw [(String.append_right_inj _).1 heq]
        exact hother
  · exact h

theorem lookup_identity_interrupt (cut : Cut file) :
    (interrupt enc file bucket cut).lookup platformIdentityKVKey =
      bucket.lookup platformIdentityKVKey := by
  rw [interrupt]
  split
  · exact lookup_putAll fun w hw => key_ne_identity (mem_of_mem_take hw)
  · rfl

/-- What holds of the bucket before the failing starts holds of it after them. -/
theorem foldl_interrupt_within (hnames : PlainNames file) (h : KeysWithin file bucket)
    (cuts : List (Cut file)) :
    KeysWithin file (cuts.foldl (interrupt enc file) bucket) ∧
      (cuts.foldl (interrupt enc file) bucket).lookup platformIdentityKVKey =
        bucket.lookup platformIdentityKVKey := by
  induction cuts generalizing bucket with
  | nil => exact ⟨h, rfl⟩
  | cons cut cuts ih =>
    have hnext : KeysWithin file (interrupt enc file bucket cut) := h.interrupt hnames cut
    obtain ⟨hwithin, hrecord⟩ := ih hnext
    exact ⟨hwithin, hrecord.trans (lookup_identity_interrupt cut)⟩

/-- **A failed push is made good by the next start** just where no start has written anything,
or what is stored agrees with the file: it is then in memory as the file has it. -/
theorem restart_exact_iff (codec : Codec Raw Service Component)
    (enc : Encoding Raw Service Component) (file : File Raw Service Component) (prior : Store Raw)
    (cuts : List (Cut file)) (keys : List String) {record : Raw}
    (hvalid : file.config.validate codec = true) (hnames : PlainNames file)
    (hwithin : KeysWithin file prior)
    (hrecord : prior.lookup platformIdentityKVKey = some (some record))
    (hadopts : enc.adopts record = true) (hpush : direction enc file prior = .push)
    (hkeys : keys.Perm (cuts.foldl (interrupt enc file) prior).keys) :
    (∃ config, start enc file codec (cuts.foldl (interrupt enc file) prior) keys = some config ∧
        SameEntries file config) ↔
      (∀ cut ∈ cuts, cut.written enc = []) ∨
        Agrees codec file (cuts.foldl (interrupt enc file) prior) := by
  obtain ⟨hwithin', hrecord'⟩ := @foldl_interrupt_within _ _ _ file prior enc hnames hwithin cuts
  rw [start, hrecord', hrecord]
  simp only [hadopts, if_true]
  rcases foldl_interrupt hpush with ⟨hnone, hbucket⟩ | ⟨hsome, hsync⟩
  · rw [hbucket, hpush]
    exact iff_of_true ⟨file.config, rfl, fun _ => rfl, fun _ => rfl⟩ (.inl hnone)
  · rw [hsync]
    simp only [Option.some.injEq, exists_eq_left']
    rw [sameEntries_syncFromKV_iff hvalid hnames hwithin' hkeys]
    exact ⟨.inr, fun h => h.resolve_left hsome⟩

/-! ## A push cut after its first write -/

/-- Values that are their own texts. -/
def textEncoding : Encoding String String String where
  version v := v
  parseVersion := some
  parseVersion_version _ := rfl
  service s := s
  component c := c
  adopts _ := true

/-- A file with one service and one component. -/
def newFile : File String String String where
  config := ⟨"2.0.0", AList.singleton "metrics" "on", AList.singleton "udp" "new", none, none⟩
  platform := none

/-- A start that makes so many writes. -/
def cutAfter (writes : ℕ) : Cut newFile where
  services := newFile.config.services.entries
  components := newFile.config.components.entries
  services_perm := List.Perm.refl _
  components_perm := List.Perm.refl _
  writes := writes

def olderBucket : Store String :=
  ((AList.singleton platformIdentityKVKey (some "record")).insert "version" (some "1.0.0")).insert
    "components.udp" (some "old")

theorem newFile_plainNames : PlainNames newFile where
  services name hname := by
    have heq : name = "metrics" := mem_singleton.1 hname
    subst heq
    decide
  components name hname := by
    have heq : name = "udp" := mem_singleton.1 hname
    subst heq
    decide

theorem olderBucket_within : KeysWithin newFile olderBucket where
  services name _ hmem := by
    have hkeys : "services." ++ name ∈ ["components.udp", "version", "platform_identity"] := hmem
    simp only [mem_cons, not_mem_nil, or_false] at hkeys
    rcases hkeys with h | h | h
    all_goals exact absurd h (ne_of_head (by simp))
  components name _ hmem := by
    have hkeys : "components." ++ name ∈ ["components.udp", "version", "platform_identity"] := hmem
    simp only [mem_cons, not_mem_nil, or_false] at hkeys
    rcases hkeys with h | h | h
    · have heq : name = "udp" := (String.append_right_inj "components.").1 h
      subst heq
      decide
    all_goals exact absurd h (ne_of_head (by simp))

/-- A start that fails before its first write does no harm, nor does one that fails after its
last. -/
theorem restart_exact_cuts :
    [0, 3].Forall fun writes => ∃ config, start textEncoding newFile textCodec
        (interrupt textEncoding newFile olderBucket (cutAfter writes))
        (interrupt textEncoding newFile olderBucket (cutAfter writes)).keys = some config ∧
      SameEntries newFile config := by
  refine forall_iff_forall_mem.2 fun writes hwrites => ?_
  refine (restart_exact_iff textCodec textEncoding newFile olderBucket [cutAfter writes] _
    (by decide +kernel) newFile_plainNames olderBucket_within rfl rfl (by decide +kernel)
    (List.Perm.refl _)).2 ?_
  rcases mem_cons.1 hwrites with rfl | hwrites
  · exact .inl (by simp [Cut.written, cutAfter])
  obtain rfl := mem_singleton.1 hwrites
  refine .inr ⟨fun name service h => ?_, fun name component h value hvalue => ?_⟩
  · obtain rfl : name = "metrics" := mem_singleton.1 (lookup_isSome.1 (by rw [h]; rfl))
    exact ⟨service, congrArg (Option.map some) h, rfl⟩
  · obtain rfl : name = "udp" := mem_singleton.1 (lookup_isSome.1 (by rw [h]; rfl))
    exact ⟨component, Option.some.inj (hvalue.symm.trans (congrArg (Option.map some) h)), .inl rfl⟩

/-- **One that fails after it does**: the next start finds the version of the file, and reads
a bucket that has no service, and the old component. -/
theorem partial_push_read : ∃ config, start textEncoding newFile textCodec
        (interrupt textEncoding newFile olderBucket (cutAfter 1))
        (interrupt textEncoding newFile olderBucket (cutAfter 1)).keys = some config ∧
      config.services.lookup "metrics" = none ∧ config.components.lookup "udp" = some "old" := by
  decide +kernel

end SemStreams.ConfigManager
