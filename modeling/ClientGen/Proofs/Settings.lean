import ClientGen.Proofs.Document.Record
import ClientGen.Proofs.Json.Pretty
import ClientGen.Proofs.Storage.Disk
import ClientGen.Settings

/-!
# Settings are read as they were kept

* **Records** (`Json.readMembers_inOrder`): an object that names the fields of a record in their
  order is read field by field. Settings and configurations are written in this way, with every
  field present.
* **Parts** (`Reader.list_node`, `Reader.natural_node`, `Languages.ofList_toList`): what is read
  from each field is what was written.
* **Versions** (`checkCompatible_self`): no version is newer than itself.

The main statement, `loadSettings_saveSettings`, takes this from texts to files.
-/

namespace ClientGen

/-! ## Records in order -/

namespace Json

variable {α β : Type}

/-- **Fields in order.** Members that are named like fields, each once, are read one by one.
By induction on the members: what has been seen is not named again. -/
theorem readMembers_inOrder {fields : List (RecordField α)}
    (hnames : (fields.map (·.name)).Nodup) {room : ℕ} {parts : List (RecordField α × Node)} :
    ∀ {seen : List String} {a : α}, (∀ p ∈ parts, p.1 ∈ fields) →
      (parts.map (·.1.name)).Nodup → (∀ p ∈ parts, p.1.name ∉ seen) →
      readMembers fields room (parts.map fun p => (some p.1.name, p.2)) seen a =
        parts.foldlM (fun a p => p.1.read room p.2 a) a := by
  induction parts with
  | nil => exact fun _ _ _ => rfl
  | cons p parts ih =>
    intro seen a hfields hparts hseen
    rw [List.map_cons, List.nodup_cons] at hparts
    rw [List.forall_mem_cons] at hfields hseen
    rw [List.map_cons, readMembers_some, find?_recordField hnames hfields.1, List.foldlM_cons]
    simp only [if_neg hseen.1]
    refine bind_congr fun a₁ => ih hfields.2 hparts.2 fun q hq => ?_
    have hne : q.1.name ≠ p.1.name := fun heq =>
      hparts.1 (heq ▸ List.mem_map_of_mem (f := (·.1.name)) hq)
    exact List.not_mem_cons_of_ne_of_not_mem hne (hseen.2 q hq)

/-- An object that has all fields in order is read as a record. -/
theorem readRecord_inOrder {fields : List (RecordField α)} (hnames : (fields.map (·.name)).Nodup)
    {room : ℕ} {nodes : List Node} (hlength : nodes.length = fields.length) {initial a : α}
    (h : (fields.zip nodes).foldlM (fun a p => p.1.read room p.2 a) initial = .ok a) :
    readRecord fields initial (room + 1)
      (.object ((fields.zip nodes).map fun p => (some p.1.name, p.2)) .closed) = .ok a := by
  have hparts : ((fields.zip nodes).map (·.1.name)).Nodup := by
    have hfirst : (fields.zip nodes).map Prod.fst = fields := List.map_fst_zip hlength.ge
    rw [← hfirst, List.map_map] at hnames
    exact hnames
  have hmembers : readMembers fields room ((fields.zip nodes).map fun p => (some p.1.name, p.2)) []
      initial = .ok a := by
    rw [readMembers_inOrder hnames (fun p hp => (List.of_mem_zip hp).1) hparts
      fun _ _ => List.not_mem_nil]
    exact h
  rw [readRecord, hmembers]
  rfl

theorem RecordField.defaulting_read {name : String} {r : Reader β} {set : α → β → α} {room : ℕ}
    {node : Node} {b : β} (h : r room node = .ok b) (a : α) :
    (RecordField.defaulting name r set).read room node a = .ok (set a b) := by
  change r room node >>= _ = _
  rw [h]
  rfl

/-- A required field is read as one with a default is: the two differ in what an array may leave
out. -/
theorem RecordField.read_required (name : String) (r : Reader β) (set : α → β → α) :
    (RecordField.required name r set).read = (RecordField.defaulting name r set).read := rfl

/-! ## Parts -/

/-- Unsigned 64-bit integers can be written. -/
theorem Number.sound_whole {n : ℕ} (h : n < Natural.bound64) : Sound (.whole n) := by
  have hlt : n < 18446744073709551616 := h
  exact ⟨by omega, by omega⟩

namespace Reader

theorem list_node {r : Reader α} {write : α → Value} {room : ℕ} {l : List α}
    (h : ∀ a ∈ l, r room (write a).node = .ok a) :
    Reader.list r (room + 1) (Value.array (l.map write)).node = .ok l := by
  rw [Value.node, Value.itemNodes_eq, List.map_map]
  exact list_of_mapM (mapM_of_forall₂
    (List.forall₂_map_left_iff.mpr (List.forall₂_same.mpr h)))

theorem text_node (room : ℕ) (s : String) : Reader.text room (Value.text s).node = .ok s := rfl

theorem bool_node (room : ℕ) (b : Bool) : Reader.bool room (Value.bool b).node = .ok b := rfl

theorem optional_node (room : ℕ) (o : Option String) :
    Reader.optional .text room (Config.optionalText o).node = .ok o := by
  cases o <;> rfl

/-- An unsigned 64-bit integer is read from its own digits. -/
theorem natural_node {n : ℕ} (h : n < Natural.bound64) (room : ℕ) :
    Reader.natural room (Value.number (.whole n)).node = .ok n := by
  obtain ⟨-, -, -, hvalue⟩ := Number.reads_render (Number.sound_whole h)
  rw [Value.node, Reader.natural, hvalue]
  simp [Number.toNat?]

end Reader

end Json

open Json (Reader Value Node)

theorem Languages.ofList_toList (languages : Languages) : ofList languages.toList = languages := by
  rcases languages with ⟨_ | _, _ | _⟩ <;> rfl

theorem Config.readLanguage_name (room : ℕ) (language : Language) :
    readLanguage room (Value.text language.name).node = .ok language := by
  cases language <;> rfl

/-! ## Configurations -/

/-- The values of the fields of a configuration. -/
def Config.parts (config : Config) : List Value :=
  [.array (config.sources.map .text), optionalText config.target,
    .array (config.languages.toList.map fun l => .text l.name), .text config.space,
    .number (.whole config.timeout), .bool config.allowOverride, .bool config.saveSettings,
    optionalText config.baseUrl]

/-- A configuration is read from its own value. -/
theorem Config.read_toValue {config : Config} (h : config.timeout < Natural.bound64) (room : ℕ) :
    Config.read (room + 2) config.toValue.node = .ok config := by
  have hsources : Reader.list .text (room + 1) (Value.array (config.sources.map .text)).node =
      .ok config.sources := Reader.list_node fun s _ => Reader.text_node room s
  have hlanguages : Reader.list readLanguage (room + 1)
      (Value.array (config.languages.toList.map fun l => .text l.name)).node =
      .ok config.languages.toList := Reader.list_node fun l _ => readLanguage_name room l
  have hfold : (fields.zip (config.parts.map Value.node)).foldlM
      (fun a p => p.1.read (room + 1) p.2 a) {} = .ok config := by
    simp only [fields, parts, List.map_cons, List.map_nil, List.zip_cons_cons, List.zip_nil_left,
      List.foldlM_cons, List.foldlM_nil, bind, Except.bind,
      Json.RecordField.defaulting_read hsources,
      Json.RecordField.defaulting_read hlanguages,
      Json.RecordField.defaulting_read (Reader.optional_node (room + 1) _),
      Json.RecordField.defaulting_read (Reader.text_node (room + 1) _),
      Json.RecordField.defaulting_read (Reader.bool_node (room + 1) _),
      Json.RecordField.defaulting_read (Reader.natural_node h (room + 1)),
      Languages.ofList_toList]
    rfl
  exact Json.readRecord_inOrder (by decide) rfl hfold

theorem Config.fits_toValue {config : Config} (h : config.timeout < Natural.bound64) (room : ℕ) :
    config.toValue.Fits (room + 2) := by
  have hoptional : ∀ o : Option String, (optionalText o).Fits (room + 1) := by
    intro o
    cases o <;> simp [optionalText, Value.Fits]
  simp [toValue, Value.Fits, hoptional, Json.Number.sound_whole h]

/-! ## Versions -/

theorem Version.isNewer_self (v : Version) : v.isNewer v = false := by simp [Version.isNewer]

/-- No version is newer than itself. -/
theorem checkCompatible_self {version : String} {v : Version}
    (h : Version.ofText? version = some v) : checkCompatible version version = .ok () := by
  have hversion : Version.ofText version = .ok v := by rw [Version.ofText, h]
  rw [checkCompatible, hversion]
  change (if v.isNewer v = true then _ else _) = _
  rw [Version.isNewer_self]
  rfl

theorem ofText?_generatorVersion : Version.ofText? generatorVersion = some ⟨0, 3⟩ := by
  decide +kernel

/-! ## Texts -/

/-- The value that settings are kept as. -/
def Config.settingsValue (config : Config) : Value :=
  .object [("generator_version", .text generatorVersion), ("config", config.toValue)]

theorem SettingsObject.read_settingsValue {config : Config}
    (h : config.timeout < Natural.bound64) (room : ℕ) :
    SettingsObject.read (room + 3) config.settingsValue.node = .ok (generatorVersion, config) := by
  have hfold : (fields.zip [(Value.text generatorVersion).node, config.toValue.node]).foldlM
      (fun a p => p.1.read (room + 2) p.2 a) {} = .ok ⟨some generatorVersion, some config⟩ := by
    simp only [fields, List.zip_cons_cons, List.zip_nil_left, List.foldlM_cons, List.foldlM_nil,
      bind, Except.bind,
      Json.RecordField.read_required,
      Json.RecordField.defaulting_read (Reader.text_node (room + 2) _),
      Json.RecordField.defaulting_read (Config.read_toValue h room)]
    rfl
  have hrecord : Json.readRecord fields {} (room + 3) config.settingsValue.node =
      .ok ⟨some generatorVersion, some config⟩ := Json.readRecord_inOrder (by decide) rfl hfold
  rw [SettingsObject.read, hrecord]
  rfl

/-- **The text of settings** is read as the configuration that was written. -/
theorem Config.ofSettingsText_settingsText {config : Config}
    (h : config.timeout < Natural.bound64) (path : String) :
    Config.ofSettingsText path config.settingsText = .ok config := by
  have hfits : config.settingsValue.Fits Json.maxDepth := by
    simpa [settingsValue, Json.maxDepth, Value.Fits] using Config.fits_toValue h 124
  have hparse : Json.parse config.settingsText = (config.settingsValue.node, []) :=
    Json.parse_pretty hfits (by simp [Json.isSpace])
  have hdecode : Json.decode SettingsObject.read config.settingsText =
      .ok (generatorVersion, config) := by
    rw [Json.decode, hparse]
    dsimp only
    rw [Json.maxDepth, SettingsObject.read_settingsValue h 124]
    rfl
  have hcompatible := checkCompatible_self ofText?_generatorVersion
  rw [Config.ofSettingsText, hdecode]
  simp only [Except.mapError, bind, Except.bind, hcompatible]
  rfl

/-! ## Files -/

theorem run_saveSettings (path : String) (config : Config) (disk : Disk) :
    (saveSettings path config : OnDisk _).run disk =
      match disk.writeText path config.settingsText with
      | .ok written => (.ok (), written)
      | .error e => (.error (.inaccessible path e), disk) := by
  change (fun out : Except FileError Unit × Disk =>
    (out.1.mapError (SettingsError.inaccessible path), out.2))
      (OnDisk.attempt (fun disk => disk.writeText path config.settingsText) disk) = _
  rw [OnDisk.attempt]
  cases disk.writeText path config.settingsText <;> rfl

theorem run_loadSettings {path text : String} {disk : Disk} (h : disk.readText path = .ok text) :
    (loadSettings path : OnDisk _).run disk = (Config.ofSettingsText path text, disk) := by
  have hread : (Storage.readText path : OnDisk _).run disk = (.ok text, disk) :=
    congrArg (·, disk) h
  rw [loadSettings, StateT.run_bind, hread]
  rfl

/-- **Settings are read as they were kept.** Whatever the configuration and the path are, settings
that could be kept on a disk are read from it as the same configuration. The time to wait may be any
unsigned 64-bit integer. -/
theorem loadSettings_saveSettings {config : Config} (htimeout : config.timeout < Natural.bound64)
    {path : String} {disk disk' : Disk}
    (h : (saveSettings path config : OnDisk _).run disk = (.ok (), disk')) :
    (loadSettings path : OnDisk _).run disk' = (.ok config, disk') := by
  rw [run_saveSettings] at h
  split at h
  · rename_i written hwrite
    cases h
    obtain ⟨-, hholds⟩ := Disk.keeps_writeText hwrite
    rw [run_loadSettings hholds.readText, Config.ofSettingsText_settingsText htimeout]
  · cases h

/-- A configuration with texts that need escapes, no language and the longest time to wait. -/
def extremeConfig : Config where
  sources := ["", "a\"\\\n\x00\u2028é.json"]
  languages := .none
  space := ""
  timeout := 18446744073709551615
  saveSettings := true
  baseUrl := some ""

theorem loadSettings_saveSettings_extremes :
    ∃ disk, extremeConfig.timeout < Natural.bound64 ∧
      (saveSettings "out.swg.json" extremeConfig : OnDisk _).run .empty = (.ok (), disk) ∧
      (loadSettings "out.swg.json" : OnDisk _).run disk = (.ok extremeConfig, disk) := by
  have hsave : (saveSettings "out.swg.json" extremeConfig : OnDisk _).run .empty =
      (.ok (), Disk.empty.put ["out.swg.json"] (.file extremeConfig.settingsText)) := rfl
  exact ⟨_, by decide, hsave, loadSettings_saveSettings (by decide) hsave⟩

end ClientGen
