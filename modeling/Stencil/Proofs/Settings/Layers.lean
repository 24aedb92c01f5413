import Mathlib
import Stencil.Settings

/-!
# What settings hold after layers

Settings texts and files are laid over the built-in settings in order, and the overrides over all
of them, wherever they stand. So a setting holds the value of its last override; without one, that
of the last text or file that gives it one; and without that, its built-in value.

* `Setting.read?` is the value of a setting in the table that the layers make. `read?_put` and
  `read?_set` say what one section of a text, and one override, change of it.
* `Setting.read?_overlay`, `Settings.read?_foldl_overlay` and `Setting.read?_foldl_set`: what a
  whole text, all texts and files, and all overrides change of it.
* `Settings.load_of_wellTyped`: what settings hold after layers.
-/

namespace Stencil

/-! ## The last value of a list -/

/-- The value of the last element that has one. -/
def lastSome? {α β : Type} (value : α → Option β) (xs : List α) : Option β :=
  xs.reverse.findSome? value

section LastSome

variable {α β σ : Type} (value : α → Option β)

@[simp] theorem lastSome?_nil : lastSome? value [] = none := rfl

@[simp] theorem lastSome?_cons (x : α) (xs : List α) :
    lastSome? value (x :: xs) = (lastSome? value xs).or (value x) := by
  cases h : value x <;> simp [lastSome?, List.findSome?_append, h]

theorem exists_of_lastSome?_eq_some {xs : List α} {b : β} (h : lastSome? value xs = some b) :
    ∃ x ∈ xs, value x = some b := by
  obtain ⟨x, hx, hvalue⟩ := List.exists_of_findSome?_eq_some h
  exact ⟨x, List.mem_reverse.mp hx, hvalue⟩

theorem lastSome?_ne_none {x : α} {xs : List α} (hx : x ∈ xs) (h : value x ≠ none) :
    lastSome? value xs ≠ none := by
  rw [lastSome?, ne_eq, List.findSome?_eq_none_iff]
  exact fun hall => h (hall x (List.mem_reverse.mpr hx))

/-- Where each element is laid over what was there before, the last value stays. -/
theorem read_foldl (read : σ → Option β) (lay : σ → α → σ) (xs : List α)
    (h : ∀ x ∈ xs, ∀ s, read (lay s x) = (value x).or (read s)) (s : σ) :
    read (xs.foldl lay s) = (lastSome? value xs).or (read s) := by
  induction xs generalizing s with
  | nil => simp
  | cons x xs ih =>
    obtain ⟨hx, hxs⟩ := List.forall_mem_cons.mp h
    rw [List.foldl_cons, ih hxs, hx, lastSome?_cons, Option.or_assoc]

end LastSome

/-- The value of an entry, if it is that of a given key. -/
def Value.ofKey {κ : Type} [DecidableEq κ] (key : κ) (entry : κ × Value) : Option Value :=
  if entry.1 = key then some entry.2 else none

theorem Value.ofKey_eq_some {κ : Type} [DecidableEq κ] {key : κ} {entry : κ × Value}
    {value : Value} : Value.ofKey key entry = some value ↔ entry = (key, value) := by
  simp [Value.ofKey, Prod.ext_iff]

/-- What is no table is not merged with what is there. -/
theorem Value.put_of_ne_table {value : Value}
    (h : ∀ entries : List (String × Value), value ≠ .table entries) (root : Value) (key : String) :
    Value.put root key value =
      .table (Value.insert (Text.toLowerCase key) value root.entries) := by
  cases value
  case table entries => exact absurd rfl (h entries)
  all_goals simp [Value.put]

/-! ## Settings -/

/-- A single setting. -/
inductive Setting where
  | sourceName
  | prettyJson
  | labelWidth
  deriving DecidableEq

/-- The value of a setting. -/
def Settings.value (settings : Settings) : Setting → Value
  | .sourceName => .string settings.sourceName
  | .prettyJson => .bool settings.prettyJson
  | .labelWidth => .int settings.labelWidth

theorem Settings.eq_of_value {a b : Settings} (h : ∀ k, a.value k = b.value k) : a = b := by
  have hname : a.sourceName = b.sourceName := Value.string.inj (h .sourceName)
  have hflag : a.prettyJson = b.prettyJson := Value.bool.inj (h .prettyJson)
  have hwidth : a.labelWidth = b.labelWidth := Int.ofNat_inj.mp (Value.int.inj (h .labelWidth))
  cases a
  cases b
  simp_all

theorem SettingsSection.key_inj {a b : SettingsSection} : a.key = b.key ↔ a = b := by
  cases a <;> cases b <;> decide

theorem SettingsSection.toLowerCase_key (place : SettingsSection) :
    Text.toLowerCase place.key = place.key := by
  cases place <;> decide +kernel

theorem SettingsSection.parse?_key (place : SettingsSection) :
    Path.parse? place.key = some [.key place.key] := by
  cases place <;> decide

namespace Setting

/-- The section that a setting belongs to. -/
def place : Setting → SettingsSection
  | .sourceName => .parser
  | .prettyJson | .labelWidth => .output

/-- The key of a setting in its section. -/
def name : Setting → String
  | .sourceName => "source_name"
  | .prettyJson => "pretty_json"
  | .labelWidth => "truncate_labels"

/-- The key of a setting in overrides. -/
def dotted (k : Setting) : String := k.place.key ++ "." ++ k.name

/-- The path that `dotted` spells. -/
def path (k : Setting) : List Value.Step := [.key k.place.key, .key k.name]

/-- The built-in value of a setting. -/
def standard : Setting → Value
  | .sourceName => .string "<input>"
  | .prettyJson => .bool true
  | .labelWidth => .int 30

/-- Whether a value is of the type of a setting. -/
def Admits : Setting → Value → Prop
  | .sourceName, value => ∃ text, value = .string text
  | .prettyJson, value => ∃ flag, value = .bool flag
  | .labelWidth, value => ∃ n : Nat, value = .int n ∧ n < Settings.numberBound

variable {k other : Setting}

theorem admits_standard (k : Setting) : k.Admits k.standard := by
  cases k
  case sourceName => exact ⟨_, rfl⟩
  case prettyJson => exact ⟨_, rfl⟩
  case labelWidth => exact ⟨30, rfl, by decide⟩

theorem name_inj : k.name = other.name ↔ k = other := by
  cases k <;> cases other <;> decide

theorem dotted_inj : k.dotted = other.dotted ↔ k = other := by
  cases k <;> cases other <;> decide

theorem path_inj : k.path = other.path ↔ k = other := by
  constructor
  · intro h
    exact name_inj.mp (Value.Step.key.inj (List.cons.inj (List.cons.inj h).2).1)
  · exact congrArg path

theorem parse?_dotted (k : Setting) : Path.parse? k.dotted = some k.path := by
  cases k <;> decide

theorem toLowerCase_name (k : Setting) : Text.toLowerCase k.name = k.name := by
  cases k <;> decide +kernel

theorem ne_table_of_admits {value : Value} (h : k.Admits value) (entries : List (String × Value)) :
    value ≠ .table entries := by
  rintro rfl
  cases k <;> simp [Admits] at h

/-- A value of a setting takes the place of the old one. -/
theorem put_of_admits {value : Value} (h : k.Admits value) (root : Value) :
    Value.put root k.name value = .table (Value.insert k.name value root.entries) := by
  rw [Value.put_of_ne_table (ne_table_of_admits h), toLowerCase_name]

/-! ## Reading a setting -/

/-- The value of a setting in a table of sections. -/
def read? (k : Setting) (root : Value) : Option Value :=
  (Value.lookup k.place.key root.entries).bind fun inner => Value.lookup k.name inner.entries

theorem read?_builtIn (k : Setting) : k.read? Settings.builtIn = some k.standard := by
  cases k <;> rfl

/-- The section of a setting that has a value. -/
theorem exists_section {k : Setting} {root value : Value} (h : k.read? root = some value) :
    ∃ entries, Value.lookup k.place.key root.entries = some (.table entries) ∧
      Value.lookup k.name entries = some value := by
  obtain ⟨inner, hinner, hvalue⟩ := Option.bind_eq_some_iff.mp h
  cases inner
  case table entries => exact ⟨entries, hinner, hvalue⟩
  all_goals cases hvalue

/-- A section that is not there counts as one without entries. -/
theorem read?_eq_lookup (k : Setting) (root : Value) {empty : Value} (h : empty.entries = []) :
    k.read? root =
      Value.lookup k.name ((Value.lookup k.place.key root.entries).getD empty).entries := by
  rw [read?]
  cases Value.lookup k.place.key root.entries <;> simp [h]

/-- A new section changes its own settings and no others. -/
theorem read?_insert (k : Setting) (place : SettingsSection) (inner root : Value) :
    k.read? (.table (Value.insert place.key inner root.entries)) =
      if k.place = place then Value.lookup k.name inner.entries else k.read? root := by
  by_cases h : k.place = place
  · subst h
    simp [read?]
  · have hkey : k.place.key ≠ place.key := mt SettingsSection.key_inj.mp h
    simp [read?, h, Value.lookup_insert_of_ne hkey]

end Setting

/-! ## Texts -/

namespace Setting

/-- Whether entries are those of a section, with values of the types of its settings. -/
def FitSection (place : SettingsSection) (entries : List (String × Value)) : Prop :=
  ∀ entry ∈ entries, ∃ k : Setting, k.place = place ∧ entry.1 = k.name ∧ k.Admits entry.2

/-- Whether entries are those of a settings text that gives some settings values of their types,
in tables. -/
def Fit (entries : List (String × Value)) : Prop :=
  ∀ entry ∈ entries, ∃ (place : SettingsSection) (inner : List (String × Value)),
    entry = (place.key, .table inner) ∧ FitSection place inner

/-- The value that an entry gives a setting, if it is the one of its section. -/
def givenBy? (k : Setting) (entry : String × Value) : Option Value :=
  (Value.ofKey k.place.key entry).bind fun inner =>
    lastSome? (Value.ofKey k.name) inner.entries

/-- The value that the entries of a settings text give a setting. No text has a key twice; if one
had, the last would count. -/
def given? (k : Setting) (entries : List (String × Value)) : Option Value :=
  lastSome? k.givenBy? entries

theorem putAll_eq_foldl (root : Value) (entries : List (String × Value)) :
    Value.putAll root entries =
      entries.foldl (fun root entry => Value.put root entry.1 entry.2) root := by
  induction entries generalizing root with
  | nil => rfl
  | cons entry entries ih => rw [Value.putAll, ih, List.foldl_cons]

/-- Entries of a section take the places of older ones of the same keys. -/
theorem lookup_putAll {place : SettingsSection} {entries : List (String × Value)}
    (h : FitSection place entries) (name : String) (old : Value) :
    Value.lookup name (Value.putAll old entries).entries =
      (lastSome? (Value.ofKey name) entries).or (Value.lookup name old.entries) := by
  rw [putAll_eq_foldl]
  refine read_foldl (Value.ofKey name) (fun root => Value.lookup name root.entries) _ entries
    (fun entry hentry root => ?_) old
  obtain ⟨k, -, hname, hvalue⟩ := h entry hentry
  rw [hname, put_of_admits hvalue, Value.entries_table]
  by_cases hk : k.name = name
  · simp [Value.ofKey, hname, hk]
  · simp [Value.ofKey, hname, hk, Value.lookup_insert_of_ne (Ne.symm hk)]

/-- Laid over the table, a section changes the settings that it gives a value. -/
theorem read?_put (k : Setting) {place : SettingsSection} {inner : List (String × Value)}
    (h : FitSection place inner) (root : Value) :
    k.read? (Value.put root place.key (.table inner)) =
      (k.givenBy? (place.key, .table inner)).or (k.read? root) := by
  rw [Value.put, givenBy?, place.toLowerCase_key, read?_insert, lookup_putAll h]
  by_cases hplace : k.place = place
  · subst hplace
    simp [Value.ofKey, ← read?_eq_lookup k root (Value.entries_table [])]
  · have hkey : place.key ≠ k.place.key := mt SettingsSection.key_inj.mp (Ne.symm hplace)
    simp [Value.ofKey, hplace, hkey]

/-- Laid over the table, a settings text changes the settings that it gives a value. -/
theorem read?_overlay (k : Setting) {entries : List (String × Value)} (h : Fit entries)
    (root : Value) :
    k.read? (Settings.overlay root entries) = (k.given? entries).or (k.read? root) := by
  refine read_foldl k.givenBy? k.read? _ entries (fun entry hentry root => ?_) root
  obtain ⟨place, inner, rfl, hinner⟩ := h entry hentry
  simp only [place.parse?_key, Value.set]
  exact read?_put k hinner root

/-- What a settings text gives a setting is of its type. -/
theorem Fit.admits {entries : List (String × Value)} (h : Fit entries) {k : Setting}
    {value : Value} (hvalue : k.given? entries = some value) : k.Admits value := by
  obtain ⟨entry, hentry, hbind⟩ := exists_of_lastSome?_eq_some _ hvalue
  obtain ⟨place, inner, rfl, hinner⟩ := h entry hentry
  obtain ⟨_, htable, hlast⟩ := Option.bind_eq_some_iff.mp hbind
  obtain ⟨-, rfl⟩ := Prod.ext_iff.mp (Value.ofKey_eq_some.mp htable)
  obtain ⟨assigned, hassigned, hofKey⟩ := exists_of_lastSome?_eq_some _ hlast
  obtain rfl := Value.ofKey_eq_some.mp hofKey
  obtain ⟨other, -, hname, hadmits⟩ := hinner _ hassigned
  rwa [name_inj.mp hname]

/-! ## Overrides -/

theorem set_path (k : Setting) (value root : Value) :
    Value.set value k.path root =
      .table (Value.insert k.place.key
        (Value.put ((Value.lookup k.place.key root.entries).getD .nil) k.name value)
        root.entries) := by
  simp [path, Value.set, k.place.toLowerCase_key]

/-- An override of a setting changes that setting and no others. -/
theorem read?_set {other : Setting} {value : Value} (h : other.Admits value) (k : Setting)
    (root : Value) :
    k.read? (Value.set value other.path root) =
      (Value.ofKey k.path (other.path, value)).or (k.read? root) := by
  rw [set_path, read?_insert, put_of_admits h, Value.entries_table]
  by_cases hother : other = k
  · simp [Value.ofKey, hother]
  · have hpath : other.path ≠ k.path := mt path_inj.mp hother
    rw [Value.ofKey, if_neg hpath, Option.none_or]
    split
    case isTrue hplace =>
      have hname : k.name ≠ other.name := mt name_inj.mp (Ne.symm hother)
      rw [Value.lookup_insert_of_ne hname, ← hplace, ← read?_eq_lookup k root (by rfl)]
    case isFalse => rfl

/-- Whether a path leads to a setting and a value is of its type. -/
def FitPath (entry : List Value.Step × Value) : Prop :=
  ∃ k : Setting, entry.1 = k.path ∧ k.Admits entry.2

/-- Overrides, one after the other; of those of one setting only the last is left. -/
theorem read?_foldl_set (k : Setting) (entries : List (List Value.Step × Value))
    (h : ∀ entry ∈ entries, FitPath entry) (root : Value) :
    k.read? ((Settings.lastOfEach entries).foldl
        (fun root entry => Value.set entry.2 entry.1 root) root) =
      (lastSome? (Value.ofKey k.path) entries).or (k.read? root) := by
  induction entries generalizing root with
  | nil => simp [Settings.lastOfEach]
  | cons first entries ih =>
    obtain ⟨⟨other, hother, hvalue⟩, hentries⟩ := List.forall_mem_cons.mp h
    rw [Settings.lastOfEach, lastSome?_cons, Option.or_assoc]
    split
    case isTrue hany =>
      -- a later override of the same path hides the first one
      rw [ih hentries]
      by_cases hpath : first.1 = k.path
      · obtain ⟨value, hlater⟩ : ∃ value, (first.1, value) ∈ entries := by simpa using hany
        obtain ⟨_, hlast⟩ := Option.ne_none_iff_exists'.mp
          (lastSome?_ne_none (Value.ofKey k.path) hlater (by simp [Value.ofKey, hpath]))
        simp [hlast]
      · simp [Value.ofKey, hpath]
    case isFalse =>
      rw [List.foldl_cons, ih hentries, hother, read?_set hvalue, ← hother]

end Setting

/-! ## Layers -/

namespace Settings

namespace Layer

/-- The entries of the text of a layer, if it has one. -/
def entries : Layer → List (String × Value)
  | .text content | .file (some content) | .optionalFile (some content) =>
    (Toml.parse? content).getD []
  | .override .. | .file none | .optionalFile none => []

/-- The value that the text of a layer gives a setting. -/
def given? (k : Setting) (layer : Layer) : Option Value := k.given? layer.entries

/-- The value of a setting in a layer that is an override of it. -/
def overridden? (k : Setting) : Layer → Option Value
  | .override key value => Value.ofKey k.dotted (key, value)
  | _ => none

/-- Whether a layer gives values of their types to settings: a text or a file in tables, an
override to one setting. A file that has to exist does. -/
def WellTyped : Layer → Prop
  | .text content | .file (some content) | .optionalFile (some content) =>
    ∃ entries, Toml.parse? content = some entries ∧ Setting.Fit entries
  | .override key value => ∃ k : Setting, key = k.dotted ∧ k.Admits value
  | .file none => False
  | .optionalFile none => True

variable {layer : Layer}

theorem WellTyped.fit (h : layer.WellTyped) : Setting.Fit layer.entries := by
  match layer, h with
  | .text _, ⟨_, hparse, hfit⟩ | .file (some _), ⟨_, hparse, hfit⟩
  | .optionalFile (some _), ⟨_, hparse, hfit⟩ => simpa [entries, hparse] using hfit
  | .override .., _ | .optionalFile none, _ => exact List.forall_mem_nil _

theorem WellTyped.overlayLayer_eq (h : layer.WellTyped) (root : Value) :
    overlayLayer root layer = .ok (overlay root layer.entries) := by
  match layer, h with
  | .text _, ⟨_, hparse, _⟩ | .file (some _), ⟨_, hparse, _⟩
  | .optionalFile (some _), ⟨_, hparse, _⟩ => simp [overlayLayer, overlayText, entries, hparse]
  | .override .., _ | .optionalFile none, _ => rfl

theorem WellTyped.admits_of_overridden (h : layer.WellTyped) {k : Setting} {value : Value}
    (hvalue : layer.overridden? k = some value) : k.Admits value := by
  match layer, h with
  | .override key _, ⟨other, hkey, hadmits⟩ =>
    obtain ⟨hdotted, rfl⟩ := Prod.ext_iff.mp (Value.ofKey_eq_some.mp hvalue)
    rwa [← Setting.dotted_inj.mp (hkey.symm.trans hdotted)]
  | .text _, _ | .file _, _ | .optionalFile _, _ => cases hvalue

end Layer

variable {layers : List Layer}

theorem foldlM_overlayLayer (h : ∀ layer ∈ layers, layer.WellTyped) (root : Value) :
    layers.foldlM overlayLayer root =
      .ok (layers.foldl (fun root layer => overlay root layer.entries) root) := by
  induction layers generalizing root with
  | nil => rfl
  | cons layer layers ih =>
    obtain ⟨hlayer, hlayers⟩ := List.forall_mem_cons.mp h
    rw [List.foldlM_cons, hlayer.overlayLayer_eq]
    exact ih hlayers _

/-- Texts and files, one after the other. -/
theorem read?_foldl_overlay (k : Setting) (h : ∀ layer ∈ layers, layer.WellTyped) (root : Value) :
    k.read? (layers.foldl (fun root layer => overlay root layer.entries) root) =
      (lastSome? (Layer.given? k) layers).or (k.read? root) :=
  read_foldl (Layer.given? k) k.read? _ layers
    (fun layer hlayer root => k.read?_overlay (h layer hlayer).fit root) root

/-- The overrides among layers are there, in order. -/
theorem exists_overrides (h : ∀ layer ∈ layers, layer.WellTyped) :
    ∃ entries, overrides layers = .ok entries ∧ (∀ entry ∈ entries, Setting.FitPath entry) ∧
      ∀ k : Setting, lastSome? (Value.ofKey k.path) entries =
        lastSome? (Layer.overridden? k) layers := by
  induction layers with
  | nil => exact ⟨[], rfl, List.forall_mem_nil _, fun _ => rfl⟩
  | cons layer layers ih =>
    obtain ⟨hlayer, hlayers⟩ := List.forall_mem_cons.mp h
    obtain ⟨entries, hoverrides, hfit, hlast⟩ := ih hlayers
    cases layer
    case override key value =>
      obtain ⟨other, rfl, hvalue⟩ := hlayer
      refine ⟨(other.path, value) :: entries, ?_,
        List.forall_mem_cons.mpr ⟨⟨other, rfl, hvalue⟩, hfit⟩, fun k => ?_⟩
      · simp [overrides, Setting.parse?_dotted, hoverrides, Except.map]
      · simp [hlast, Layer.overridden?, Value.ofKey, Setting.dotted_inj, Setting.path_inj]
    all_goals
      refine ⟨entries, by simpa [overrides] using hoverrides, hfit, fun k => ?_⟩
      simp [hlast, Layer.overridden?]

end Settings

/-- What a setting holds after layers: the value of its last override, else what the last text or
file that gives it a value gives it, else its built-in value. -/
def Setting.after (k : Setting) (layers : List Settings.Layer) : Value :=
  ((lastSome? (Settings.Layer.overridden? k) layers).or
    (lastSome? (Settings.Layer.given? k) layers)).getD k.standard

namespace Settings

variable {layers : List Layer}

/-- No layer leaves a setting with a value that is not of its type. -/
theorem admits_after (h : ∀ layer ∈ layers, layer.WellTyped) (k : Setting) :
    k.Admits (k.after layers) := by
  rw [Setting.after]
  cases hvalue : (lastSome? (Layer.overridden? k) layers).or (lastSome? (Layer.given? k) layers)
  case none => exact k.admits_standard
  case some value =>
    obtain hoverride | ⟨-, hgiven⟩ := Option.or_eq_some_iff.mp hvalue
    · obtain ⟨layer, hlayer, hoverridden⟩ := exists_of_lastSome?_eq_some _ hoverride
      exact (h layer hlayer).admits_of_overridden hoverridden
    · obtain ⟨layer, hlayer, hlast⟩ := exists_of_lastSome?_eq_some _ hgiven
      exact (h layer hlayer).fit.admits hlast

theorem readParser_root {root : Value} {sourceName : String}
    (h : Setting.sourceName.read? root = some (.string sourceName)) :
    Settings.section? readParser .parser root = .ok sourceName := by
  obtain ⟨entries, hparser, hname⟩ := Setting.exists_section h
  simp only [Setting.place, Setting.name] at hparser hname
  simp [section?, hparser, readParser, entry?, hname, toText, required, Except.map, Bind.bind,
    Except.bind]

theorem readOutput_root {root : Value} {prettyJson : Bool} {labelWidth : Nat}
    (hpretty : Setting.prettyJson.read? root = some (.bool prettyJson))
    (hwidth : Setting.labelWidth.read? root = some (.int labelWidth)) :
    Settings.section? readOutput .output root = .ok (prettyJson, labelWidth) := by
  obtain ⟨entries, houtput, hflag⟩ := Setting.exists_section hpretty
  obtain ⟨_, hsame, hnumber⟩ := Setting.exists_section hwidth
  obtain rfl : entries = _ := by simpa using houtput.symm.trans hsame
  simp only [Setting.place, Setting.name] at houtput hflag hnumber
  simp [section?, houtput, readOutput, entry?, hflag, hnumber, toBool, toNumber, required,
    Except.map, Bind.bind, Except.bind, pure, Except.pure]

/-- Settings are read off a table in which each of them has a value of its type. -/
theorem ofValue_of_admits {root : Value} {value : Setting → Value}
    (hread : ∀ k : Setting, k.read? root = some (value k))
    (hadmits : ∀ k : Setting, k.Admits (value k)) :
    ∃ settings, ofValue root = .ok settings ∧ ∀ k, settings.value k = value k := by
  obtain ⟨sourceName, hsource⟩ := hadmits .sourceName
  obtain ⟨prettyJson, hpretty⟩ := hadmits .prettyJson
  obtain ⟨labelWidth, hwidth, -⟩ := hadmits .labelWidth
  refine ⟨⟨sourceName, prettyJson, labelWidth⟩, ?_, fun k => ?_⟩
  · have hparser : section? readParser .parser root = .ok sourceName :=
      readParser_root (by rw [hread, hsource])
    have houtput : section? readOutput .output root = .ok (prettyJson, labelWidth) :=
      readOutput_root (by rw [hread, hpretty]) (by rw [hread, hwidth])
    rw [ofValue, hparser, houtput]
    rfl
  · cases k
    case sourceName => exact hsource.symm
    case prettyJson => exact hpretty.symm
    case labelWidth => exact hwidth.symm

/-- Layers that give values of their types to settings can be read, in any order of the layers,
and each setting holds what `Setting.after` says. -/
theorem load_of_wellTyped (h : ∀ layer ∈ layers, layer.WellTyped) :
    ∃ settings, load layers = .ok settings ∧ ∀ k : Setting, settings.value k = k.after layers := by
  obtain ⟨entries, hoverrides, hfit, hlast⟩ := exists_overrides h
  have hload : load layers = ofValue ((lastOfEach entries).foldl
      (fun root entry => Value.set entry.2 entry.1 root)
      (layers.foldl (fun root layer => overlay root layer.entries) builtIn)) := by
    rw [load, hoverrides, foldlM_overlayLayer h]
    rfl
  rw [hload]
  refine ofValue_of_admits (fun k => ?_) (admits_after h)
  rw [k.read?_foldl_set entries hfit, hlast, read?_foldl_overlay k h, k.read?_builtIn,
    ← Option.or_assoc, Setting.after]
  cases (lastSome? (Layer.overridden? k) layers).or (lastSome? (Layer.given? k) layers) <;> rfl

/-- An override in front of a text that gives its setting another value, and a text that leaves one
of the settings of a section alone. -/
def interleaved : List Layer :=
  [.override "parser.source_name" (.string "page.tpl"), .text "[output]\npretty_json = false\n",
    .text "[parser]\nsource_name = \"draft\"\n"]

theorem load_interleaved :
    (∀ layer ∈ interleaved, layer.WellTyped) ∧
      load interleaved = .ok ⟨"page.tpl", false, 30⟩ := by
  have hpretty : Toml.parse? "[output]\npretty_json = false\n" =
      some [("output", .table [("pretty_json", .bool false)])] := by cbv
  have hsource : Toml.parse? "[parser]\nsource_name = \"draft\"\n" =
      some [("parser", .table [("source_name", .string "draft")])] := by cbv
  have htyped : ∀ layer ∈ interleaved, layer.WellTyped := by
    simp only [interleaved, List.forall_mem_cons]
    refine ⟨⟨.sourceName, rfl, _, rfl⟩, ⟨_, hpretty, ?_⟩, ⟨_, hsource, ?_⟩, List.forall_mem_nil _⟩
    · exact List.forall_mem_singleton.mpr ⟨.output, _, rfl,
        List.forall_mem_singleton.mpr ⟨.prettyJson, rfl, rfl, _, rfl⟩⟩
    · exact List.forall_mem_singleton.mpr ⟨.parser, _, rfl,
        List.forall_mem_singleton.mpr ⟨.sourceName, rfl, rfl, _, rfl⟩⟩
  obtain ⟨settings, hload, hvalue⟩ := load_of_wellTyped htyped
  have hafter : ∀ k, k.after interleaved = Settings.value ⟨"page.tpl", false, 30⟩ k := by
    intro k
    cases k <;>
      simp [Setting.after, interleaved, Layer.overridden?, Layer.given?, Layer.entries, hpretty,
        hsource, Setting.given?, Setting.givenBy?, Value.ofKey, Setting.dotted, Setting.place,
        Setting.name, SettingsSection.key, Setting.standard, Settings.value]
  obtain rfl := eq_of_value fun k => (hvalue k).trans (hafter k)
  exact ⟨htyped, hload⟩

end Settings

end Stencil
