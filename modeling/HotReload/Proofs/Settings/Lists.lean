import HotReload.Proofs.Settings.Sections
import HotReload.Proofs.Value.Reader
import Mathlib.Data.List.Basic

/-!
# Settings that are lists

The variable of a list setting is decoded as JSON before it is split at commas. So a text with
commas counts only inside a text in JSON: as it stands it is not read as its own items, whatever
they are, and where it is not JSON there are no settings at all.
-/
namespace HotReload

namespace Field

/-- Items without a fault are texts. -/
theorem textItems_eq_ok {name : String} {n : Nat} {vs : List Value}
    (h : (textItems name n vs).faults = []) :
    vs = (textItems name n vs).value.map .text := by
  induction vs generalizing n with
  | nil => rfl
  | cons v vs ih =>
    unfold textItems at h ⊢
    cases v with
    | text s => exact congrArg (Value.text s :: ·) (ih h)
    | _ => cases h

theorem textItems_map_text (name : String) (n : Nat) (items : List String) :
    textItems name n (items.map .text) = .ok items := by
  induction items generalizing n with
  | nil => rfl
  | cons s items ih =>
    rw [List.map_cons, textItems, ih]
    rfl

end Field

namespace Settings

/-- A setting that is a list of texts. -/
inductive ListSetting where
  | ignorePatterns
  | corsOrigins

namespace ListSetting

def home : ListSetting → Section
  | ignorePatterns => watcherSection
  | corsOrigins => apiSection

def field : ListSetting → String
  | ignorePatterns => "ignore_patterns"
  | corsOrigins => "cors_origins"

def variableName : ListSetting → String
  | ignorePatterns => "WATCHER_IGNORE_PATTERNS"
  | corsOrigins => "API_CORS_ORIGINS"

def fallback : ListSetting → List String
  | ignorePatterns => defaultIgnorePatterns
  | corsOrigins => ["http://localhost:3000", "http://127.0.0.1:3000"]

def get : ListSetting → Settings → List String
  | ignorePatterns, s => s.watcher.ignorePatterns
  | corsOrigins, s => s.api.corsOrigins

def put : ListSetting → List String → Settings → Settings
  | ignorePatterns, items, s => { s with watcher.ignorePatterns := items }
  | corsOrigins, items, s => { s with api.corsOrigins := items }

/-- The items that a value stands for, the default ones when there is none. -/
def check (setting : ListSetting) : Option Value → Checked (List String)
  | none => .ok setting.fallback
  | some v => Field.texts setting.field v

/-- The items that a variable with some text stands for. -/
def decode (setting : ListSetting) (text : String) : Except SettingsFault (List String) := do
  let c := setting.check (← jsonVariable setting.field text)
  setting.home.conclude c.value c.faults

/-- The other fields of the section. -/
def others (setting : ListSetting) : List String := setting.home.fields.dropLast

end ListSetting

theorem jsonVariable_eq_ok {field text : String} {given : Option Value}
    (h : jsonVariable field text = .ok given) :
    Value.ofJson text = .ok .null ∧ given = none ∨ ∃ v,
      Value.ofJson text = .ok v ∧ given = some v := by
  unfold jsonVariable at h
  split at h
  · exact Or.inl ⟨‹_›, (Except.ok.inj h).symm⟩
  · exact Or.inr ⟨_, ‹_›, (Except.ok.inj h).symm⟩
  · cases h

/-- A text is never read as its own items: in JSON it would need quotes or
brackets more than they have. -/
theorem ListSetting.decode_ne_splitCommas (setting : ListSetting) (text : String) :
    setting.decode text ≠ .ok (Field.splitCommas text) := by
  intro h
  obtain ⟨given, hgiven, h⟩ := bind_eq_ok.mp h
  obtain ⟨hfaults, hvalue⟩ := Section.conclude_eq_ok.mp h
  have hbulk : Field.bulkOf (setting.check given).value = Field.bulk text.toList := by
    rw [hvalue, Field.bulkOf_splitCommas]
  rcases jsonVariable_eq_ok hgiven with ⟨hjson, rfl⟩ | ⟨v, hjson, rfl⟩
  · rw [Value.bulk_ofJson_null hjson] at hbulk
    cases setting <;> revert hbulk <;> decide
  · cases v with
    | list vs =>
      rw [Field.textItems_eq_ok hfaults] at hjson
      have hle := Value.bulk_ofJson_list hjson
      exact absurd hbulk (Nat.ne_of_lt hle)
    | text s =>
      have hle := Value.bulk_ofJson_text hjson
      have hsplit : Field.bulkOf (Field.splitCommas s) = Field.bulk text.toList := hbulk
      rw [Field.bulkOf_splitCommas] at hsplit
      omega
    | _ => cases hfaults

/-! Reading a section with a list setting, which is its last field and the only one in JSON. -/

theorem ListSetting.fromEnvironment_home (setting : ListSetting) (env : Environment) :
    setting.home.fromEnvironment env = (setting.home.variableOf setting.field env).map fun given =>
      setting.home.plainValues setting.others env ++ (given.map (setting.field, ·)).toList := by
  have hhome :
    { setting.home with fields := setting.others ++ [setting.field] } = setting.home := by
    cases setting <;> rfl
  have hplain : ∀ f ∈ setting.others, f ∉ setting.home.jsonFields := by
    cases setting <;> decide
  rw [← congrArg (Section.fromEnvironment · env) hhome, Section.fromEnvironment_append,
    Section.fromEnvironment_plain hplain]
  cases setting.home.variableOf setting.field env <;> rfl

theorem ListSetting.variableOf_home {setting : ListSetting} {env : Environment} {text : String}
    (h : env.get? (setting.home.stem ++ setting.field) = some text) :
    setting.home.variableOf setting.field env = jsonVariable setting.field text := by
  have hjson : setting.home.jsonFields.contains setting.field = true := by cases setting <;> decide
  unfold Section.variableOf
  rw [h, hjson]
  rfl

section Read

variable {α : Type} {values : List (String × Value)} {field name : String} {given : Option Value}
  {default : α}
  {check : String → Value → Checked α}

theorem read_append_of_ne (h : field ≠ name) :
    read (values ++ (given.map (field, ·)).toList) name default check = read values name default
      check := by
  have hnone : (given.map (field, ·)).toList.find? (·.1 = name) = none := by
    cases given <;> simp [h]
  rw [read, read, Value.field?, Value.field?, List.find?_append, hnone, Option.or_none]

theorem read_append_self (h : field ∉ values.map (·.1)) :
    read (values ++ (given.map (field, ·)).toList) field default check = given.elim (.ok default)
      (check field) := by
  have hnone : values.find? (·.1 = field) = none :=
    List.find?_eq_none.mpr fun x hx hk => h (List.mem_map.mpr ⟨x, hx, of_decide_eq_true hk⟩)
  rw [read, Value.field?, List.find?_append, hnone, Option.none_or]
  cases given <;> simp

end Read

theorem Section.map_plainValues_subset (s : Section) (fields : List String) (env : Environment) :
    (s.plainValues fields env).map (·.1) ⊆ fields := by
  intro name hn
  obtain ⟨x, hx, rfl⟩ := List.mem_map.mp hn
  obtain ⟨field, hfield, hx⟩ := List.mem_flatMap.mp hx
  obtain ⟨text, -, rfl⟩ : ∃ text, env.get? (s.stem ++ field) = some text ∧
    (field, Value.text text) = x := by
    simpa using hx
  exact hfield

theorem ListSetting.read_field (setting : ListSetting) (given : Option Value) (env : Environment) :
    read (setting.home.plainValues setting.others env ++ (given.map (setting.field, ·)).toList)
      setting.field
      setting.fallback Field.texts = setting.check given := by
  have hnot : setting.field ∉ setting.others := by cases setting <;> decide
  rw [read_append_self fun hm => hnot (Section.map_plainValues_subset _ _ _ hm)]
  cases given <;> rfl

/-- The settings of the watcher but the list, which is open. -/
def plainWatcher (env : Environment) : Checked (List String → WatcherSettings) :=
  let values := watcherSection.plainValues ListSetting.ignorePatterns.others env
  let enabled := read values "enabled" true Field.bool
  let recursive := read values "recursive" true Field.bool
  let debounceDelayMs :=
    read values "debounce_delay_ms" 100 fun n => Field.int n (some 0) (some 5000)
  { value := fun patterns =>
      { enabled := enabled.value, recursive := recursive.value
        debounceDelayMs := debounceDelayMs.value, ignorePatterns := patterns }
    faults := enabled.faults ++ recursive.faults ++ debounceDelayMs.faults }

theorem readWatcher_nil (env : Environment) : readWatcher [] env = (do
    let c := ListSetting.ignorePatterns.check (← watcherSection.variableOf "ignore_patterns" env)
    watcherSection.conclude ((plainWatcher env).value c.value)
      ((plainWatcher env).faults ++ c.faults)) := by
  rw [readWatcher, Section.values]
  have hfound := ListSetting.ignorePatterns.fromEnvironment_home env
  rw [ListSetting.home, ListSetting.field] at hfound
  rw [hfound]
  rcases watcherSection.variableOf "ignore_patterns" env with fault | given
  · rfl
  · have hlist := ListSetting.ignorePatterns.read_field given env
    rw [ListSetting.home, ListSetting.field, ListSetting.fallback] at hlist
    have henabled : "ignore_patterns" ≠ "enabled" := by decide
    have hrecursive : "ignore_patterns" ≠ "recursive" := by decide
    have hdelay : "ignore_patterns" ≠ "debounce_delay_ms" := by decide
    simp only [Except.map, bind, Except.bind, pure, Except.pure, List.nil_append, hlist,
      read_append_of_ne henabled, read_append_of_ne hrecursive, read_append_of_ne hdelay,
      Section.extras, List.filterMap_nil, List.append_nil]
    rfl

theorem readApi_nil (env : Environment) : readApi [] env = (do
    let c := ListSetting.corsOrigins.check (← apiSection.variableOf "cors_origins" env)
    apiSection.conclude { corsOrigins := c.value } c.faults) := by
  rw [readApi, Section.values]
  have hfound := ListSetting.corsOrigins.fromEnvironment_home env
  rw [ListSetting.home, ListSetting.field] at hfound
  rw [hfound]
  rcases apiSection.variableOf "cors_origins" env with fault | given
  · rfl
  · have hlist := ListSetting.corsOrigins.read_field given env
    rw [ListSetting.home, ListSetting.field, ListSetting.fallback] at hlist
    simp only [Except.map, bind, Except.bind, pure, Except.pure, List.nil_append, hlist,
      Section.extras, List.filterMap_nil, List.append_nil]

/-! Setting the variable of a list. -/

/-- The names of all variables. -/
def allNames : List String :=
  ownNames ++ scriptSection.names ++ watcherSection.names ++ apiSection.names ++
    loggingSection.names

theorem ListSetting.lower_variableName (setting : ListSetting) :
    Text.lower setting.variableName = Text.lower (setting.home.stem ++ setting.field) := by
  cases setting <;> decide +kernel

theorem ListSetting.lower_variableName_ne (setting : ListSetting) : ∀ name ∈ allNames,
    name ≠ setting.home.stem ++ setting.field →
      Text.lower setting.variableName ≠ Text.lower name := by
  cases setting <;> decide +kernel

theorem ListSetting.get?_set (setting : ListSetting) (env : Environment) (text : String) :
    Environment.get? (env ++ [(setting.variableName, text)]) (setting.home.stem ++ setting.field) =
      some text := by
  rw [Environment.get?_append_singleton, if_pos setting.lower_variableName]

theorem ListSetting.get?_set_of_ne (setting : ListSetting) (env : Environment) (text : String)
    {name : String} (hn : name ∈ allNames) (h : name ≠ setting.home.stem ++ setting.field) :
    Environment.get? (env ++ [(setting.variableName, text)]) name = env.get? name := by
  rw [Environment.get?_append_singleton, if_neg (setting.lower_variableName_ne name hn h)]

theorem ListSetting.givenSection_set (setting : ListSetting) (env : Environment) (text : String) :
    givenSection setting.home (env ++ [(setting.variableName, text)]) =
      givenSection setting.home env := by
  have hsame : Environment.get? (env ++ [(setting.variableName, text)]) setting.home.name =
      env.get? setting.home.name := by
    refine setting.get?_set_of_ne env text ?_ ?_ <;> cases setting <;> decide
  rw [givenSection, givenSection, hsame]

theorem plainWatcher_set (env : Environment) (text : String) :
    plainWatcher (env ++ [(ListSetting.ignorePatterns.variableName, text)]) = plainWatcher env := by
  have hsame : watcherSection.plainValues ListSetting.ignorePatterns.others
      (env ++ [(ListSetting.ignorePatterns.variableName, text)]) =
        watcherSection.plainValues ListSetting.ignorePatterns.others env := by
    refine List.flatMap_congr fun field hf => ?_
    rw [ListSetting.get?_set_of_ne]
    · revert field
      decide
    · revert field
      decide
  rw [plainWatcher, hsame]
  rfl

/-- Settings that are had hold the items that the variable of a list stands for. -/
theorem ListSetting.check_of_ofEnvironment {setting : ListSetting} {env : Environment}
    {s : Settings} (hs : ofEnvironment env = .ok s)
    (hg : givenSection setting.home env = .ok none) :
    ∃ given, setting.home.variableOf setting.field env = .ok given ∧
      setting.check given = .ok (setting.get s) := by
  obtain ⟨-, hwatcher, hapi, -⟩ := ofEnvironment_eq_ok.mp hs
  cases setting with
  | ignorePatterns =>
    have hread := (Section.yields_iff_of_none hg).mp hwatcher
    rw [readWatcher_nil] at hread
    obtain ⟨given, hgiven, hread⟩ := bind_eq_ok.mp hread
    obtain ⟨hfaults, hvalue⟩ := Section.conclude_eq_ok.mp hread
    refine ⟨given, hgiven, ?_⟩
    rw [Checked.eq_ok (List.append_eq_nil_iff.mp hfaults).2]
    exact congrArg Checked.ok (congrArg WatcherSettings.ignorePatterns hvalue)
  | corsOrigins =>
    have hread := (Section.yields_iff_of_none hg).mp hapi
    rw [readApi_nil] at hread
    obtain ⟨given, hgiven, hread⟩ := bind_eq_ok.mp hread
    obtain ⟨hfaults, hvalue⟩ := Section.conclude_eq_ok.mp hread
    refine ⟨given, hgiven, ?_⟩
    rw [Checked.eq_ok hfaults]
    exact congrArg Checked.ok (congrArg ApiSettings.corsOrigins hvalue)

/-- A section around the items that a text is read as, put into settings. -/
theorem ListSetting.map_conclude (setting : ListSetting) (text : String) {α : Type} {s : Settings}
    (build : List String → α) (place : α → Settings)
    (h : ∀ items, place (build items) = setting.put items s) :
    (do
      let c := setting.check (← jsonVariable setting.field text)
      setting.home.conclude (build c.value) c.faults).map place =
        (setting.decode text).map fun items => setting.put items s := by
  unfold decode
  cases jsonVariable setting.field text with
  | error fault => rfl
  | ok given =>
    simp only [bind, Except.bind]
    rw [← Section.conclude_map, ← Section.conclude_map, h]

/-- Where settings are had, setting the variable of a list changes that list
or leaves no settings. -/
theorem ListSetting.ofEnvironment_set {setting : ListSetting} {env : Environment} {s : Settings}
    (hs : ofEnvironment env = .ok s) (hg : givenSection setting.home env = .ok none)
    (text : String) :
    ofEnvironment (env ++ [(setting.variableName, text)]) =
      (setting.decode text).map fun items => setting.put items s := by
  have hg' := (setting.givenSection_set env text).trans hg
  have hvariable := setting.variableOf_home (setting.get?_set env text)
  cases setting with
  | ignorePatterns =>
    obtain ⟨-, hwatcher, -⟩ := ofEnvironment_eq_ok.mp hs
    have hread := (Section.yields_iff_of_none hg).mp hwatcher
    rw [readWatcher_nil] at hread
    obtain ⟨given, -, hread⟩ := bind_eq_ok.mp hread
    obtain ⟨hfaults, hvalue⟩ := Section.conclude_eq_ok.mp hread
    have hagree :
      Agree (ownNames ++ scriptSection.names ++ apiSection.names ++ loggingSection.names) env
        (env ++ [(ignorePatterns.variableName, text)]) := by
      intro name hn
      refine ignorePatterns.get?_set_of_ne env text ?_ ?_ <;> revert name <;> decide
    rw [home, field] at hvariable
    rw [ofEnvironment_watcher hs hagree hg', readWatcher_nil, plainWatcher_set, hvariable,
      (List.append_eq_nil_iff.mp hfaults).1]
    refine ignorePatterns.map_conclude text (plainWatcher env).value
      (fun w => { s with watcher := w }) fun items => ?_
    rw [put, ← hvalue]
    rfl
  | corsOrigins =>
    have hagree :
      Agree (ownNames ++ scriptSection.names ++ watcherSection.names ++ loggingSection.names) env
        (env ++ [(corsOrigins.variableName, text)]) := by
      intro name hn
      refine corsOrigins.get?_set_of_ne env text ?_ ?_ <;> revert name <;> decide
    rw [home, field] at hvariable
    rw [ofEnvironment_api hs hagree hg', readApi_nil, hvariable]
    exact corsOrigins.map_conclude text ApiSettings.mk (fun a => { s with api := a }) fun items =>
      rfl

/-- Where the variable of a list is not JSON, there are no settings. -/
theorem ListSetting.ofEnvironment_ne_ok {setting : ListSetting} {env : Environment}
    {text : String} (ht : env.get? setting.variableName = some text) {e}
    (hjson : Value.ofJson text = .error e) (s : Settings) :
    ofEnvironment env ≠ .ok s := by
  intro hs
  obtain ⟨-, hwatcher, hapi, -⟩ := ofEnvironment_eq_ok.mp hs
  rw [Environment.get?_congr setting.lower_variableName] at ht
  have hfault : setting.home.fromEnvironment env = .error (.unreadable setting.field) := by
    rw [fromEnvironment_home, variableOf_home ht, jsonVariable, hjson]
    rfl
  cases setting with
  | ignorePatterns => exact Section.not_yields_of_unreadable watcherSection_readBy hfault hwatcher
  | corsOrigins => exact Section.not_yields_of_unreadable apiSection_readBy hfault hapi

/-- Read from JSON, a list is had from a list of texts as well as from one text with commas. -/
theorem ListSetting.decode_json {setting : ListSetting} {json : String} {items : List String}
    {v : Value} (hjson : Value.ofJson json = .ok v) (hv : v ≠ .null)
    (hitems : Field.texts setting.field v = .ok items) :
    setting.decode json = .ok items := by
  have hvariable : jsonVariable setting.field json = .ok (some v) := by
    rw [jsonVariable, hjson]
    cases v <;> first | rfl | exact absurd rfl hv
  rw [decode, hvariable]
  simp only [bind, Except.bind, check, hitems]
  rfl

/-- Texts that are put together with commas can be told apart again, but the variable of a list is
never read as the items of its own text, and has to be JSON for there to be settings at all. It is
read as these items where JSON stands for their text or for their list. -/
theorem ListSetting.commas_count_in_json (setting : ListSetting) {pieces : List Field.CommaPiece}
    (h : ∀ x ∈ pieces, x.IsTidy) :
    Field.texts setting.field (.text (Field.joinCommas pieces)) = .ok (Field.itemsOf pieces) ∧
    (∀ env s, env.get? setting.variableName = some (Field.joinCommas pieces) →
      givenSection setting.home env = .ok none → ofEnvironment env = .ok s →
      setting.get s ≠ Field.itemsOf pieces) ∧
    (∀ e, Value.ofJson (Field.joinCommas pieces) = .error e →
      (∀ env s, env.get? setting.variableName = some (Field.joinCommas pieces) →
        ofEnvironment env ≠ .ok s) ∧
      ∀ env s, ofEnvironment env = .ok s → givenSection setting.home env = .ok none →
        ofEnvironment (env ++ [(setting.variableName, Field.joinCommas pieces)]) =
          .error (.unreadable setting.field)) ∧
    ∀ json, (Value.ofJson json = .ok (.text (Field.joinCommas pieces)) ∨
        Value.ofJson json = .ok (.strings (Field.itemsOf pieces))) →
      ∀ env s, ofEnvironment env = .ok s → givenSection setting.home env = .ok none →
        ofEnvironment (env ++ [(setting.variableName, json)]) =
          .ok (setting.put (Field.itemsOf pieces) s) := by
  have hsplit := Field.splitCommas_join h
  refine ⟨congrArg Checked.ok hsplit, fun env s ht hg hs heq => ?_,
    fun e he => ⟨fun env s ht => ?_, fun env s hs hg => ?_⟩, fun json hjson env s hs hg => ?_⟩
  · obtain ⟨given, hgiven, hcheck⟩ := check_of_ofEnvironment hs hg
    rw [Environment.get?_congr setting.lower_variableName] at ht
    rw [variableOf_home ht] at hgiven
    refine setting.decode_ne_splitCommas (Field.joinCommas pieces) ?_
    rw [decode, hgiven, hsplit, ← heq]
    simp only [bind, Except.bind, hcheck]
    rfl
  · exact ofEnvironment_ne_ok ht he s
  · rw [ofEnvironment_set hs hg, decode, jsonVariable, he]
    rfl
  · rw [ofEnvironment_set hs hg]
    rcases hjson with hjson | hjson
    · rw [decode_json hjson Value.noConfusion (congrArg Checked.ok hsplit)]
      rfl
    · rw [decode_json hjson Value.noConfusion (Field.textItems_map_text _ 0 _)]
      rfl

/-- Two patterns with blanks around a comma, and an empty one. -/
def twoPatterns : List Field.CommaPiece := [⟨"", "*.pyc", ""⟩, ⟨" ", "*.swp", " "⟩, ⟨"", "", ""⟩]

/-- Two patterns leave no settings as they stand, and count in quotes. -/
theorem ListSetting.commas_count_in_json_twoPatterns :
    Field.joinCommas twoPatterns = "*.pyc, *.swp ," ∧
    ofEnvironment [("WATCHER_IGNORE_PATTERNS", "*.pyc, *.swp ,")] = .error
      (.unreadable "ignore_patterns") ∧
    ∃ s, ofEnvironment [("WATCHER_IGNORE_PATTERNS", "\"*.pyc, *.swp ,\"")] = .ok s ∧
      s.watcher.ignorePatterns = ["*.pyc", "*.swp"] := by
  have htidy : ∀ x ∈ twoPatterns, x.IsTidy := by
    intro x hx
    constructor <;> revert x <;> decide
  obtain ⟨s, hs⟩ : ∃ s, ofEnvironment [] = .ok s := ⟨_, rfl⟩
  have hjoin : Field.joinCommas twoPatterns = "*.pyc, *.swp ," := by decide
  have hitems : Field.itemsOf twoPatterns = ["*.pyc", "*.swp"] := by decide
  obtain ⟨e, he⟩ : ∃ e, Value.ofJson (Field.joinCommas twoPatterns) = .error e := by
    rw [hjoin]
    exact ⟨_, rfl⟩
  have hquoted : Value.ofJson "\"*.pyc, *.swp ,\"" =
    .ok (.text (Field.joinCommas twoPatterns)) := by
    rw [hjoin]
    rfl
  obtain ⟨-, -, hbare, hjson⟩ := ListSetting.ignorePatterns.commas_count_in_json htidy
  have hunreadable := (hbare e he).2 [] s hs rfl
  rw [hjoin] at hunreadable
  exact ⟨hjoin, hunreadable, _, hjson _ (.inl hquoted) [] s hs rfl, hitems⟩

end Settings

end HotReload
