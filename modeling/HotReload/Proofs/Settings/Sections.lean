import HotReload.Settings.Basic
import Mathlib.Data.List.Induction

/-!
# What settings are read from

The settings of an environment are those of its sections and three more variables, and nothing
counts but the variables with their names. They are had when every section is.
-/
namespace HotReload

namespace Environment

theorem get?_append_singleton (env : Environment) (k text name : String) :
    get? (env ++ [(k, text)]) name = if Text.lower k = Text.lower name then some text
      else env.get? name := by
  rw [get?, get?, List.reverse_append, List.reverse_singleton, List.singleton_append,
    List.find?_cons]
  by_cases h : Text.lower k = Text.lower name <;> simp [h]

theorem get?_congr {name name' : String} (h : Text.lower name = Text.lower name')
    (env : Environment) :
    env.get? name = env.get? name' := by
  rw [get?, get?, h]

end Environment

theorem Checked.eq_ok {α : Type} {c : Checked α} (h : c.faults = []) : c = .ok c.value := by
  cases c
  cases h
  rfl

namespace Settings

variable {α β : Type} {env env' : Environment}

theorem bind_eq_ok {x : Except SettingsFault α} {f : α → Except SettingsFault β} {b : β} :
    x >>= f = .ok b ↔ ∃ a, x = .ok a ∧ f a = .ok b := by
  cases x <;> simp [bind, Except.bind]

theorem map_eq_ok {x : Except SettingsFault α} {f : α → β} {b : β} :
    x.map f = .ok b ↔ ∃ a, x = .ok a ∧ f a = b := by
  cases x <;> simp [Except.map]

theorem Section.conclude_eq_ok {s : Section} {x y : α} {faults : List FieldFault} :
    s.conclude x faults = .ok y ↔ faults = [] ∧ x = y := by
  cases faults <;> simp [conclude]

theorem Section.conclude_map (s : Section) (f : α → β) (x : α) (faults : List FieldFault) :
    s.conclude (f x) faults = (s.conclude x faults).map f := by
  cases faults <;> rfl

/-! Only the variables of a section count. -/

/-- The names of the variables of a section, the one for the whole section first. -/
def Section.names (s : Section) : List String := s.name :: s.fields.map (s.stem ++ ·)

/-- Whether two environments say the same about some variables. -/
def Agree (names : List String) (env env' : Environment) : Prop :=
  ∀ name ∈ names, env'.get? name = env.get? name

theorem givenSection_congr {s : Section} (h : Agree s.names env env') :
    givenSection s env' = givenSection s env := by
  rw [givenSection, givenSection, h s.name List.mem_cons_self]

theorem foldlM_congr {f g : β → α → Except SettingsFault β} {l : List α}
    (h : ∀ a ∈ l, ∀ b, f b a = g b a) (b : β) : l.foldlM f b = l.foldlM g b := by
  induction l generalizing b with
  | nil => rfl
  | cons a l ih =>
    rw [List.foldlM_cons, List.foldlM_cons, h a List.mem_cons_self]
    exact congrArg _ (funext fun b => ih (fun a ha => h a (List.mem_cons_of_mem _ ha)) b)

theorem Section.fromEnvironment_congr {s : Section} (h : Agree s.names env env') :
    s.fromEnvironment env' = s.fromEnvironment env :=
  foldlM_congr (fun field hf found => by rw [h _ (List.mem_cons_of_mem _ (List.mem_map_of_mem hf))])
    []

/-- What the variable of a field says. -/
def Section.variableOf (s : Section) (field : String) (env : Environment) :
    Except SettingsFault (Option Value) :=
  match env.get? (s.stem ++ field) with
  | none => .ok none
  | some text =>
    if s.jsonFields.contains field then jsonVariable field text else .ok (some (.text text))

theorem Section.fromEnvironment_append (s : Section) (fields : List String) (field : String)
    (env : Environment) :
    { s with fields := fields ++ [field] }.fromEnvironment env = (do
      let found ← { s with fields := fields }.fromEnvironment env
      return found ++ ((← s.variableOf field env).map (field, ·)).toList) := by
  simp only [fromEnvironment, List.foldlM_append, List.foldlM_cons, List.foldlM_nil, bind_pure]
  refine congrArg _ (funext fun found => ?_)
  unfold variableOf
  cases env.get? (s.stem ++ field) with
  | none => exact congrArg _ (List.append_nil found).symm
  | some text =>
    simp only
    split
    · refine congrArg _ (funext fun given => ?_)
      cases given with
      | none => exact congrArg _ (List.append_nil found).symm
      | some v => rfl
    · rfl

/-- What the variables of fields that are not in JSON say. -/
def Section.plainValues (s : Section) (fields : List String) (env : Environment) :
    List (String × Value) :=
  fields.flatMap fun field =>
    ((env.get? (s.stem ++ field)).map fun text => (field, Value.text text)).toList

theorem Section.fromEnvironment_plain {s : Section} {fields : List String}
    (h : ∀ f ∈ fields, f ∉ s.jsonFields) (env : Environment) :
    { s with fields := fields }.fromEnvironment env = .ok (s.plainValues fields env) := by
  induction fields using List.reverseRecOn with
  | nil => rfl
  | append_singleton fields field ih =>
    have hplain : s.variableOf field env = .ok ((env.get? (s.stem ++ field)).map .text) := by
      have hnot := h field (List.mem_append_right _ List.mem_cons_self)
      unfold variableOf
      cases env.get? (s.stem ++ field) <;> simp [hnot]
    rw [fromEnvironment_append, ih fun f hf => h f (List.mem_append_left _ hf), hplain, plainValues,
      plainValues, List.flatMap_append, List.flatMap_singleton]
    cases env.get? (s.stem ++ field) <;> rfl

/-- Whether a section is read from its values alone. -/
def Section.ReadBy (s : Section)
    (read : List (String × Value) → Environment → Except SettingsFault α) : Prop :=
  ∃ conclude : List (String × Value) → List (String × Value) → Except SettingsFault α,
    ∀ given env, read given env = s.values given env >>= conclude given

theorem scriptSection_readBy : scriptSection.ReadBy readScripts := ⟨_, fun _ _ => rfl⟩

theorem watcherSection_readBy : watcherSection.ReadBy readWatcher := ⟨_, fun _ _ => rfl⟩

theorem apiSection_readBy : apiSection.ReadBy readApi := ⟨_, fun _ _ => rfl⟩

theorem loggingSection_readBy : loggingSection.ReadBy readLogging := ⟨_, fun _ _ => rfl⟩

section Reading

variable {s : Section} {standIn x : α} {fault : SettingsFault}
  {read : List (String × Value) → Environment → Except SettingsFault α}

theorem Section.ReadBy.congr (hr : s.ReadBy read) (h : Agree s.names env env')
    (given : List (String × Value)) :
    read given env' = read given env := by
  obtain ⟨conclude, hread⟩ := hr
  rw [hread, hread, values, values, fromEnvironment_congr h]

theorem Section.ReadBy.eq_error (hr : s.ReadBy read) (h : s.fromEnvironment env = .error fault)
    (given : List (String × Value)) : read given env = .error fault := by
  obtain ⟨conclude, hread⟩ := hr
  rw [hread, values, h]
  rfl

/-! When settings are had. -/

/-- Whether a section is had from an environment. -/
def Section.Yields (s : Section) (standIn : α)
    (read : List (String × Value) → Environment → Except SettingsFault α) (env : Environment)
    (x : α) : Prop :=
  ∃ given, givenSection s env = .ok given ∧ readSection s given standIn (read · env) = .ok (.ok x)

theorem Section.Yields.congr (hr : s.ReadBy read) (h : Agree s.names env env')
    (hy : s.Yields standIn read env x) :
    s.Yields standIn read env' x := by
  have hread : (read · env') = (read · env) := funext (hr.congr h)
  rwa [Yields, givenSection_congr h, hread]

theorem Section.yields_iff_of_none (h : givenSection s env = .ok none) :
    s.Yields standIn read env x ↔ read [] env = .ok x := by
  have hread : readSection s none standIn (read · env) = .ok (.ok x) ↔ read [] env = .ok x := by
    rw [readSection, map_eq_ok]
    simp [Checked.ok]
  simp [Yields, h, hread]

theorem readSection_none_eq_error (h : read [] env = .error fault) :
    readSection s none standIn (read · env) = .error fault := by
  rw [readSection, h]
  rfl

/-- A section is not had when a variable of its own is unreadable, even when
it is given as a whole. -/
theorem Section.not_yields_of_unreadable {field : String} (hr : s.ReadBy read)
    (h : s.fromEnvironment env = .error (.unreadable field)) : ¬ s.Yields standIn read env x := by
  rintro ⟨given, -, hread⟩
  have hfault : (read · env) = fun _ => .error (.unreadable field) := funext (hr.eq_error h)
  rw [hfault] at hread
  unfold readSection at hread
  split at hread <;> cases hread

end Reading

theorem ofEnvironment_eq_ok {s : Settings} : ofEnvironment env = .ok s ↔
    scriptSection.Yields ⟨Path.parse "", "", 0, 0, ""⟩ readScripts env s.scripts ∧
    watcherSection.Yields ⟨false, false, 0, []⟩ readWatcher env s.watcher ∧
    apiSection.Yields ⟨[]⟩ readApi env s.api ∧
    loggingSection.Yields ⟨"", "", none⟩ readLogging env s.logging ∧
    s.appName = variableOr env "app_name" "ScriptWatch" ∧
    s.appVersion = variableOr env "app_version" "1.0.0" ∧
    s.environment = variableOr env "environment" "development" := by
  constructor
  · intro h
    simp only [ofEnvironment, bind_eq_ok] at h
    obtain ⟨givenScripts, hgs, givenWatcher, hgw, givenApi, hga, givenLogging, hgl,
      scripts, hs, watcher, hw, api, ha, logging, hl, h⟩ := h
    split at h
    case isTrue hnone =>
      obtain ⟨hfs, hfw, hfa, hfl⟩ : scripts.faults = [] ∧ watcher.faults = [] ∧ api.faults = [] ∧
          logging.faults = [] := by
        simpa using hnone
      rw [Checked.eq_ok hfs] at hs
      rw [Checked.eq_ok hfw] at hw
      rw [Checked.eq_ok hfa] at ha
      rw [Checked.eq_ok hfl] at hl
      cases h
      exact ⟨⟨_, hgs, hs⟩, ⟨_, hgw, hw⟩, ⟨_, hga, ha⟩, ⟨_, hgl, hl⟩, rfl, rfl, rfl⟩
    case isFalse => cases h
  · rintro ⟨⟨_, hgs, hs⟩, ⟨_, hgw, hw⟩, ⟨_, hga, ha⟩, ⟨_, hgl, hl⟩, hname, hversion, henvironment⟩
    simp only [ofEnvironment, hgs, hgw, hga, hgl, hs, hw, ha, hl, bind, Except.bind, Checked.ok,
      List.append_nil, List.isEmpty_nil, if_true, ← hname, ← hversion, ← henvironment, pure,
      Except.pure]

/-! What becomes of settings when the variables of one section are set. -/

/-- The names of the variables that are not of any section. -/
def ownNames : List String := ["app_name", "app_version", "environment"]

theorem variableOr_congr {name : String} (h : Agree ownNames env env') (hn : name ∈ ownNames)
    (default : String) :
    variableOr env' name default = variableOr env name default := by
  rw [variableOr, variableOr, h name hn]

theorem Agree.left {names names' : List String} (h : Agree (names ++ names') env env') :
    Agree names env env' :=
  fun name hn => h name (List.mem_append_left _ hn)

theorem Agree.right {names names' : List String} (h : Agree (names ++ names') env env') :
    Agree names' env env' :=
  fun name hn => h name (List.mem_append_right _ hn)

theorem ofEnvironment_watcher {s : Settings} (hs : ofEnvironment env = .ok s)
    (h : Agree (ownNames ++ scriptSection.names ++ apiSection.names ++ loggingSection.names)
      env env')
    (hg : givenSection watcherSection env' = .ok none) :
    ofEnvironment env' = (readWatcher [] env').map fun w => { s with watcher := w } := by
  obtain ⟨hscripts, -, hapi, hlogging, hname, hversion, henvironment⟩ := ofEnvironment_eq_ok.mp hs
  have hscripts' := hscripts.congr scriptSection_readBy h.left.left.right
  have hapi' := hapi.congr apiSection_readBy h.left.right
  have hlogging' := hlogging.congr loggingSection_readBy h.right
  have hown := h.left.left.left
  cases hw : readWatcher [] env' with
  | error fault =>
    obtain ⟨_, hgs, hrs⟩ := hscripts'
    obtain ⟨_, hga, -⟩ := hapi'
    obtain ⟨_, hgl, -⟩ := hlogging'
    simp only [ofEnvironment, hgs, hg, hga, hgl, hrs, readSection_none_eq_error hw, bind,
      Except.bind, Except.map]
  | ok w =>
    refine ofEnvironment_eq_ok.mpr ⟨hscripts', (Section.yields_iff_of_none hg).mpr hw, hapi',
      hlogging', hname.trans (variableOr_congr hown ?_ _).symm,
      hversion.trans (variableOr_congr hown ?_ _).symm,
      henvironment.trans (variableOr_congr hown ?_ _).symm⟩ <;> simp [ownNames]

theorem ofEnvironment_api {s : Settings} (hs : ofEnvironment env = .ok s)
    (h : Agree (ownNames ++ scriptSection.names ++ watcherSection.names ++ loggingSection.names)
      env env')
    (hg : givenSection apiSection env' = .ok none) :
    ofEnvironment env' = (readApi [] env').map fun a => { s with api := a } := by
  obtain ⟨hscripts, hwatcher, -, hlogging, hname, hversion, henvironment⟩ :=
    ofEnvironment_eq_ok.mp hs
  have hscripts' := hscripts.congr scriptSection_readBy h.left.left.right
  have hwatcher' := hwatcher.congr watcherSection_readBy h.left.right
  have hlogging' := hlogging.congr loggingSection_readBy h.right
  have hown := h.left.left.left
  cases ha : readApi [] env' with
  | error fault =>
    obtain ⟨_, hgs, hrs⟩ := hscripts'
    obtain ⟨_, hgw, hrw⟩ := hwatcher'
    obtain ⟨_, hgl, -⟩ := hlogging'
    simp only [ofEnvironment, hgs, hgw, hg, hgl, hrs, hrw, readSection_none_eq_error ha, bind,
      Except.bind, Except.map]
  | ok a =>
    refine ofEnvironment_eq_ok.mpr ⟨hscripts', hwatcher', (Section.yields_iff_of_none hg).mpr ha,
      hlogging', hname.trans (variableOr_congr hown ?_ _).symm,
      hversion.trans (variableOr_congr hown ?_ _).symm,
      henvironment.trans (variableOr_congr hown ?_ _).symm⟩ <;> simp [ownNames]

end Settings

end HotReload
