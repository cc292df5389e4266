import LineShell.Proofs.Documents
import LineShell.Proofs.Held
import LineShell.Proofs.Nodes

/-!
# Settings from several sources

A library that settings are read with looks at two sources, the entries of a file and the variables
of an environment, unites them, and builds settings from the union. If it does so as it is said to,
each setting has the value that the file gives it, or else the one that the environment gives it, or
else its default, whatever the sources say of the other settings of its section, and whether or not
they say anything of the section.
-/

namespace LineShell.Settings

/-! ### Files and environments of settings -/

def Gives (file : Entries) (l : Setting) (d : Datum) : Prop :=
  ∃ inner, (.text l.sect, .map inner) ∈ file ∧ (.text l.name, d) ∈ inner

/-- A file of settings: it has no entries but sections, these are mappings with texts for keys, and
the settings that it gives have values. -/
structure OfSettings (value? : (l : Setting) → Datum → Option l.Value) (file : Entries) : Prop where
  sections : ∀ e ∈ file, ∃ sect ∈ sectionNames, ∃ inner, e = (.text sect, .map inner) ∧ Named inner
  valid : ∀ l d, Gives file l d → (value? l d).isSome

/-- An environment whose variables for settings set single ones, and hold values of these. -/
structure OfVariables (value? : (l : Setting) → Datum → Option l.Value) (env : Environment) :
    Prop where
  single : SetsSingle env
  valid : ∀ l text, heldFor env l = some text → (value? l (.text text)).isSome

section Files

variable {value? : (l : Setting) → Datum → Option l.Value} {file : Entries}

theorem OfSettings.named (h : OfSettings value? file) : Named file := by
  intro e member
  obtain ⟨sect, -, inner, rfl, -⟩ := h.sections e member
  exact ⟨sect, rfl⟩

theorem OfSettings.section_of_valueOf? (h : OfSettings value? file) {sect : String} {d : Datum}
    (found : valueOf? file sect = some d) :
    sect ∈ sectionNames ∧ ∃ inner, d = .map inner ∧ Named inner := by
  obtain ⟨_, among, inner, same, named⟩ := h.sections _ (mem_of_valueOf? found)
  cases same
  exact ⟨among, inner, rfl, named⟩

theorem OfSettings.sectioned (h : OfSettings value? file) : Sectioned file := by
  intro sect d found
  obtain ⟨among, inner, same, -⟩ := h.section_of_valueOf? found
  exact ⟨among, inner, same⟩

theorem written_eq_some_iff (h : OfSettings value? file) (keyed : Keyed file) {l : Setting}
    {d : Datum} : written file l = some d ↔ Gives file l d := by
  unfold written
  constructor
  · intro given
    rcases valueOf?_of_sectioned h.sectioned l.sect with ⟨-, none⟩ | there
    · rw [none] at given
      cases given
    · exact ⟨_, mem_of_valueOf? there, mem_of_valueOf? given⟩
  · rintro ⟨inner, there, given⟩
    have here : entriesIn file l.sect = inner := by
      unfold entriesIn
      rw [valueOf?_of_mem keyed.distinct there]
    rw [here]
    exact valueOf?_of_mem (keyed.inner _ there inner rfl) given

theorem entriesOf_of_settings (h : OfSettings value? file) (path : Path) :
    entriesOf path (.map file) = .ok file := by
  unfold entriesOf
  split
  · rename_i empty
    rw [List.isEmpty_iff.1 empty]
  · simp only
    rw [if_pos]
    refine List.all_eq_true.2 fun e member => ?_
    obtain ⟨sect, -, inner, rfl, -⟩ := h.sections e member
    rfl

end Files

/-! ### Libraries -/

/-- What a library does with its sources. -/
structure Parts (ε : Type) where
  /-- The entries that variables stand for. -/
  entries : Environment → Entries
  union : (lower upper : Entries) → Entries
  build : (default : Settings) → Entries → Except ε Settings
  /-- The value that something written stands for. -/
  value? : (l : Setting) → Datum → Option l.Value

section Libraries

variable {ε : Type} {lib : Library ε} {parts : Parts ε}

/-- Of two values the upper one, but of two mappings their union. -/
def Parts.over (parts : Parts ε) (lower : Option Datum) : (upper : Option Datum) → Option Datum
  | none => lower
  | some (.map more) =>
    match lower with
    | some (.map inner) => some (.map (parts.union inner more))
    | _ => some (.map more)
  | some d => some d

/-- A library does what it is said to do. -/
structure Parts.Describe (parts : Parts ε) (lib : Library ε) : Prop where
  /-- No mapping has a key twice. -/
  keyed : ∀ bytes file, lib.document bytes = .ok (.map file) → Keyed file
  /-- The entries of the file have priority over the variables. -/
  sources : ∀ default env file, SetsSingle env → Named file → Sectioned file →
    lib.settings default env file = parts.build default (parts.union (parts.entries env) file)
  /-- The variable of a setting stands for a text under its name, in its section. -/
  entries : ∀ env, SetsSingle env → Sectioned (parts.entries env) ∧
    ∀ l : Setting, written (parts.entries env) l = (heldFor env l).map .text
  /-- Sources are united name by name, and so are mappings in them. -/
  union : ∀ lower upper, Distinct upper → Named upper → ∀ name,
    valueOf? (parts.union lower upper) name = parts.over (valueOf? lower name) (valueOf? upper name)
  /-- Each setting is built from what is written for it, or is as by default. -/
  build : ∀ default entries, Sectioned entries →
    (∀ l d, written entries l = some d → (parts.value? l d).isSome) →
    ∃ settings, parts.build default entries = .ok settings ∧ ∀ l : Setting,
      Takes (parts.value? l) (l.kept default) (written entries l) (l.kept settings)

variable {file found : Entries}

theorem Parts.over_of_text {lower : Option Datum} (plain : ∀ inner, lower ≠ some (.map inner))
    (upper : Option Datum) : parts.over lower upper = upper.or lower := by
  unfold Parts.over
  split
  · rw [Option.none_or]
  · split
    · rename_i inner
      exact absurd rfl (plain inner)
    · rw [Option.some_or]
  · rw [Option.some_or]

theorem Parts.Describe.sectioned_union (described : parts.Describe lib)
    (h : OfSettings parts.value? file) (distinct : Distinct file) (sectioned : Sectioned found) :
    Sectioned (parts.union found file) := by
  intro sect d there
  rw [described.union found file distinct h.named] at there
  cases inFile : valueOf? file sect with
  | none =>
      rw [inFile] at there
      exact sectioned sect d there
  | some value =>
      obtain ⟨among, inner, rfl, -⟩ := h.section_of_valueOf? inFile
      refine ⟨among, ?_⟩
      rw [inFile] at there
      simp only [Parts.over] at there
      split at there
      · exact ⟨_, (Option.some.inj there).symm⟩
      · exact ⟨_, (Option.some.inj there).symm⟩

/-- The union of the sources, setting by setting: that of the file wins. -/
theorem Parts.Describe.written_union (described : parts.Describe lib)
    (h : OfSettings parts.value? file) (keyed : Keyed file) (sectioned : Sectioned found)
    (plain : ∀ l inner, written found l ≠ some (.map inner)) (l : Setting) :
    written (parts.union found file) l = (written file l).or (written found l) := by
  have merged := described.union found file keyed.distinct h.named l.sect
  rcases valueOf?_of_sectioned h.sectioned l.sect with ⟨unset, none⟩ | there
  · have same : entriesIn (parts.union found file) l.sect = entriesIn found l.sect := by
      rw [unset] at merged
      unfold entriesIn
      rw [merged]
      rfl
    simp only [written, same, none, valueOf?, List.find?_nil, Option.map_none, Option.none_or]
  · obtain ⟨-, inner, same, named⟩ := h.section_of_valueOf? there
    obtain rfl := Datum.map.inj same
    have distinct := keyed.inner _ (mem_of_valueOf? there) _ rfl
    rw [there] at merged
    rcases valueOf?_of_sectioned sectioned l.sect with ⟨unset, none⟩ | below
    · -- The environment has no such section, so that of the file stays.
      have same : entriesIn (parts.union found file) l.sect = entriesIn file l.sect := by
        rw [entriesIn, merged, unset]
        rfl
      simp only [written, same, none, valueOf?, List.find?_nil, Option.map_none, Option.or_none]
    · have same : entriesIn (parts.union found file) l.sect =
          parts.union (entriesIn found l.sect) (entriesIn file l.sect) := by
        rw [entriesIn, merged, below]
        rfl
      rw [written, same, described.union _ _ distinct named]
      exact over_of_text (plain l) _

/-- From a file of settings and the variables of settings each setting takes its value. -/
theorem Parts.Describe.settings_of_sources (described : parts.Describe lib) {env : Environment}
    (default : Settings) (h : OfSettings parts.value? file) (keyed : Keyed file)
    (meant : OfVariables parts.value? env) :
    ∃ settings, lib.settings default env file = .ok settings ∧ ∀ l : Setting,
      Takes (parts.value? l) (l.kept default) ((written file l).or ((heldFor env l).map .text))
        (l.kept settings) := by
  obtain ⟨sectioned, texts⟩ := described.entries env meant.single
  have plain : ∀ l inner, written (parts.entries env) l ≠ some (.map inner) := by
    intro l inner same
    rw [texts] at same
    cases held : heldFor env l <;> simp [held] at same
  have union := described.written_union h keyed sectioned plain
  have readable : ∀ l d, written (parts.union (parts.entries env) file) l = some d →
      (parts.value? l d).isSome := by
    intro l d given
    rw [union, texts] at given
    cases inFile : written file l with
    | some value =>
        rw [inFile, Option.some_or, Option.some_inj] at given
        subst given
        exact h.valid l value ((written_eq_some_iff h keyed).1 inFile)
    | none =>
        rw [inFile, Option.none_or] at given
        obtain ⟨text, held, rfl⟩ := Option.map_eq_some_iff.1 given
        exact meant.valid l text held
  obtain ⟨settings, taken, each⟩ := described.build default _
    (described.sectioned_union h keyed.distinct sectioned) readable
  refine ⟨settings, ?_, fun l => ?_⟩
  · rw [described.sources default env file meant.single h.named h.sectioned, taken]
  · rw [← texts, ← union]
    exact each l

end Libraries

/-! ### The library at hand -/

/-- Gives a section its proper name, if it is named in another case only. -/
def properSection (entries : Entries) (sect : String) : Entries :=
  if (valueOf? entries sect).isSome then entries
  else
    match entries.find? fun e => e.1.plain.toLower = sect with
    | some e => entries.map fun other =>
        if other.1.plain = e.1.plain then (.text sect, other.2) else other
    | none => entries

theorem properSection_of_sectioned {file : Entries} (named : Named file)
    (sectioned : Sectioned file) (sect : String) : properSection file sect = file := by
  unfold properSection
  split
  · rfl
  · rename_i unset
    rw [Bool.not_eq_true, Option.isSome_eq_false_iff, Option.isNone_iff_eq_none] at unset
    have unlike : (file.find? fun e => e.1.plain.toLower = sect) = none := by
      refine List.find?_eq_none.2 fun e member => ?_
      obtain ⟨other, key⟩ := named e member
      have there : valueOf? file other ≠ none := fun none =>
        valueOf?_eq_none_iff.1 none e member key
      obtain ⟨d, found⟩ := Option.ne_none_iff_exists'.1 there
      have lower : other.toLower = other := by
        have known := (sectioned other d found).1
        simp only [sectionNames, List.mem_cons, List.not_mem_nil, or_false] at known
        rcases known with rfl | rfl <;> decide +kernel
      simp only [key, Datum.plain, lower, decide_eq_true_eq]
      rintro rfl
      exact there unset
    rw [unlike]

/-- Sections may have their proper names already. -/
theorem properSections_of_sectioned {file : Entries} (named : Named file)
    (sectioned : Sectioned file) : properSections file = file := by
  have folded : properSections file = sectionNames.foldl properSection file := rfl
  rw [folded]
  simp only [sectionNames, List.foldl_cons, List.foldl_nil,
    properSection_of_sectioned named sectioned]

def Parts.standard : Parts LoadFault where
  entries env := (ofEnvironment env).toOption.getD []
  union := Settings.union
  build default entries := (ofEntries default entries).mapError .invalid
  value? := Setting.value?

theorem over_standard (lower upper : Option Datum) :
    Parts.standard.over lower upper = (upper.map (joined lower)).or lower := by
  unfold Parts.over
  split
  · rfl
  · split
    · rw [Option.map_some, joined_map]
      rfl
    · rename_i plain
      rw [Option.map_some, joined_of_text plain]
      rfl
  · rename_i other
    rw [Option.map_some, joined]
    · rfl
    · exact other

theorem describe_standard : Parts.standard.Describe .standard where
  keyed bytes file := Library.keyed_of_document
  sources default env file single named sectioned := by
    obtain ⟨found, held, -⟩ := ofEnvironment_of_single single
    simp only [Library.standard, Parts.standard, ofSources, held, Except.toOption,
      Option.getD_some, properSections_of_sectioned named sectioned]
    cases ofEntries default (Settings.union found file) <;> rfl
  entries env single := by
    obtain ⟨found, held, sectioned, texts⟩ := ofEnvironment_of_single single
    simp only [Parts.standard, held]
    exact ⟨sectioned, texts⟩
  union lower upper distinct named name := by
    rw [over_standard]
    exact valueOf?_union distinct named lower name
  build default entries sectioned readable := by
    obtain ⟨settings, taken, each⟩ := ofEntries_of_sectioned default sectioned readable
    refine ⟨settings, ?_, each⟩
    simp only [Parts.standard, taken]
    rfl

/-! ### The law -/

/-- The law of a setting where settings are loaded from a file and the environment. -/
structure LayerLaw (value? : (l : Setting) → Datum → Option l.Value) (file : Entries)
    (env : Environment) (default settings : Settings) (l : Setting) : Prop where
  /-- It has the value of the file, if the file gives it one. -/
  given : ∀ d, Gives file l d → value? l d = some (l.kept settings)
  /-- Otherwise it has the value of its variable, if there is one. -/
  held : (∀ d, ¬ Gives file l d) → ∀ text, heldFor env l = some text →
    value? l (.text text) = some (l.kept settings)
  /-- Otherwise it has its default. -/
  unset : (∀ d, ¬ Gives file l d) → heldFor env l = none → l.kept settings = l.kept default

/-- A file of settings can be loaded in an environment of settings, and each setting has its value
from the first source that gives it one. -/
theorem layerLaw {ε : Type} {own : LoadFault → ε} {lib : Library ε} {parts : Parts ε}
    (described : parts.Describe lib) {store : Files.Store} {env : Environment}
    {places : UserPlaces} {named : Option String} {path : Path} {file : Entries}
    (holds : Holds lib store places named path (.map file))
    (settings : OfSettings parts.value? file) (meant : OfVariables parts.value? env) :
    ∃ loaded, loadWith own lib store env places named = .ok loaded ∧
      ∀ l : Setting, LayerLaw parts.value? file env (Settings.default places) loaded l := by
  obtain ⟨bytes, -, read⟩ := holds.read
  have keyed := described.keyed bytes file read
  obtain ⟨loaded, taken, each⟩ :=
    described.settings_of_sources (Settings.default places) settings keyed meant
  refine ⟨loaded, ?_, fun l => ?_⟩
  · rw [loadWith_of_holds holds, entriesOf_of_settings settings]
    exact taken
  · have gives : ∀ d, written file l = some d ↔ Gives file l d :=
      fun d => written_eq_some_iff settings keyed
    have absent : (∀ d, ¬ Gives file l d) → written file l = none := fun none =>
      Option.eq_none_iff_forall_ne_some.2 fun d some => none d ((gives d).1 some)
    have takes := each l
    constructor
    case given =>
      intro d given
      rwa [(gives d).2 given] at takes
    case held =>
      intro none text held
      rwa [absent none, held] at takes
    case unset =>
      intro none unset
      rwa [absent none, unset] at takes

def promptFile : Entries :=
  [(.text "shell", .map [(.text "prompt", .text "$"), (.text "colors", .bool false)])]

def storeOfPrompt : Files.Store :=
  { nodes := [(["a.yaml"], .file (Text.Utf8.encode "shell: {prompt: $, colors: no}\n".toList))] }

def promptVariables : Environment :=
  [("PATH", "/bin"), ("CMDSHELL_SHELL__PROMPT", "% "), ("CMDSHELL_SHELL__HISTORY_LENGTH", "5"),
    ("CMDSHELL_LOGGING__LEVEL", "DEBUG")]

def promptTexts : Setting → Option String
  | .prompt => some "% "
  | .historyLength => some "5"
  | .level => some "DEBUG"
  | _ => none

theorem heldFor_promptVariables (l : Setting) : heldFor promptVariables l = promptTexts l := by
  cases l <;> decide +kernel

theorem ofVariables_promptVariables : OfVariables Setting.value? promptVariables where
  single := by
    intro v member rest meant
    simp only [promptVariables, List.mem_cons, List.not_mem_nil, or_false] at member
    rcases member with rfl | rfl | rfl | rfl
    · have other : "PATH".toLower.toList.head? ≠ (variableLead ++ rest).toList.head? := by
        have first : variableLead.toList.head? = some 'c' := by decide +kernel
        rw [String.toList_append, List.head?_append, first, Option.some_or]
        decide +kernel
      exact absurd (congrArg (·.toList.head?) meant) other
    · exact ⟨.prompt, by decide +kernel⟩
    · exact ⟨.historyLength, by decide +kernel⟩
    · exact ⟨.level, by decide +kernel⟩
  valid := by
    intro l text held
    rw [heldFor_promptVariables] at held
    cases l <;> cases held <;> decide +kernel

theorem gives_promptFile {l : Setting} {d : Datum} : Gives promptFile l d ↔
    l = .prompt ∧ d = .text "$" ∨ l = .colours ∧ d = .bool false := by
  cases l <;> simp [Gives, promptFile, Setting.sect, Setting.name]

theorem ofSettings_promptFile : OfSettings Setting.value? promptFile where
  sections := by
    intro e member
    obtain rfl := List.mem_singleton.1 member
    refine ⟨"shell", by decide, _, rfl, fun f member => ?_⟩
    simp only [List.mem_cons, List.not_mem_nil, or_false] at member
    rcases member with rfl | rfl
    · exact ⟨_, rfl⟩
    · exact ⟨_, rfl⟩
  valid := by
    intro l d given
    rcases gives_promptFile.1 given with ⟨rfl, rfl⟩ | ⟨rfl, rfl⟩ <;> rfl

def isPromptFile : Datum → Bool
  | .map [(.text sect, .map [(.text first, .text prompt), (.text second, .bool colours)])] =>
    sect = "shell" && first = "prompt" && prompt = "$" && second = "colors" && !colours
  | _ => false

theorem eq_of_isPromptFile {d : Datum} (seen : isPromptFile d = true) : d = .map promptFile := by
  unfold isPromptFile at seen
  split at seen
  · simp only [Bool.and_eq_true, decide_eq_true_eq, Bool.not_eq_true'] at seen
    obtain ⟨⟨⟨⟨rfl, rfl⟩, rfl⟩, rfl⟩, rfl⟩ := seen
    rfl
  · cases seen

theorem holds_storeOfPrompt : Holds .standard storeOfPrompt listPlaces (some "a.yaml")
    ⟨0, ["a.yaml"]⟩ (.map promptFile) := by
  have chosen : filePath storeOfPrompt listPlaces (some "a.yaml") = .ok ⟨0, ["a.yaml"]⟩ :=
    Except.eq_ok_of_toOption (by decide +kernel)
  obtain ⟨d, holds, seen⟩ := exists_holds .standard chosen (by decide +kernel) isPromptFile
    (by decide +kernel)
  exact eq_of_isPromptFile seen ▸ holds

/-- The file gives the prompt, although there is a variable for it, and colours; the variables give
the length of the history, in the section of the file, and the level of the log; the rest is as by
default. -/
theorem loads_storeOfPrompt : ∃ loaded,
    load storeOfPrompt promptVariables listPlaces (some "a.yaml") = .ok loaded ∧
      loaded.shell.prompt = "$" ∧ loaded.shell.colours = false ∧
      loaded.shell.historyLength = 5 ∧ loaded.log.level = "DEBUG" ∧
      loaded.shell.eraseEmptyLine = true ∧ loaded.log.format = "console" := by
  have loads : ∃ loaded,
      load storeOfPrompt promptVariables listPlaces (some "a.yaml") = .ok loaded ∧ ∀ l,
        LayerLaw Setting.value? promptFile promptVariables (Settings.default listPlaces) loaded l :=
    layerLaw describe_standard holds_storeOfPrompt ofSettings_promptFile
      ofVariables_promptVariables
  obtain ⟨loaded, taken, law⟩ := loads
  have given := fun l d (h : Gives promptFile l d) => (law l).given d h
  have ungiven : ∀ {l : Setting}, l ≠ .prompt → l ≠ .colours → ∀ d, ¬ Gives promptFile l d := by
    intro l prompt colours d h
    rcases gives_promptFile.1 h with ⟨same, -⟩ | ⟨same, -⟩
    · exact prompt same
    · exact colours same
  refine ⟨loaded, taken, ?_, ?_, ?_, ?_, ?_, ?_⟩
  · exact (Option.some.inj (given .prompt _ (gives_promptFile.2 (.inl ⟨rfl, rfl⟩)))).symm
  · exact (Option.some.inj (given .colours _ (gives_promptFile.2 (.inr ⟨rfl, rfl⟩)))).symm
  · have held := (law .historyLength).held (ungiven (by decide) (by decide)) "5"
      (heldFor_promptVariables _)
    have five : (wholeOf (.text "5")).toOption = some 5 := by decide +kernel
    exact (Option.some.inj (five.symm.trans held)).symm
  · exact (Option.some.inj ((law .level).held (ungiven (by decide) (by decide)) "DEBUG"
      (heldFor_promptVariables _))).symm
  · exact (law .eraseEmptyLine).unset (ungiven (by decide) (by decide)) (heldFor_promptVariables _)
  · exact (law .format).unset (ungiven (by decide) (by decide)) (heldFor_promptVariables _)

end LineShell.Settings
