import LineShell.Proofs.Entries

/-!
# Single settings

Each setting has a section, a name in it, and a way to be read. Sections whose settings can all be
read are settings, each as it is written, or else as by default.
-/

namespace LineShell.Settings

inductive Setting where
  | prompt
  | historyFile
  | historyLength
  | eraseEmptyLine
  | colours
  | level
  | format
  deriving DecidableEq

namespace Setting

def sect : Setting → String
  | level | format => "logging"
  | _ => "shell"

/-- The name of a setting in its section. -/
def name : Setting → String
  | prompt => "prompt"
  | historyFile => "history_file"
  | historyLength => "history_length"
  | eraseEmptyLine => "erase_empty_line"
  | colours => "colors"
  | level => "level"
  | format => "format"

def Value : Setting → Type
  | historyLength => Int
  | eraseEmptyLine | colours => Bool
  | _ => String

def read : (l : Setting) → Datum → Except Problem l.Value
  | prompt | historyFile | level | format => textOf
  | historyLength => wholeOf
  | eraseEmptyLine | colours => truthOf

def value? (l : Setting) (d : Datum) : Option l.Value := (l.read d).toOption

def kept : (l : Setting) → Settings → l.Value
  | prompt => (·.shell.prompt)
  | historyFile => (·.shell.historyFile)
  | historyLength => (·.shell.historyLength)
  | eraseEmptyLine => (·.shell.eraseEmptyLine)
  | colours => (·.shell.colours)
  | level => (·.log.level)
  | format => (·.log.format)

theorem sect_mem (l : Setting) : l.sect ∈ sectionNames := by
  cases l <;> decide

/-- No two settings have one name, not even in different sections. -/
theorem ext_name {l m : Setting} (name : l.name = m.name) : l = m := by
  cases l <;> cases m <;> first | rfl | exact absurd name (by decide)

end Setting

/-! ### Reading what is written -/

section Reading

variable {α : Type} {entries : Entries} {sect name : String} {read : Datum → Except Problem α}

/-- The value is the one that is written, or else the default. -/
def Takes (read : Datum → Option α) (default : α) : (written : Option Datum) → α → Prop
  | some d, value => read d = some value
  | none, value => value = default

theorem field_of_valid (default : α)
    (valid : ∀ d, valueOf? entries name = some d → (read d).toOption.isSome) :
    ∃ value, field name read default entries = (value, []) ∧
      Takes (fun d => (read d).toOption) default (valueOf? entries name) value := by
  unfold field
  cases found : valueOf? entries name with
  | none => exact ⟨default, rfl, rfl⟩
  | some d =>
      obtain ⟨value, readable⟩ := Option.isSome_iff_exists.1 (valid d found)
      cases taken : read d with
      | error problem => simp [taken, Except.toOption] at readable
      | ok value => exact ⟨value, by simp only [taken], by simp [Takes, taken, Except.toOption]⟩

/-- Whatever is found under a name is a section, and a mapping. -/
def Sectioned (entries : Entries) : Prop :=
  ∀ name d, valueOf? entries name = some d → name ∈ sectionNames ∧ ∃ inner, d = .map inner

def entriesIn (entries : Entries) (sect : String) : Entries :=
  match valueOf? entries sect with
  | some (.map inner) => inner
  | _ => []

theorem valueOf?_of_sectioned (sectioned : Sectioned entries) (sect : String) :
    valueOf? entries sect = none ∧ entriesIn entries sect = [] ∨
      valueOf? entries sect = some (.map (entriesIn entries sect)) := by
  unfold entriesIn
  cases found : valueOf? entries sect with
  | none => exact .inl ⟨rfl, rfl⟩
  | some d =>
      obtain ⟨-, inner, rfl⟩ := sectioned sect d found
      exact .inr rfl

def written (entries : Entries) (l : Setting) : Option Datum :=
  valueOf? (entriesIn entries l.sect) l.name

/-- What is written for each setting of a section can be read. -/
def Readable (entries : Entries) : Prop :=
  ∀ l d, written entries l = some d → (l.value? d).isSome

theorem readSection_of_sectioned {read : α → Entries → α × List Complaint} {default value : α}
    (sectioned : Sectioned entries) (empty : read default [] = (default, []))
    (found : read default (entriesIn entries sect) = (value, [])) :
    readSection sect read default (valueOf? entries sect) = (value, []) := by
  rcases valueOf?_of_sectioned sectioned sect with ⟨absent, none⟩ | there
  · rw [none, empty] at found
    rw [absent, ← found]
    rfl
  · rw [there]
    simp only [readSection, found, List.map_nil]

theorem shellSection_of_readable (default : Settings) (readable : Readable entries) :
    ∃ shell, shellSection default.shell (entriesIn entries "shell") = (shell, []) ∧
      ∀ l : Setting, l.sect = "shell" → ∀ log,
        Takes l.value? (l.kept default) (written entries l) (l.kept ⟨shell, log⟩) := by
  obtain ⟨prompt, h₁, t₁⟩ := field_of_valid default.shell.prompt (readable .prompt)
  obtain ⟨historyFile, h₂, t₂⟩ := field_of_valid default.shell.historyFile (readable .historyFile)
  obtain ⟨historyLength, h₃, t₃⟩ :=
    field_of_valid default.shell.historyLength (readable .historyLength)
  obtain ⟨eraseEmptyLine, h₄, t₄⟩ :=
    field_of_valid default.shell.eraseEmptyLine (readable .eraseEmptyLine)
  obtain ⟨colours, h₅, t₅⟩ := field_of_valid default.shell.colours (readable .colours)
  refine ⟨⟨prompt, historyFile, historyLength, eraseEmptyLine, colours⟩, ?_, ?_⟩
  · simp only [Setting.name, Setting.sect, Setting.read] at h₁ h₂ h₃ h₄ h₅
    simp only [shellSection, h₁, h₂, h₃, h₄, h₅, List.append_nil]
  · intro l here log
    cases l with
    | prompt => exact t₁
    | historyFile => exact t₂
    | historyLength => exact t₃
    | eraseEmptyLine => exact t₄
    | colours => exact t₅
    | level | format => exact absurd here (by decide)

theorem logSection_of_readable (default : Settings) (readable : Readable entries) :
    ∃ log, logSection default.log (entriesIn entries "logging") = (log, []) ∧
      ∀ l : Setting, l.sect = "logging" → ∀ shell,
        Takes l.value? (l.kept default) (written entries l) (l.kept ⟨shell, log⟩) := by
  obtain ⟨level, h₁, t₁⟩ := field_of_valid default.log.level (readable .level)
  obtain ⟨format, h₂, t₂⟩ := field_of_valid default.log.format (readable .format)
  refine ⟨⟨level, format⟩, ?_, ?_⟩
  · simp only [Setting.name, Setting.sect, Setting.read] at h₁ h₂
    simp only [logSection, h₁, h₂, List.append_nil]
  · intro l here shell
    cases l with
    | level => exact t₁
    | format => exact t₂
    | _ => exact absurd here (by decide)

/-- Sections whose settings can be read are settings, each as it is written. -/
theorem ofEntries_of_sectioned (default : Settings) (sectioned : Sectioned entries)
    (readable : Readable entries) :
    ∃ settings, ofEntries default entries = .ok settings ∧
      ∀ l : Setting, Takes l.value? (l.kept default) (written entries l) (l.kept settings) := by
  obtain ⟨shell, shellRead, inShell⟩ := shellSection_of_readable default readable
  obtain ⟨log, logRead, inLog⟩ := logSection_of_readable default readable
  refine ⟨⟨shell, log⟩, ?_, fun l => ?_⟩
  · simp only [ofEntries, readSection_of_sectioned sectioned rfl shellRead,
      readSection_of_sectioned sectioned rfl logRead, List.nil_append]
    rw [List.filterMap_eq_nil_iff.2]
    · rfl
    · -- No key but the names of the sections is there to complain about.
      rintro ⟨key, d⟩ member
      cases key with
      | text key =>
          have there : valueOf? entries key ≠ none := fun none =>
            valueOf?_eq_none_iff.1 none _ member rfl
          obtain ⟨value, found⟩ := Option.ne_none_iff_exists'.1 there
          simp [(sectioned key value found).1]
      | _ => rfl
  · have either : l.sect = "shell" ∨ l.sect = "logging" := by
      simpa [sectionNames] using l.sect_mem
    rcases either with here | here
    · exact inShell l here log
    · exact inLog l here shell

end Reading

end LineShell.Settings
