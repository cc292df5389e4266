import LineShell.Proofs.SingleSettings
import LineShell.Proofs.Variables

/-!
# Settings in variables

What the environment says of the settings, where each of the variables that are meant for settings
sets a single one: for each setting the text of its variable, in its section.
-/

namespace LineShell.Settings

def lastNamed (env : Environment) (name : String) : Option String :=
  (env.filter fun v => v.1 = name).getLast?.map Prod.snd

/-- The name of the variable of a setting, in lower case. -/
def Setting.variable (l : Setting) : String :=
  variableLead ++ l.sect ++ nesting ++ l.name

theorem Setting.variable_injective {l m : Setting} (same : l.variable = m.variable) : l = m := by
  cases l <;> cases m <;> first | rfl | exact absurd same (by decide)

/-- What the environment holds for a setting. Its variable may be named in any case, and of several
the last one counts. -/
def heldFor (env : Environment) (l : Setting) : Option String :=
  (env.filter fun v => v.1.toLower = l.variable).getLast?.map Prod.snd

/-- Of the variables that are meant for settings each sets a single one. -/
def SetsSingle (env : Environment) : Prop :=
  ∀ v ∈ env, ∀ rest, v.1.toLower = variableLead ++ rest → ∃ l : Setting, v.1.toLower = l.variable

section Variables

variable {env : Environment} {v : String × String} {name sect : String} {entries : Entries}
  {l : Setting}

theorem lastNamed_cons (v : String × String) (env : Environment) (name : String) :
    lastNamed (v :: env) name =
      (lastNamed env name).or (if v.1 = name then some v.2 else none) := by
  unfold lastNamed
  by_cases same : v.1 = name
  · rw [List.filter_cons_of_pos (by simpa using same), List.getLast?_cons]
    cases (env.filter fun v => v.1 = name).getLast? <;> simp [same]
  · rw [List.filter_cons_of_neg (by simpa using same)]
    simp [same]

theorem lastNamed_eq_none_iff : lastNamed env name = none ↔ ∀ v ∈ env, v.1 ≠ name := by
  unfold lastNamed
  simp

theorem lastNamed_putLowered (all : Environment) (v : String × String) (name : String) :
    lastNamed (putLowered all v) name =
      if v.1.toLower = name then some v.2 else lastNamed all name := by
  have replaced : lastNamed
      (all.map fun w => if w.1 = v.1.toLower then (v.1.toLower, v.2) else w) name =
        (lastNamed all name).map fun text => if v.1.toLower = name then v.2 else text := by
    induction all with
    | nil => rfl
    | cons w all ih =>
        rw [List.map_cons, lastNamed_cons, lastNamed_cons, ih]
        by_cases here : w.1 = v.1.toLower
        · rw [if_pos here, here]
          by_cases same : v.1.toLower = name
          · cases lastNamed all name <;> simp [same]
          · simp [same]
        · rw [if_neg here]
          by_cases same : v.1.toLower = name
          · have other : ¬ w.1 = name := fun equal => here (equal.trans same.symm)
            simp [same, other]
          · simp [same]
  unfold putLowered
  split
  · rename_i there
    obtain ⟨w, member, here⟩ := List.any_eq_true.1 there
    rw [replaced]
    by_cases same : v.1.toLower = name
    · have some : lastNamed all name ≠ none := by
        intro none
        exact lastNamed_eq_none_iff.1 none w member ((of_decide_eq_true here).trans same)
      obtain ⟨text, found⟩ := Option.ne_none_iff_exists'.1 some
      simp [found, same]
    · simp [same]
  · unfold lastNamed
    by_cases same : v.1.toLower = name <;> simp [List.filter_append, same]

theorem lastNamed_lowered (env : Environment) (l : Setting) :
    lastNamed (lowered env) l.variable = heldFor env l := by
  -- Any variables may have been put before.
  suffices h : ∀ all, lastNamed (env.foldl putLowered all) l.variable =
      (heldFor env l).or (lastNamed all l.variable) by
    have folded : lowered env = env.foldl putLowered [] := rfl
    rw [folded, h]
    exact Option.or_none
  induction env with
  | nil => exact fun all => rfl
  | cons v env ih =>
      intro all
      rw [List.foldl_cons, ih, lastNamed_putLowered]
      unfold heldFor
      by_cases same : v.1.toLower = l.variable
      · rw [List.filter_cons_of_pos (by simpa using same), List.getLast?_cons, if_pos same]
        cases (env.filter fun v => v.1.toLower = l.variable).getLast? <;> rfl
      · rw [List.filter_cons_of_neg (by simpa using same), if_neg same]

/-! ### The variables of a section -/

theorem path_variable (l : Setting) :
    (l.variable.dropPrefix? (variableLead ++ l.sect ++ nesting)).map
      (fun rest => nestedNames [] rest.copy.toList) = some [l.name] := by
  cases l <;> decide +kernel

theorem variable_of_other (l : Setting) (among : sect ∈ sectionNames) (other : l.sect ≠ sect) :
    (l.variable.dropPrefix? (variableLead ++ sect ++ nesting)).isNone = true := by
  simp only [sectionNames, List.mem_cons, List.not_mem_nil, or_false] at among
  rcases among with rfl | rfl <;> cases l <;> first | exact absurd rfl other | decide +kernel

/-- The entries of a section, each for one of its settings and with the text of a variable. -/
structure FromVariables (sect : String) (entries : Entries) : Prop where
  distinct : Distinct entries
  each : ∀ e ∈ entries, ∃ l : Setting, l.sect = sect ∧ ∃ text, e = (.text l.name, .text text)

theorem FromVariables.nil (sect : String) : FromVariables sect [] :=
  ⟨List.Pairwise.nil, fun _ member => (nomatch member)⟩

theorem FromVariables.put (h : FromVariables l.sect entries) (text : String) :
    FromVariables l.sect (put entries l.name (.text text)) where
  distinct := h.distinct.put ..
  each e member := by
    rcases mem_put member with rfl | before
    · exact ⟨l, rfl, text, rfl⟩
    · exact h.each e before

def putVariable (sect : String) (found : Entries) (v : String × String) : Entries :=
  match v.1.dropPrefix? (variableLead ++ sect ++ nesting) with
  | some rest => putAt found v.2 (nestedNames [] rest.copy.toList)
  | none => found

theorem putVariable_of_lead (other : ∀ rest, v.1 ≠ variableLead ++ rest) (sect : String)
    (found : Entries) : putVariable sect found v = found := by
  unfold putVariable
  split
  · rename_i rest dropped
    have whole := String.eq_append_of_dropPrefix?_string_eq_some dropped
    rw [String.append_assoc, String.append_assoc] at whole
    exact absurd whole (other _)
  · rfl

theorem putVariable_of_variable (among : sect ∈ sectionNames) (named : v.1 = l.variable)
    (found : Entries) : putVariable sect found v =
      if l.sect = sect then put found l.name (.text v.2) else found := by
  unfold putVariable
  rw [named]
  by_cases here : l.sect = sect
  · subst here
    obtain ⟨rest, dropped, path⟩ := Option.map_eq_some_iff.1 (path_variable l)
    simp only [dropped, path, if_true]
    rfl
  · have none := Option.isNone_iff_eq_none.1 (variable_of_other l among here)
    simp only [none, if_neg here]

/-- A variable, its name being in lower case, sets a single setting if it is meant for any. -/
def LowerSingle (v : String × String) : Prop :=
  (∀ rest, v.1 ≠ variableLead ++ rest) ∨ ∃ l : Setting, v.1 = l.variable

theorem FromVariables.putVariable (single : LowerSingle v) (among : sect ∈ sectionNames)
    (h : FromVariables sect entries) : FromVariables sect (putVariable sect entries v) := by
  rcases single with other | ⟨l, named⟩
  · rwa [putVariable_of_lead other]
  · rw [putVariable_of_variable among named]
    split
    · rename_i here
      subst here
      exact h.put v.2
    · exact h

theorem valueOf?_putVariable (single : LowerSingle v) (l : Setting) (found : Entries) :
    valueOf? (putVariable l.sect found v) l.name =
      if v.1 = l.variable then some (.text v.2) else valueOf? found l.name := by
  rcases single with other | ⟨m, named⟩
  · have differs : ¬ v.1 = l.variable := fun same =>
      other (l.sect ++ nesting ++ l.name) (by simp [same, Setting.variable, String.append_assoc])
    rw [putVariable_of_lead other, if_neg differs]
  · rw [putVariable_of_variable l.sect_mem named, named]
    by_cases equal : m = l
    · subst equal
      simp [valueOf?_put]
    · have differs : ¬ m.variable = l.variable := fun same =>
        equal (Setting.variable_injective same)
      rw [if_neg differs]
      have names : ¬ m.name = l.name := fun same => equal (Setting.ext_name same)
      split
      · rw [valueOf?_put, if_neg names]
      · rfl

theorem fromVariables_singleSettings (single : ∀ v ∈ env, LowerSingle v)
    (among : sect ∈ sectionNames) : FromVariables sect (singleSettings env sect) := by
  have folded : singleSettings env sect = env.foldl (putVariable sect) [] := rfl
  rw [folded]
  refine List.foldlRecOn env _ (FromVariables.nil sect) fun found h v member => ?_
  exact h.putVariable (single v member) among

theorem valueOf?_singleSettings (single : ∀ v ∈ env, LowerSingle v) (l : Setting) :
    valueOf? (singleSettings env l.sect) l.name = (lastNamed env l.variable).map .text := by
  -- Any entries may have been put before.
  suffices h : ∀ found, valueOf? (env.foldl (putVariable l.sect) found) l.name =
      ((lastNamed env l.variable).map .text).or (valueOf? found l.name) by
    have folded : singleSettings env l.sect = env.foldl (putVariable l.sect) [] := rfl
    rw [folded, h]
    exact Option.or_none
  induction env with
  | nil => exact fun found => rfl
  | cons v env ih =>
      intro found
      rw [List.foldl_cons, ih fun w member => single w (List.mem_cons_of_mem _ member),
        valueOf?_putVariable (single v (List.mem_cons_self ..)), lastNamed_cons]
      by_cases same : v.1 = l.variable
      · cases lastNamed env l.variable <;> simp [same]
      · simp [same]

/-! ### The settings of the environment -/

theorem properName (l : Setting) :
    ((settingNames l.sect).find? (· = l.name.toLower)).getD l.name = l.name := by
  cases l <;> decide +kernel

theorem properNames_of_fromVariables (h : FromVariables sect entries) :
    properNames (settingNames sect) entries = entries := by
  -- Any other entries may have been put before.
  suffices all : ∀ before, Distinct (before ++ entries) →
      entries.foldl (fun all e => put all
        (((settingNames sect).find? (· = e.1.plain.toLower)).getD e.1.plain) e.2) before =
          before ++ entries from all [] h.distinct
  have each := h.each
  clear h
  induction entries with
  | nil => exact fun before _ => (List.append_nil before).symm
  | cons e entries ih =>
      intro before distinct
      obtain ⟨l, rfl, text, rfl⟩ := each e (List.mem_cons_self ..)
      have absent : valueOf? before l.name = none := valueOf?_eq_none_iff.2 fun f member same =>
        (List.pairwise_append.1 distinct).2.2 f member _ (List.mem_cons_self ..) l.name same rfl
      have appended : put before l.name (.text text) = before ++ [(.text l.name, .text text)] := by
        rw [put_eq, absent]
        rfl
      have head : put before
          (((settingNames l.sect).find? (· = l.name.toLower)).getD l.name) (.text text) =
            before ++ [(.text l.name, .text text)] := by
        rw [properName, appended]
      have rest := ih (fun f member => each f (List.mem_cons_of_mem _ member))
        (before ++ [(.text l.name, .text text)]) (by simpa using distinct)
      rw [← head] at rest
      exact rest.trans (by simp [head])

theorem sectionValue_of_single (single : ∀ v ∈ env, LowerSingle v) (among : sect ∈ sectionNames) :
    sectionValue env sect = .ok (if (singleSettings env sect).isEmpty then none
      else some (.map (singleSettings env sect))) := by
  have whole : env.lookup (variableLead ++ sect) = none := by
    refine List.lookup_eq_none_iff.2 fun v member => ?_
    rcases single v member with other | ⟨l, named⟩
    · simpa using fun same => other sect same.symm
    · rw [named]
      simp only [sectionNames, List.mem_cons, List.not_mem_nil, or_false] at among
      rcases among with rfl | rfl <;> cases l <;> decide
  simp only [sectionValue, whole,
    properNames_of_fromVariables (fromVariables_singleSettings single among)]

/-- Puts a section, if it has any entries. -/
def putSection (found : Entries) (sect : String) (inner : Entries) : Entries :=
  if inner.isEmpty then found else put found sect (.map inner)

theorem Sectioned.putSection (sectioned : Sectioned entries) (among : sect ∈ sectionNames)
    (inner : Entries) : Sectioned (putSection entries sect inner) := by
  unfold Settings.putSection
  split
  · exact sectioned
  · intro name d found
    rw [valueOf?_put] at found
    split at found
    · rename_i same
      obtain rfl := Option.some.inj found
      exact ⟨same ▸ among, inner, rfl⟩
    · exact sectioned name d found

/-- A section that is left out because it has no entries is as good as one without entries. -/
theorem entriesIn_putSection (unset : entriesIn entries sect = []) (inner : Entries)
    (other : String) : entriesIn (putSection entries sect inner) other =
      if sect = other then inner else entriesIn entries other := by
  unfold putSection
  split
  · rename_i empty
    split
    · rename_i same
      rw [← same, unset, List.isEmpty_iff.1 empty]
    · rfl
  · unfold entriesIn
    rw [valueOf?_put]
    by_cases same : sect = other <;> simp [same]

theorem lowerSingle_lowered {env : Environment} (single : SetsSingle env) :
    ∀ v ∈ lowered env, LowerSingle v := by
  have folded : lowered env = env.foldl putLowered [] := rfl
  rw [folded]
  have none : ∀ v ∈ ([] : Environment), LowerSingle v := fun v member => (nomatch member)
  refine List.foldlRecOn (motive := fun all => ∀ v ∈ all, LowerSingle v) env putLowered none
    fun all kept v member => ?_
  have new : ∀ text, LowerSingle (v.1.toLower, text) := fun text => by
    by_cases meant : ∃ rest, v.1.toLower = variableLead ++ rest
    · obtain ⟨rest, named⟩ := meant
      exact .inr (single v member rest named)
    · exact .inl fun rest named => meant ⟨rest, named⟩
  intro w later
  unfold putLowered at later
  split at later
  · obtain ⟨u, before, rfl⟩ := List.mem_map.1 later
    split
    · exact new _
    · exact kept u before
  · rcases List.mem_append.1 later with before | last
    · exact kept w before
    · rw [List.mem_singleton.1 last]
      exact new _

theorem ofEnvironment_eq {env : Environment} (single : SetsSingle env) : ofEnvironment env =
    .ok (putSection (putSection [] "shell" (singleSettings (lowered env) "shell")) "logging"
      (singleSettings (lowered env) "logging")) := by
  have lower := lowerSingle_lowered single
  simp only [ofEnvironment, sectionNames, List.foldlM_cons, List.foldlM_nil,
    sectionValue_of_single lower (by decide : "shell" ∈ sectionNames),
    sectionValue_of_single lower (by decide : "logging" ∈ sectionNames), putSection]
  cases (singleSettings (lowered env) "shell").isEmpty <;>
    cases (singleSettings (lowered env) "logging").isEmpty <;> rfl

/-- What the environment says of the settings is in sections, each with the text of its
variable. -/
theorem ofEnvironment_of_single {env : Environment} (single : SetsSingle env) :
    ∃ found, ofEnvironment env = .ok found ∧ Sectioned found ∧
      ∀ l : Setting, written found l = (heldFor env l).map .text := by
  have lower := lowerSingle_lowered single
  have none : Sectioned [] := fun name d found => (nomatch found)
  refine ⟨_, ofEnvironment_eq single,
    (none.putSection (by decide) _).putSection (by decide) _, fun l => ?_⟩
  have inSection : entriesIn (putSection (putSection [] "shell"
      (singleSettings (lowered env) "shell")) "logging"
        (singleSettings (lowered env) "logging")) l.sect = singleSettings (lowered env) l.sect := by
    rw [entriesIn_putSection (entriesIn_putSection rfl _ _), entriesIn_putSection rfl]
    cases l <;> rfl
  rw [written, inSection, valueOf?_singleSettings lower, lastNamed_lowered]

end Variables

end LineShell.Settings
