import LineShell.Columns
import LineShell.Settings.File

/-!
# What the environment says of settings

Settings are read from files and from the environment. Two environments that differ only in whether
they forbid colours say the same of everything else: of the width of the terminal, and of the
settings, whatever file is read.
-/

namespace LineShell.Settings

def colourless (o : Settings) : Settings :=
  { o with shell := { o.shell with colours := true } }

variable {ε ε' : Type} {lib : Library ε} {env env' : Environment}

/-- Two environments say the same of all that is no colour, as a library reads settings. -/
structure Environment.Tinted (lib : Library ε) (env env' : Environment) : Prop where
  width : Columns.terminalWidth env' = Columns.terminalWidth env
  settings : ∀ default file, (lib.settings default env' file).map colourless =
    (lib.settings default env file).map colourless

/-- They do so whatever file is read. -/
theorem Environment.Tinted.load (h : Tinted lib env env') (own : LoadFault → ε)
    (store : Files.Store) (places : UserPlaces) (named : Option String) :
    (loadWith own lib store env' places named).map colourless =
      (loadWith own lib store env places named).map colourless := by
  unfold loadWith
  cases fileEntries own lib store places named with
  | error fault => rfl
  | ok entries => exact h.settings _ _

theorem Environment.Tinted.mapFault (h : Tinted lib env env') (f : ε → ε') :
    Tinted (lib.mapFault f) env env' where
  width := h.width
  settings default file := by
    have faults : ∀ x : Except ε Settings,
        (x.mapError f).map colourless = (x.map colourless).mapError f := by
      rintro (_ | _) <;> rfl
    simp only [Library.mapFault, faults, h.settings]

def without (name : String) (env : Environment) : Environment :=
  env.filter fun v => !decide (v.1 = name)

theorem lookup_without {name other : String} (h : other ≠ name) (env : Environment) :
    (without name env).lookup other = env.lookup other := by
  unfold without
  induction env with
  | nil => rfl
  | cons v env ih =>
      obtain ⟨key, value⟩ := v
      by_cases hk : key = name
      · have hne : (other == name) = false := by simpa using h
        simp [hk, List.lookup_cons, ih, hne]
      · simp [hk, List.lookup_cons, ih]

def putLowered (all : Environment) (v : String × String) : Environment :=
  if all.any fun w => w.1 = v.1.toLower then
    all.map fun w => if w.1 = v.1.toLower then (v.1.toLower, v.2) else w
  else all ++ [(v.1.toLower, v.2)]

theorem without_putLowered (name : String) (all : Environment) (v : String × String) :
    without name (putLowered all v) =
      if v.1.toLower = name then without name all else putLowered (without name all) v := by
  -- A variable that is there keeps its name, so that the others are the same before and after.
  have kept : without name (all.map fun w => if w.1 = v.1.toLower then (v.1.toLower, v.2) else w) =
      (without name all).map fun w => if w.1 = v.1.toLower then (v.1.toLower, v.2) else w := by
    unfold without
    rw [List.filter_map]
    congr 1
    refine List.filter_congr fun w _ => ?_
    by_cases hw : w.1 = v.1.toLower <;> simp [hw]
  by_cases hn : v.1.toLower = name
  · rw [if_pos hn]
    unfold putLowered
    split
    · rw [kept]
      refine (List.map_congr_left fun w hw => ?_).trans (List.map_id _)
      have other : w.1 ≠ name := by simpa using (List.mem_filter.1 hw).2
      simp [hn, other]
    · simp [without, hn]
  · rw [if_neg hn]
    have found : ((without name all).any fun w => w.1 = v.1.toLower) =
        all.any fun w => w.1 = v.1.toLower := by
      unfold without
      rw [List.any_filter]
      congr 1
      funext w
      by_cases hw : w.1 = v.1.toLower <;> simp [hw, hn]
    unfold putLowered
    rw [found]
    split
    · exact kept
    · simp [without, hn]

theorem without_lowered (name : String) (env : Environment) :
    without name (lowered env) = lowered (env.filter fun v => !decide (v.1.toLower = name)) := by
  have folded : ∀ env, lowered env = env.foldl putLowered [] := fun _ => rfl
  -- Any variables may have been put before.
  suffices h : ∀ all, without name (env.foldl putLowered all) =
      (env.filter fun v => !decide (v.1.toLower = name)).foldl putLowered (without name all) from
    h []
  induction env with
  | nil => exact fun all => rfl
  | cons v env ih =>
      intro all
      rw [List.foldl_cons, ih, without_putLowered]
      by_cases hn : v.1.toLower = name <;> simp [hn]

/-- Variables of the settings say the same whatever another variable holds. -/
theorem sectionValue_without {name sect : String} (other : variableLead ++ sect ≠ name)
    (apart : (name.dropPrefix? (variableLead ++ sect ++ nesting)).isNone = true)
    (env : Environment) : sectionValue (without name env) sect = sectionValue env sect := by
  have single : singleSettings (without name env) sect = singleSettings env sect := by
    unfold singleSettings without
    rw [List.foldl_filter]
    congr 1
    funext found v
    by_cases hv : v.1 = name
    · simp [hv, Option.isNone_iff_eq_none.1 apart]
    · simp [hv]
  unfold sectionValue
  rw [single, lookup_without other]

theorem ofEnvironment_congr (same : without "NO_COLOR" env' = without "NO_COLOR" env) :
    ofEnvironment env' = ofEnvironment env := by
  have filtered : ∀ env : Environment, (env.filter fun v => !decide (v.1.toLower = "no_color")) =
      (without "NO_COLOR" env).filter fun v => !decide (v.1.toLower = "no_color") := by
    intro env
    unfold without
    rw [List.filter_filter]
    refine List.filter_congr fun v _ => ?_
    by_cases hv : v.1 = "NO_COLOR"
    · have lower : "NO_COLOR".toLower = "no_color" := by decide +kernel
      simp [hv, lower]
    · simp [hv]
  have lower : without "no_color" (lowered env') = without "no_color" (lowered env) := by
    rw [without_lowered, without_lowered, filtered, same, ← filtered]
  have value : ∀ sect, variableLead ++ sect ≠ "no_color" →
      ("no_color".dropPrefix? (variableLead ++ sect ++ nesting)).isNone = true →
      sectionValue (lowered env') sect = sectionValue (lowered env) sect := by
    intro sect other apart
    rw [← sectionValue_without other apart, lower, sectionValue_without other apart]
  simp only [ofEnvironment, sectionNames, List.foldlM_cons, List.foldlM_nil,
    value "shell" (by decide) (by decide +kernel), value "logging" (by decide) (by decide +kernel)]

/-- Whether the environment forbids colours makes no difference to anything but colours. -/
theorem tinted_of_without (same : without "NO_COLOR" env' = without "NO_COLOR" env) :
    Environment.Tinted .standard env env' where
  width := by
    have columns : env'.lookup "COLUMNS" = env.lookup "COLUMNS" := by
      rw [← lookup_without (by decide : "COLUMNS" ≠ "NO_COLOR"), same, lookup_without (by decide)]
    unfold Columns.terminalWidth
    rw [columns]
  settings default file := by
    simp only [Library.standard, ofSources, ofEnvironment_congr same]

end LineShell.Settings
