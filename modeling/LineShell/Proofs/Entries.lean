import LineShell.Settings.Environment

/-!
# Entries

What is found under a name among entries, when entries are put and when two groups of them are
united.
-/

namespace LineShell.Settings

/-! ### Entries -/

/-- No text is the key of two entries. -/
def Distinct (entries : Entries) : Prop :=
  entries.Pairwise fun e f => ∀ name, e.1 = .text name → f.1 ≠ .text name

def Named (entries : Entries) : Prop :=
  ∀ e ∈ entries, ∃ name, e.1 = .text name

/-- Neither a mapping nor those among its values have a key twice. -/
structure Keyed (file : Entries) : Prop where
  distinct : Distinct file
  inner : ∀ e ∈ file, ∀ inner, e.2 = .map inner → Distinct inner

section Lookup

variable {entries lower upper : Entries} {name other key : String} {value d : Datum}

theorem valueOf?_cons (key : String) (d : Datum) (entries : Entries) (name : String) :
    valueOf? ((.text key, d) :: entries) name =
      if key = name then some d else valueOf? entries name := by
  unfold valueOf?
  rw [List.find?_cons]
  by_cases same : key = name <;> simp [same]

theorem valueOf?_cons_of_ne {e : Datum × Datum} (other : e.1 ≠ .text name) (entries : Entries) :
    valueOf? (e :: entries) name = valueOf? entries name := by
  obtain ⟨key, d⟩ := e
  unfold valueOf?
  rw [List.find?_cons]
  cases key with
  | text key =>
      have differ : ¬ key = name := fun same => other (congrArg Datum.text same)
      simp [differ]
  | _ => rfl

theorem valueOf?_append (entries more : Entries) (name : String) :
    valueOf? (entries ++ more) name = (valueOf? entries name).or (valueOf? more name) := by
  unfold valueOf?
  rw [List.find?_append, Option.map_or]

theorem mem_of_valueOf? (found : valueOf? entries name = some d) : (.text name, d) ∈ entries := by
  unfold valueOf? at found
  obtain ⟨⟨key, value⟩, first, rfl⟩ := Option.map_eq_some_iff.1 found
  have named := List.find?_some first
  have member := List.mem_of_find?_eq_some first
  cases key with
  | text key =>
      obtain rfl : key = name := by simpa using named
      exact member
  | _ => simp at named

theorem valueOf?_eq_none_iff : valueOf? entries name = none ↔ ∀ e ∈ entries, e.1 ≠ .text name := by
  constructor
  · intro none e member same
    obtain ⟨key, d⟩ := e
    subst same
    have unmatched := List.find?_eq_none.1 (Option.map_eq_none_iff.1 none) _ member
    simp at unmatched
  · intro absent
    cases found : valueOf? entries name with
    | none => rfl
    | some d => exact absurd rfl (absent _ (mem_of_valueOf? found))

theorem valueOf?_of_mem (distinct : Distinct entries) (member : (.text name, d) ∈ entries) :
    valueOf? entries name = some d := by
  induction entries with
  | nil => cases member
  | cons e entries ih =>
      obtain ⟨first, rest⟩ := List.pairwise_cons.1 distinct
      rcases List.mem_cons.1 member with rfl | member
      · rw [valueOf?_cons, if_pos rfl]
      · have other : e.1 ≠ .text name := fun same => first _ member name same rfl
        rw [valueOf?_cons_of_ne other, ih rest member]

/-! ### Putting entries -/

/-- An entry with the value that its name is to get. -/
def revalued (name : String) (value : Datum) (e : Datum × Datum) : Datum × Datum :=
  match e.1 with
  | .text key => if key = name then (e.1, value) else e
  | _ => e

theorem revalued_text (name : String) (value : Datum) (key : String) (d : Datum) :
    revalued name value (.text key, d) = (.text key, if key = name then value else d) := by
  by_cases same : key = name <;> simp [revalued, same]

theorem fst_revalued (name : String) (value : Datum) (e : Datum × Datum) :
    (revalued name value e).1 = e.1 := by
  obtain ⟨key, d⟩ := e
  cases key with
  | text key => rw [revalued_text]
  | _ => rfl

theorem put_eq (entries : Entries) (name : String) (value : Datum) : put entries name value =
    if (valueOf? entries name).isSome then entries.map (revalued name value)
    else entries ++ [(.text name, value)] := (rfl)

/-- Putting an entry changes what is found under its name, and nothing else. -/
theorem valueOf?_put (entries : Entries) (name : String) (value : Datum) (other : String) :
    valueOf? (put entries name value) other =
      if name = other then some value else valueOf? entries other := by
  have replaced : valueOf? (entries.map (revalued name value)) other =
      (valueOf? entries other).map fun d => if other = name then value else d := by
    induction entries with
    | nil => rfl
    | cons e entries ih =>
        obtain ⟨key, d⟩ := e
        rw [List.map_cons]
        by_cases here : key = .text other
        · subst here
          rw [revalued_text, valueOf?_cons, valueOf?_cons, if_pos rfl, if_pos rfl, Option.map_some]
        · have kept : (revalued name value (key, d)).1 ≠ .text other := by
            rwa [fst_revalued]
          rw [valueOf?_cons_of_ne kept, valueOf?_cons_of_ne here, ih]
  rw [put_eq]
  by_cases there : (valueOf? entries name).isSome = true
  · rw [if_pos there, replaced]
    by_cases same : name = other
    · subst same
      obtain ⟨d, found⟩ := Option.isSome_iff_exists.1 there
      simp [found]
    · simp [same, Ne.symm same]
  · rw [if_neg there, valueOf?_append, valueOf?_cons]
    rw [Bool.not_eq_true, Option.isSome_eq_false_iff, Option.isNone_iff_eq_none] at there
    by_cases same : name = other
    · subst same
      simp [there]
    · simp [same, valueOf?]

theorem mem_put {e : Datum × Datum} (member : e ∈ put entries name value) :
    e = (.text name, value) ∨ e ∈ entries := by
  rw [put_eq] at member
  split at member
  · obtain ⟨⟨key, d⟩, before, rfl⟩ := List.mem_map.1 member
    cases key with
    | text key =>
        rw [revalued_text]
        by_cases same : key = name
        · subst same
          simp
        · simp [same, before]
    | _ => exact .inr before
  · simpa [or_comm] using member

theorem Distinct.put (distinct : Distinct entries) (name : String) (value : Datum) :
    Distinct (put entries name value) := by
  rw [put_eq]
  split
  · unfold Distinct
    simp only [List.pairwise_map, fst_revalued]
    exact distinct
  · rename_i absent
    rw [Bool.not_eq_true, Option.isSome_eq_false_iff, Option.isNone_iff_eq_none] at absent
    refine List.pairwise_append.2 ⟨distinct, List.pairwise_singleton .., ?_⟩
    rintro ⟨key, d⟩ member f last key rfl same
    obtain rfl := List.mem_singleton.1 last
    cases same
    rw [valueOf?_of_mem distinct member] at absent
    cases absent

/-! ### The union of entries -/

theorem joined_map (inner more : Entries) :
    joined (some (.map inner)) (.map more) = .map (union inner more) := by
  rw [joined]

theorem joined_of_text {lower : Option Datum} (plain : ∀ inner, lower ≠ some (.map inner))
    (upper : Datum) : joined lower upper = upper := by
  cases upper with
  | map more =>
      rw [joined]
      exact plain
  | _ => rw [joined] <;> nofun

@[simp] theorem union_nil (lower : Entries) : union lower [] = lower := by
  rw [union]

theorem union_cons (lower : Entries) (key value : Datum) (rest : Entries) :
    union lower ((key, value) :: rest) =
      union (put lower key.plain (joined (valueOf? lower key.plain) value)) rest := by
  rw [union]

theorem valueOf?_union (distinct : Distinct upper) (named : Named upper) (lower : Entries)
    (name : String) : valueOf? (union lower upper) name =
      ((valueOf? upper name).map (joined (valueOf? lower name))).or (valueOf? lower name) := by
  induction upper generalizing lower with
  | nil => simp [valueOf?]
  | cons e upper ih =>
      obtain ⟨first, rest⟩ := List.pairwise_cons.1 distinct
      obtain ⟨key, d⟩ := e
      obtain ⟨key, rfl⟩ := named _ (List.mem_cons_self ..)
      rw [union_cons, ih rest fun f member => named f (List.mem_cons_of_mem _ member)]
      simp only [Datum.plain, valueOf?_put, valueOf?_cons]
      by_cases same : key = name
      · subst same
        have last : valueOf? upper key = none :=
          valueOf?_eq_none_iff.2 fun f member => first f member key rfl
        simp [last]
      · simp [same]

end Lookup

end LineShell.Settings
