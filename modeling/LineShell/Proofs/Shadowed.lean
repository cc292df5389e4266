import LineShell.Proofs.Attribution
import Mathlib.Data.List.Nodup

/-!
# Names in both tables

The names of the commands in a table are distinct, but a menu may hold names of default commands.
Such a name is offered twice at the beginning of a line, and then it is one of several completions:
the key that completes a word still completes it, if there are no others, but puts no space behind
it.
-/

namespace LineShell

open Act Edit Session

variable {σ π : Type} {call : Program σ → Act σ Reply} {s : Session σ} {name text : String}

/-! ### Tables of distinct names -/

namespace Command

/-- Commands that make a table: none is without a name, and no two have one name. -/
def Sound (entries : List (Entry π)) : Prop :=
  (entries.map Entry.name).Nodup ∧ "" ∉ entries.map Entry.name

instance (entries : List (Entry π)) : Decidable (Sound entries) :=
  inferInstanceAs (Decidable (_ ∧ _))

theorem Table.faultAmong_eq_none_iff {seen : List String} {entries : List (Entry π)} :
    faultAmong seen entries = none ↔
      Sound entries ∧ ∀ name ∈ entries.map Entry.name, name ∉ seen := by
  induction entries generalizing seen with
  | nil => simp [faultAmong, Sound]
  | cons e entries ih =>
      unfold faultAmong
      split
      · rename_i nameless
        simp [Sound, nameless]
      · rename_i named
        split
        · rename_i again
          have before : e.name ∈ seen := by simpa using again
          simp [Sound, before]
        · rename_i new
          have apart : e.name ∉ seen := by simpa using new
          rw [ih]
          simp only [Sound, List.map_cons, List.nodup_cons, List.forall_mem_cons]
          simp only [List.mem_cons, not_or]
          constructor
          · rintro ⟨⟨distinct, full⟩, others⟩
            exact ⟨⟨⟨fun member => (others _ member).1 rfl, distinct⟩, Ne.symm named, full⟩, apart,
              fun name member => (others name member).2⟩
          · rintro ⟨⟨⟨fresh, distinct⟩, -, full⟩, -, others⟩
            refine ⟨⟨distinct, full⟩, fun name member => ⟨?_, others name member⟩⟩
            rintro rfl
            exact fresh member

/-- Commands make a table just if they are sound, and the table holds them as they are. -/
theorem Table.ofList_eq_ok_iff {entries : List (Entry π)} {table : Table π} :
    ofList entries = .ok table ↔ Sound entries ∧ table = ⟨entries⟩ := by
  have sound : faultAmong [] entries = none ↔ _ := faultAmong_eq_none_iff
  unfold ofList
  split
  · rename_i fault found
    rw [found] at sound
    simp_all
  · rename_i none
    rw [none] at sound
    simp_all [eq_comm]

/-- No two commands of a table have one name. -/
theorem Table.nodup_names {entries : List (Entry π)} {table : Table π}
    (made : ofList entries = .ok table) : table.names.Nodup := by
  obtain ⟨sound, rfl⟩ := ofList_eq_ok_iff.1 made
  exact sound.1

namespace Registry

variable {r : Registry π}

/-- A registry as shells have it: with the default commands, and a menu if one has been accepted. -/
structure Stocked (r : Registry (Program σ)) : Prop where
  defaults : r.defaults = ⟨defaultCommands⟩
  menu : ∀ m, r.menu = some m → ∃ entries, Table.ofList entries = .ok m

theorem Stocked.nodup_names {r : Registry (Program σ)} (h : r.Stocked) {table : Table (Program σ)}
    (kept : table ∈ r.tables) : table.names.Nodup := by
  rcases mem_tables.1 kept with menu | rfl
  · obtain ⟨entries, made⟩ := h.menu table menu
    exact Table.nodup_names made
  · rw [h.defaults]
    simp [Table.names, defaultCommands]

theorem Stocked.setMenu {r : Registry (Program σ)} (h : r.Stocked)
    {entries : List (Entry (Program σ))} {table : Table (Program σ)}
    (made : Table.ofList entries = .ok table) : (r.setMenu (some table)).2.Stocked := by
  unfold Registry.setMenu
  split
  · rename_i offered
    cases offered
    split
    · exact h
    · refine ⟨h.defaults, fun m taken => ?_⟩
      cases taken
      exact ⟨entries, made⟩
  · exact h

/-- A menu holds a command under the name of a default one. -/
def Shadowed (r : Registry π) (name : String) : Prop :=
  name ∈ r.defaults.names ∧ ∃ m, r.menu = some m ∧ name ∈ m.names

/-- One and no other of the command names begins with a text. -/
def Only (r : Registry π) (text : List Char) (name : String) : Prop :=
  ∀ c, ((∃ table ∈ r.tables, c ∈ table.names) ∧ text <+: c.toList) ↔ c = name

/-- How many tables hold a name. -/
def holders (r : Registry π) (name : String) : Nat :=
  r.tables.countP fun table => name ∈ table.names

theorem mem_namesFrom : name ∈ r.namesFrom text ↔
    (∃ table ∈ r.tables, name ∈ table.names) ∧ text.toList <+: name.toList := by
  simp [namesFrom, List.mem_flatMap]

theorem count_names {tables : List (Table π)} (distinct : ∀ table ∈ tables, table.names.Nodup)
    (name : String) : (tables.flatMap Table.names).count name =
      tables.countP fun table => name ∈ table.names := by
  induction tables with
  | nil => rfl
  | cons table tables ih =>
      obtain ⟨first, others⟩ := List.forall_mem_cons.1 distinct
      rw [List.flatMap_cons, List.count_append, ih others, first.count, List.countP_cons,
        Nat.add_comm]
      simp only [decide_eq_true_eq]

/-- A name is offered once for each table that holds it. -/
theorem count_namesFrom (distinct : ∀ table ∈ r.tables, table.names.Nodup) (text name : String) :
    (r.namesFrom text).count name = if text.toList <+: name.toList then r.holders name else 0 := by
  split
  · rename_i begins
    rw [namesFrom, List.count_filter (by simpa using begins), holders, ← count_names distinct]
    exact ((List.reverse_perm r.tables).flatMap_right Table.names).count_eq name
  · rename_i other
    exact List.count_eq_zero.2 fun member => other (mem_namesFrom.1 member).2

theorem holders_eq_two : r.holders name = 2 ↔ r.Shadowed name := by
  unfold holders tables Shadowed
  cases r.menu with
  | none => by_cases default : name ∈ r.defaults.names <;> simp [default]
  | some m =>
      by_cases default : name ∈ r.defaults.names <;> by_cases menu : name ∈ m.names <;>
        simp [default, menu]

theorem holders_le_two (r : Registry π) (name : String) : r.holders name ≤ 2 := by
  refine (List.countP_le_length).trans ?_
  rw [tables, List.length_append, List.length_singleton]
  cases r.menu <;> simp

end Registry

end Command

/-! ### The beginning of the line -/

namespace Completion

variable {l : Line}

theorem word_of_solid (solid : ∀ c ∈ l.before, isWordBreak c = false) :
    wordStart l.before = 0 ∧ word l.before = l.before := by
  have whole : word l.before = l.before :=
    (word_suffix l.before).eq_of_length_le (suffix_word List.suffix_rfl solid).length_le
  have inside := wordStart_le l.before
  have long : l.before.length - wordStart l.before = l.before.length := by
    rw [← List.length_drop]
    exact congrArg List.length whole
  exact ⟨by omega, whole⟩

/-- A word that some text holds twice goes on with the rest of the text, and with no space. -/
theorem agreed_twice {w x : List Char} : Agreed w [w ++ x, w ++ x] x := by
  unfold Agreed
  rw [if_pos (by simp)]
  refine ⟨by simp, fun y both => ?_⟩
  exact (List.prefix_append_right_inj w).1 (both _ (List.mem_cons_self ..))

/-- A name that is offered once takes the place of the word, with a space behind it; one that is
offered twice takes it without a space. -/
theorem lineFrom_outcome_replicate {name : String} {n : Nat}
    (solid : ∀ c ∈ l.before, isWordBreak c = false) (begins : l.before <+: name.toList)
    (once : n = 1 ∨ n = 2) : (outcome l (List.replicate n name)).lineFrom l =
      .ofParts (name.toList ++ if n = 1 then [' '] else []) l.after := by
  obtain ⟨first, whole⟩ := word_of_solid solid
  rcases once with rfl | rfl
  · simp [outcome, Outcome.lineFrom, first]
  · obtain ⟨x, ends⟩ := begins
    have agreed : Agreed (word l.before) ([name, name].map String.toList) x := by
      rw [whole, List.map_cons, List.map_singleton, ← ends]
      exact agreed_twice
    have several : 2 ≤ (List.replicate 2 name).length := List.length_replicate.ge
    rw [outcome_of_several l several agreed, ← ends]
    split
    · rename_i nothing
      rw [nothing]
      refine Line.ext_parts ?_ ?_ <;> simp [Outcome.lineFrom]
    · simp [Outcome.lineFrom]

end Completion

/-- The key completes a word at the beginning of a line to the names that begin with it, without a
program being run. -/
theorem result_tab_names (call : Program σ → Act σ Reply) (installed : s.editor.installed = true)
    (engine : s.completion.isNone = false)
    (solid : ∀ c ∈ s.editor.line.before, Completion.isWordBreak c = false) :
    let found := s.registry.namesFrom (String.ofList s.editor.line.before)
    (∃ t, s.asked call = (.ok found, t)) ∧ ((pressKey call .tab).result s).1 = .ok ⟨⟩ ∧
      s.lineAfter call .tab = (Completion.outcome s.editor.line found).lineFrom s.editor.line := by
  obtain ⟨first, whole⟩ := Completion.word_of_solid solid
  obtain ⟨t, found, kept, unhooked⟩ := Completion.result_complete_names call
    (String.ofList s.editor.line.before) s.editor.line.text
    (s.onEditor fun e => { e with afterReturn := false })
  have asked : s.asked call =
      (.ok (s.registry.namesFrom (String.ofList s.editor.line.before)), t) := by
    rw [Session.asked, completeWord, first, whole]
    exact found
  have line : t.editor.line = s.editor.line := congrArg (·.line) kept
  refine ⟨⟨t, asked⟩, ?_⟩
  rw [lineAfter, result_tab_of_ok installed engine asked line]
  cases Completion.outcome s.editor.line
      (s.registry.namesFrom (String.ofList s.editor.line.before)) with
  | nothing => exact ⟨rfl, line⟩
  | line l => exact ⟨rfl, rfl⟩
  | listed =>
      have hook : t.completion.bind (·.displayHook) =
        (Completion.Origin.names : Completion.Origin (Program σ)).hook := unhooked
      rw [← Completion.result_showCompletions_ended, Completion.result_showCompletions _ hook]
      exact ⟨rfl, line⟩

/-! ### The law -/

/-- The names that are offered for what stands before the point. -/
def Session.namesOffered (s : Session σ) : List String :=
  s.registry.namesFrom (String.ofList s.editor.line.before)

/-- What the key that completes a word makes of one at the beginning of a line. -/
structure ShadowingLaw (call : Program σ → Act σ Reply) (s : Session σ) : Prop where
  asked : ∃ t, s.asked call = (.ok s.namesOffered, t)
  /-- The names of both tables are offered that begin with the word, each of them once for each
  table that holds it, -/
  counted : ∀ name, s.namesOffered.count name =
    if s.editor.line.before <+: name.toList then s.registry.holders name else 0
  /-- so that a name comes twice if it is shadowed, and never more often; -/
  twice : ∀ name, s.registry.holders name ≤ 2 ∧
    (s.registry.holders name = 2 ↔ s.registry.Shadowed name)
  /-- and that all of them are different unless one of them is shadowed. -/
  distinct : s.namesOffered.Nodup ↔
    ∀ name, s.registry.Shadowed name → ¬ s.editor.line.before <+: name.toList
  ended : ((pressKey call .tab).result s).1 = .ok ⟨⟩
  /-- If only one name begins with the word, it takes the place of the word, with a space behind
  it -/
  single : ∀ name, s.registry.Only s.editor.line.before name → ¬ s.registry.Shadowed name →
    s.lineAfter call .tab = .ofParts (name.toList ++ [' ']) s.editor.line.after
  /-- where no default command is shadowed under this name, and else without a space. -/
  shadowed : ∀ name, s.registry.Only s.editor.line.before name → s.registry.Shadowed name →
    s.lineAfter call .tab = .ofParts name.toList s.editor.line.after

namespace Command.Registry

variable {r : Registry π}

theorem only_iff {begun : List Char} : r.Only begun name ↔
    ∀ c, c ∈ r.namesFrom (String.ofList begun) ↔ c = name := by
  unfold Only
  simp only [mem_namesFrom, String.toList_ofList]

/-- If only one name begins with a text, it is offered as often as tables hold it. -/
theorem namesFrom_of_only (distinct : ∀ table ∈ r.tables, table.names.Nodup) {begun : List Char}
    (only : r.Only begun name) : begun <+: name.toList ∧
      r.namesFrom (String.ofList begun) = List.replicate (r.holders name) name ∧
      (r.holders name = 1 ∨ r.holders name = 2) := by
  have same := only_iff.1 only
  have begins : begun <+: name.toList := ((only name).2 rfl).2
  have counted := count_namesFrom distinct (String.ofList begun) name
  rw [String.toList_ofList, if_pos begins] at counted
  have copies := List.eq_replicate_of_mem fun c member => (same c).1 member
  have length : (r.namesFrom (String.ofList begun)).length = r.holders name := by
    rw [← counted, copies, List.count_replicate_self, List.length_replicate]
  have some : 0 < r.holders name := by
    rw [← counted, List.count_pos_iff]
    exact (same name).2 rfl
  have most := r.holders_le_two name
  refine ⟨begins, ?_, by omega⟩
  rw [← length]
  exact copies

end Command.Registry

/-- In a shell with the default commands and any menu, a word at the beginning of the line with
which only one name begins is completed, and a space follows unless two commands have the name. -/
theorem shadowingLaw (call : Program σ → Act σ Reply) (stocked : s.registry.Stocked)
    (installed : s.editor.installed = true) (engine : s.completion.isNone = false)
    (solid : ∀ c ∈ s.editor.line.before, Completion.isWordBreak c = false) :
    ShadowingLaw call s := by
  obtain ⟨asked, ended, line⟩ := result_tab_names call installed engine solid
  have distinct : ∀ table ∈ s.registry.tables, table.names.Nodup := fun _ => stocked.nodup_names
  have counted := Command.Registry.count_namesFrom distinct (String.ofList s.editor.line.before)
  rw [String.toList_ofList] at counted
  have completed : ∀ name, s.registry.Only s.editor.line.before name → s.lineAfter call .tab =
      .ofParts (name.toList ++ if s.registry.holders name = 1 then [' '] else [])
        s.editor.line.after := by
    intro name only
    obtain ⟨begins, copies, once⟩ := Command.Registry.namesFrom_of_only distinct only
    rw [line, copies, Completion.lineFrom_outcome_replicate solid begins once]
  constructor
  case asked => exact asked
  case counted => exact counted
  case twice => exact fun name => ⟨s.registry.holders_le_two name, Command.Registry.holders_eq_two⟩
  case distinct =>
    simp only [Session.namesOffered, List.nodup_iff_count_le_one, counted]
    constructor
    · intro once name shadowed begins
      have bound := once name
      rw [if_pos begins, Command.Registry.holders_eq_two.2 shadowed] at bound
      omega
    · intro apart name
      split
      · rename_i begins
        have most := s.registry.holders_le_two name
        have not_two : s.registry.holders name ≠ 2 := fun two =>
          apart name (Command.Registry.holders_eq_two.1 two) begins
        omega
      · exact Nat.zero_le 1
  case ended => exact ended
  case single =>
    intro name only alone
    have once : s.registry.holders name = 1 := by
      obtain ⟨-, -, once | two⟩ := Command.Registry.namesFrom_of_only distinct only
      · exact once
      · exact absurd (Command.Registry.holders_eq_two.1 two) alone
    rw [completed name only, if_pos once]
  case shadowed =>
    intro name only shadowed
    rw [completed name only, Command.Registry.holders_eq_two.2 shadowed]
    simp

/-- A menu that is offered leaves a registry as shells have it. -/
theorem Session.stocked_setMenu (h : s.registry.Stocked)
    (menu : Option (List (Command.Entry (Program σ)))) :
    ((setMenu menu).result s).2.registry.Stocked := by
  refine leaves_iff.1 (leaves_setMenu (P := fun t => t.registry.Stocked) h (fun event => ?_)
    fun entries table _ made => h.setMenu made)
  obtain ⟨_, _, _, logged⟩ := s.log_frame event
  rw [logged]
  exact h

/-- A new shell that has no menu yet. -/
def menulessShell : Session Unit :=
  { bareShell [] () with registry := { defaults := ⟨defaultCommands⟩ } }

/-- A command under the name of a default one. -/
def ownHelp : Command.Entry (Program Unit) := { name := "help", handler := fun _ => .skip }

/-- A shell whose menu shadows a default command, with some text on the line. -/
def shadowingShell (text : String) : Session Unit :=
  ((setMenu (some [ownHelp])).result menulessShell).2.beginRun.onEditor fun e =>
    { e with line := .ofText text.toList }

/-- The name of one command gets a space behind it, and the name of two gets none. -/
theorem completed_shadowingShell : (∀ text, (shadowingShell text).registry.Stocked) ∧
    ShadowingLaw (Program.exec 1) (shadowingShell "ver") ∧
    (shadowingShell "ver").lineAfter (Program.exec 1) .tab = .ofText "version ".toList ∧
    (shadowingShell "h").lineAfter (Program.exec 1) .tab = .ofText "help".toList := by
  have stocked : ∀ text, (shadowingShell text).registry.Stocked := fun _ =>
    stocked_setMenu ⟨rfl, by rintro m ⟨⟩⟩ (some [ownHelp])
  have solid : ∀ text : String, text.toList.all (!Completion.isWordBreak ·) = true →
      ∀ c ∈ (shadowingShell text).editor.line.before, Completion.isWordBreak c = false := by
    intro text solid c member
    have whole : (shadowingShell text).editor.line.before = text.toList := Line.before_ofParts ..
    rw [whole] at member
    simpa using List.all_eq_true.1 solid c member
  have one := shadowingLaw (Program.exec 1) (stocked "ver") rfl rfl (solid "ver" (by decide))
  have two := shadowingLaw (Program.exec 1) (stocked "h") rfl rfl (solid "h" (by decide))
  have version : (shadowingShell "ver").namesOffered = ["version"] := by
    decide +kernel
  have help : (shadowingShell "h").namesOffered = ["help", "help"] := by
    decide +kernel
  refine ⟨stocked, one, one.single "version" ?_ ?_, two.shadowed "help" ?_ ?_⟩
  · refine Command.Registry.only_iff.2 fun c => ?_
    rw [← Session.namesOffered, version, List.mem_singleton]
  · rw [← Command.Registry.holders_eq_two]
    decide
  · refine Command.Registry.only_iff.2 fun c => ?_
    rw [← Session.namesOffered, help]
    simp
  · rw [← Command.Registry.holders_eq_two]
    decide

/-- A menu with a command to help is accepted. Then no other name begins as this one, and still it
is offered twice, and completed without a space. -/
theorem uncompleted_shadowingShell :
    ((setMenu (some [ownHelp])).result menulessShell).1.toOption = some true ∧
    (shadowingShell "hel").registry.Only "hel".toList "help" ∧
    ((shadowingShell "hel").asked (Program.exec 1)).1.toOption = some ["help", "help"] ∧
    ¬ ["help", "help"].Nodup ∧
    (shadowingShell "hel").lineAfter (Program.exec 1) .tab ≠ .ofText "help ".toList := by
  have offered : (shadowingShell "hel").registry.namesFrom "hel" = ["help", "help"] := by
    decide +kernel
  refine ⟨by decide, ?_, by decide +kernel, by decide, by decide +kernel⟩
  refine Command.Registry.only_iff.2 fun c => ?_
  rw [String.ofList_toList, offered]
  simp

end LineShell
