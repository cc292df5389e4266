import LineShell.Proofs.Runs

/-!
# The word that names the command

A tab and a completed line look for the command of a line in two ways. A line is run by the text
between its leading spaces and the next space. A tab takes a word at the very beginning of the line
for the name of a command; behind that it takes the first word between white space for the command
whose arguments are to be completed. The two agree where nothing but spaces stands before that word,
and a space or the end of the line behind it.
-/

namespace LineShell

open Act Edit Session

variable {σ π : Type} {s : Session σ} {l : Line}

/-! ### The command of a completed line -/

namespace Command

/-- Where a line that is run is cut for the name of the command: behind the leading spaces. -/
def nameStart (text : List Char) : Nat :=
  (text.takeWhile (· = ' ')).length

theorem takeWhile_eq_replicate (text : List Char) :
    text.takeWhile (· = ' ') = List.replicate (nameStart text) ' ' := by
  have spaces := List.all_takeWhile (p := (· = ' ')) (l := text)
  refine List.eq_replicate_of_mem fun c member => ?_
  simpa using List.all_eq_true.mp spaces c member

theorem drop_nameStart (text : List Char) :
    text.drop (nameStart text) = text.dropWhile (· = ' ') := by
  have parts := List.takeWhile_append_dropWhile (p := (· = ' ')) (l := text)
  calc text.drop (nameStart text)
      = (text.takeWhile (· = ' ') ++ text.dropWhile (· = ' ')).drop (nameStart text) := by
        rw [parts]
    _ = text.dropWhile (· = ' ') := List.drop_left

theorem name_of_ofLine? {text : List Char} {i : Invocation}
    (read : Invocation.ofLine? (String.ofList text) = some i) :
    i.name = String.ofList ((text.drop (nameStart text)).takeWhile (· ≠ ' ')) := by
  rw [drop_nameStart]
  simp only [Invocation.ofLine?, String.toList_ofList] at read
  split at read
  · cases read
  · cases read
    rfl

/-- A line of spaces, a word, and behind a space the argument. -/
theorem ofLine?_append {word rest : List Char} (nonempty : word ≠ []) (unspaced : ' ' ∉ word)
    (stop : rest.head?.getD ' ' = ' ') (n : Nat) :
    Invocation.ofLine? (String.ofList (List.replicate n ' ' ++ word ++ rest)) =
      some ⟨String.ofList word, String.ofList (dropLastSpace (rest.drop 1))⟩ := by
  have solid : ∀ c ∈ word, decide (c ≠ ' ') = true := fun c member => by
    simpa using ne_of_mem_of_not_mem member unspaced
  have body : (List.replicate n ' ' ++ word ++ rest).dropWhile (· = ' ') = word ++ rest := by
    rw [List.append_assoc, List.dropWhile_append_of_pos fun c member => by
      simpa using List.eq_of_mem_replicate member]
    cases word with
    | nil => exact absurd rfl nonempty
    | cons c word =>
        have other := solid c (List.mem_cons_self ..)
        rw [List.cons_append, List.dropWhile_cons_of_neg (by simpa using other)]
  have behind : rest.takeWhile (· ≠ ' ') = [] ∧ rest.dropWhile (· ≠ ' ') = rest := by
    cases rest with
    | nil => simp
    | cons c rest =>
        have space : c = ' ' := stop
        simp [space]
  simp only [Invocation.ofLine?, String.toList_ofList, body]
  rw [if_neg (by simp [nonempty]), List.takeWhile_append_of_pos solid,
    List.dropWhile_append_of_pos solid, behind.1, behind.2, List.append_nil]

/-- A line is run by the name of a given word just if only spaces stand before the word, and a space
or the end of the line behind it. -/
theorem name_eq_iff {text word : List Char} (nonempty : word ≠ []) (unspaced : ' ' ∉ word) :
    (∃ i, Invocation.ofLine? (String.ofList text) = some i ∧ i.name = String.ofList word) ↔
      ∃ n rest, text = List.replicate n ' ' ++ word ++ rest ∧ rest.head?.getD ' ' = ' ' := by
  constructor
  · rintro ⟨i, read, named⟩
    have cut : (text.dropWhile (· = ' ')).takeWhile (· ≠ ' ') = word := by
      have h := (name_of_ofLine? read).symm.trans named
      rwa [drop_nameStart, String.ofList_inj] at h
    refine ⟨nameStart text, (text.dropWhile (· = ' ')).dropWhile (· ≠ ' '), ?_, ?_⟩
    · calc text
          = text.takeWhile (· = ' ') ++ text.dropWhile (· = ' ') :=
            List.takeWhile_append_dropWhile.symm
        _ = List.replicate (nameStart text) ' ' ++
              (word ++ (text.dropWhile (· = ' ')).dropWhile (· ≠ ' ')) := by
            rw [takeWhile_eq_replicate, ← cut, List.takeWhile_append_dropWhile]
        _ = _ := (List.append_assoc ..).symm
    · have stop := List.head?_dropWhile_not (· ≠ ' ') (text.dropWhile (· = ' '))
      cases h : ((text.dropWhile (· = ' ')).dropWhile (· ≠ ' ')).head? with
      | none => rfl
      | some c =>
          rw [h] at stop
          simpa using stop
  · rintro ⟨n, rest, rfl, stop⟩
    exact ⟨_, ofLine?_append nonempty unspaced stop n, rfl⟩

namespace Registry

variable {r : Registry π} {name : String} {e : Entry π} {g : String → Nat → π}

def command? (r : Registry π) (line : String) : Option (Entry π) :=
  (Invocation.ofLine? line).bind fun i => r.resolve? i.name

/-- The command of a name is the first one of the tables, the menu coming first. -/
theorem resolve?_eq_find? (r : Registry π) (name : String) :
    r.resolve? name = (r.tables.flatMap Table.entries).find? (·.name = name) := by
  rw [List.find?_flatMap]
  rfl

theorem name_of_resolve? (h : r.resolve? name = some e) : e.name = name := by
  obtain ⟨table, -, found⟩ := List.exists_of_findSome?_eq_some h
  simpa [Table.find?] using List.find?_some found

/-- Where no default command has a generator, the command whose generator is found for a name is the
one that runs under it. -/
theorem resolve?_of_resolveGenerator? (bare : ∀ e ∈ r.defaults.entries, e.generator = none)
    (h : r.resolveGenerator? name = some (e, g)) :
    r.resolve? name = some e ∧ e.generator = some g := by
  have default :
      ((r.defaults.find? name).bind fun e => e.generator.map fun g => (e, g)) = none := by
    cases found : r.defaults.find? name with
    | none => rfl
    | some e => simp [bare e (List.mem_of_find?_eq_some found)]
  simp only [resolveGenerator?, resolve?, tables] at h ⊢
  cases menu : r.menu with
  | none => simp [menu, default] at h
  | some table =>
      simp only [menu, Option.toList_some, List.singleton_append, List.reverse_cons,
        List.reverse_nil, List.nil_append, List.findSome?_cons, default, List.findSome?_nil] at h ⊢
      cases found : table.find? name with
      | none => simp [found] at h
      | some e' =>
          cases generator : e'.generator with
          | none => simp [found, generator] at h
          | some g' =>
              simp only [found, generator, Option.bind_some, Option.map_some, Option.some.injEq,
                Prod.mk.injEq] at h
              obtain ⟨rfl, rfl⟩ := h
              exact ⟨rfl, generator⟩

end Registry

end Command

/-! ### Where completions come from -/

namespace Completion

/-- What completions of a word are taken from: the names of commands, the generator of one of them,
or nothing. -/
inductive Origin (π : Type) where
  | names
  | generator (e : Command.Entry π) (g : String → Nat → π)
  | nowhere

/-- The first word between white space, of those before the word under the cursor. -/
def commandWord (l : Line) : List Char :=
  Text.firstWord (l.before.take (wordStart l.before))

/-- What the word under the cursor is completed from. -/
def origin (r : Command.Registry π) (l : Line) : Origin π :=
  if wordStart l.before = 0 then .names
  else if commandWord l = [] then .nowhere
  else
    match r.resolveGenerator? (String.ofList (commandWord l)) with
    | none => .nowhere
    | some (e, g) => .generator e g

def originAt (r : Command.Registry π) (start : Int) (line : List Char) : Origin π :=
  if start = 0 then .names
  else if Text.firstWord (Text.sliceTo line start) = [] then .nowhere
  else
    match r.resolveGenerator? (String.ofList (Text.firstWord (Text.sliceTo line start))) with
    | none => .nowhere
    | some (e, g) => .generator e g

def Origin.candidates (call : Program σ → Act σ Reply) (text : String) :
    Origin (Program σ) → Act σ (List String)
  | .names => do
    modify (·.setDisplayHook none)
    return (← get).registry.namesFrom text
  | .generator e g => do
    modify (·.setDisplayHook e.displayHook)
    collect call g text limit 0
  | .nowhere => return []

theorem wordStart_le (before : List Char) : wordStart before ≤ before.length := by
  have shorter := (List.dropWhile_sublist (l := before.reverse) (!isWordBreak ·)).length_le
  simpa [wordStart, Text.dropRight] using shorter

theorem sliceTo_wordStart (l : Line) :
    Text.sliceTo l.text (wordStart l.before) = l.before.take (wordStart l.before) := by
  have inside := wordStart_le l.before
  rw [Line.length_before] at inside
  simp only [Text.sliceTo, Int.natCast_nonneg, ge_iff_le, if_true, Int.toNat_natCast]
  calc l.text.take (wordStart l.before)
      = l.text.take (min (wordStart l.before) l.point) := by rw [Nat.min_eq_left inside]
    _ = l.before.take (wordStart l.before) := List.take_take.symm

theorem not_blank_of_mem_commandWord {c : Char} (member : c ∈ commandWord l) :
    Text.isBlank c = false := by
  have solid := List.all_takeWhile (p := (!Text.isBlank ·))
    (l := (l.before.take (wordStart l.before)).dropWhile Text.isBlank)
  simpa using List.all_eq_true.mp solid c member

theorem space_not_mem_commandWord (l : Line) : ' ' ∉ commandWord l := by
  intro member
  have blank := not_blank_of_mem_commandWord member
  revert blank
  decide

theorem origin_eq_names {r : Command.Registry π} :
    origin r l = .names ↔ wordStart l.before = 0 := by
  by_cases first : wordStart l.before = 0
  · simp [origin, first]
  · simp only [origin, first, if_false, iff_false]
    split
    · simp
    · split <;> simp

theorem originAt_wordStart (r : Command.Registry π) (l : Line) :
    originAt r (wordStart l.before) l.text = origin r l := by
  have beginning : (wordStart l.before : Int) = 0 ↔ wordStart l.before = 0 := by omega
  simp only [originAt, origin, commandWord, sliceTo_wordStart, beginning]
  rfl

theorem resolved_of_originAt {r : Command.Registry π} {start : Int} {line : List Char}
    {e : Command.Entry π} {g : String → Nat → π} (h : originAt r start line = .generator e g) :
    Text.firstWord (Text.sliceTo line start) ≠ [] ∧
      r.resolveGenerator? (String.ofList (Text.firstWord (Text.sliceTo line start))) = some (e, g) := by
  unfold originAt at h
  split at h
  · cases h
  · split at h
    · cases h
    · rename_i nonempty
      split at h
      · cases h
      · rename_i found
        cases h
        exact ⟨nonempty, found⟩

theorem resolved_of_origin {r : Command.Registry π} {e : Command.Entry π} {g : String → Nat → π}
    (h : origin r l = .generator e g) :
    commandWord l ≠ [] ∧ r.resolveGenerator? (String.ofList (commandWord l)) = some (e, g) := by
  rw [← originAt_wordStart] at h
  rw [commandWord, ← sliceTo_wordStart]
  exact resolved_of_originAt h

theorem result_candidatesAt (call : Program σ → Act σ Reply) (text : String) (start : Int)
    (line : List Char) (s : Session σ) : (Session.candidates call text start line).result s =
      ((originAt s.registry start line).candidates call text).result s := by
  unfold Session.candidates originAt
  by_cases beginning : start = 0
  · rw [if_pos beginning, if_pos beginning, Origin.candidates]
  · rw [if_neg beginning, if_neg beginning, completeArgument]
    by_cases empty : Text.firstWord (Text.sliceTo line start) = []
    · simp [empty, Origin.candidates]
    · have named : ¬ String.ofList (Text.firstWord (Text.sliceTo line start)) = "" := by
        simpa [← String.ofList_nil, String.ofList_inj] using empty
      rw [if_neg named, if_neg empty, result_get_bind]
      cases s.registry.resolveGenerator?
          (String.ofList (Text.firstWord (Text.sliceTo line start))) with
      | none => rfl
      | some found => rfl

theorem result_candidates (call : Program σ → Act σ Reply) (text : String) (s : Session σ)
    (l : Line) : (Session.candidates call text (wordStart l.before) l.text).result s =
      ((origin s.registry l).candidates call text).result s := by
  rw [result_candidatesAt, originAt_wordStart]

/-- An attempt at completion of the word under the cursor, from where its completions come. -/
def attempt (call : Program σ → Act σ Reply) (source : Origin (Program σ)) (l : Line) :
    Act σ (List String) := do
  modify (·.setAttemptOver false)
  let found ← source.candidates call (String.ofList (word l.before))
  if found.isEmpty then modify (·.setAttemptOver true)
  return found

theorem result_completeWord (call : Program σ → Act σ Reply) (s : Session σ) (l : Line) :
    (completeWord call l).result s = (attempt call (origin s.registry l) l).result s := by
  have found := result_candidates call (String.ofList (word l.before)) (s.setAttemptOver false) l
  simp only [completeWord, complete, attempt, result_modify_bind]
  rw [result_bind, found, result_bind]
  rfl

end Completion

/-! ### Agreement -/

/-- How the command that a tab finds in a line compares with the one that the line is run as. -/
structure CommandWordLaw (call : Program σ → Act σ Reply) (s : Session σ) (l : Line) : Prop where
  /-- Completions come from the origin of the word under the cursor. -/
  offered : (completeWord call l).result s =
    (Completion.attempt call (Completion.origin s.registry l) l).result s
  /-- The names of commands are offered just for a word at the beginning of the line. -/
  names : Completion.origin s.registry l = .names ↔ Completion.wordStart l.before = 0
  /-- The line is run by the text behind its leading spaces, up to a space. -/
  cut : ∀ i, Command.Invocation.ofLine? l.toString = some i → i.name =
    String.ofList ((l.text.drop (Command.nameStart l.text)).takeWhile (· ≠ ' '))
  /-- Names are offered for the word at this place and for no other, unless spaces lead the line and
  the word stands at one of the two beginnings. -/
  agree : (Completion.origin s.registry l = .names ↔
      Completion.wordStart l.before = Command.nameStart l.text) ↔
    (Command.nameStart l.text = 0 ∨ Completion.wordStart l.before ≠ 0 ∧
      Completion.wordStart l.before ≠ Command.nameStart l.text)
  /-- Arguments come from the command that is named by the first word. The line is run as that
  command just if only spaces stand before the word, and a space or the end of the line behind. -/
  arguments : ∀ e g, Completion.origin s.registry l = .generator e g →
    e.generator = some g ∧ e.name = String.ofList (Completion.commandWord l) ∧
    (s.registry.command? l.toString = some e ↔ ∃ n rest,
      l.text = List.replicate n ' ' ++ Completion.commandWord l ++ rest ∧
        rest.head?.getD ' ' = ' ')
  /-- The line is run as the command that it names. -/
  runs : ∀ e, s.registry.command? l.toString = some e →
    ∃ i, i.name = e.name ∧ (dispatch call l.toString).result s = (runCommand call e i).result s

theorem generator_of_mem_defaultCommands {e : Command.Entry (Program σ)}
    (member : e ∈ defaultCommands) : e.generator = none := by
  simp only [defaultCommands, List.mem_cons, List.not_mem_nil, or_false] at member
  rcases member with rfl | rfl | rfl | rfl <;> rfl

/-- The command by which arguments are completed is the one that the line is run as, wherever the
two read the same word. -/
theorem command_eq_iff {e : Command.Entry (Program σ)} {g : String → Nat → Program σ}
    (defaults : s.registry.defaults = ⟨defaultCommands⟩)
    (h : Completion.origin s.registry l = .generator e g) :
    e.generator = some g ∧ e.name = String.ofList (Completion.commandWord l) ∧
    (s.registry.command? l.toString = some e ↔
      ∃ i, Command.Invocation.ofLine? l.toString = some i ∧
        i.name = String.ofList (Completion.commandWord l)) := by
  obtain ⟨-, found⟩ := Completion.resolved_of_origin h
  have bare : ∀ e ∈ s.registry.defaults.entries, e.generator = none := by
    rw [defaults]
    exact fun e member => generator_of_mem_defaultCommands member
  obtain ⟨resolved, generator⟩ := Command.Registry.resolve?_of_resolveGenerator? bare found
  have named := Command.Registry.name_of_resolve? resolved
  refine ⟨generator, named, ?_⟩
  simp only [Command.Registry.command?, Option.bind_eq_some_iff]
  constructor
  · rintro ⟨i, read, same⟩
    exact ⟨i, read, (Command.Registry.name_of_resolve? same).symm.trans named⟩
  · rintro ⟨i, read, same⟩
    exact ⟨i, read, same ▸ resolved⟩

/-- In a shell with the default commands and any menu, on any line with any point: a tab and the end
of the line find the same command as far as the law says, and no further. -/
theorem commandWordLaw (call : Program σ → Act σ Reply)
    (defaults : s.registry.defaults = ⟨defaultCommands⟩) (l : Line) : CommandWordLaw call s l where
  offered := Completion.result_completeWord call s l
  names := Completion.origin_eq_names
  cut _ read := Command.name_of_ofLine? read
  agree := by
    rw [Completion.origin_eq_names]
    omega
  arguments e g h := by
    obtain ⟨generator, named, same⟩ := command_eq_iff defaults h
    obtain ⟨nonempty, -⟩ := Completion.resolved_of_origin h
    exact ⟨generator, named,
      same.trans (Command.name_eq_iff nonempty (Completion.space_not_mem_commandWord l))⟩
  runs e h := by
    obtain ⟨i, read, resolved⟩ := Option.bind_eq_some_iff.mp h
    refine ⟨i, (Command.Registry.name_of_resolve? resolved).symm, ?_⟩
    simp only [dispatch, read, result_get_bind, resolved]

def goingShell : Session Unit :=
  bareShell [{ name := "go", generator := some fun _ _ => .done (.candidate none)
               handler := fun _ => .done .nothing }] ()

/-- Behind the word and a space, both find the command, also behind leading spaces. -/
theorem command_goingShell : ∃ e g,
    Completion.origin goingShell.registry (.ofText [' ', 'g', 'o', ' ', 'x']) = .generator e g ∧
    goingShell.registry.command? " go x" = some e := by
  have law := commandWordLaw (s := goingShell) (Program.exec 1) rfl
    (.ofText [' ', 'g', 'o', ' ', 'x'])
  have h : ∃ e g, Completion.origin goingShell.registry (.ofText [' ', 'g', 'o', ' ', 'x']) =
      .generator e g := ⟨_, _, rfl⟩
  obtain ⟨e, g, h⟩ := h
  exact ⟨e, g, h, (law.arguments e g h).2.2.mpr ⟨1, [' ', 'x'], rfl, rfl⟩⟩

/-- Behind a leading space the name of a command is not completed. Behind a tab the arguments of a
command are, although the line would not be run as that command. -/
theorem command_apart :
    (Completion.wordStart (Line.ofText [' ', 'h', 'e', 'l']).before =
        Command.nameStart [' ', 'h', 'e', 'l'] ∧
      goingShell.registry.namesFrom "hel" = ["help"] ∧
      ((completeWord (Program.exec 1) (.ofText [' ', 'h', 'e', 'l'])).result goingShell).1 =
        .ok []) ∧
    ∃ e g, Completion.origin goingShell.registry (.ofText ['g', 'o', '\t', 'x', ' ']) =
        .generator e g ∧
      goingShell.registry.command? "go\tx " = none := by
  refine ⟨⟨by decide, by decide, rfl⟩, _, _, rfl, ?_⟩
  rfl

end LineShell
