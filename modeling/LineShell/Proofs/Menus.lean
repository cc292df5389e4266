import LineShell.Proofs.Courses
import LineShell.Proofs.Shadowed

/-!
# The menu is set once

A menu may be offered as often as one likes, and anything else may happen in between. The first
offer that makes a table with commands is taken, and no other one; what makes no table is refused
with a failure. So the tables of a registry and the order of its commands are known from the offers
alone, for the commands that lines are run as and for the names that they are completed to.
-/

namespace LineShell

open Act Session

variable {σ π : Type} {s s₀ : Session σ}

/-! ### Tables and their names -/

namespace Command

theorem Table.find?_name {table : Table π} (distinct : table.names.Nodup) {e : Entry π}
    (member : e ∈ table.entries) : table.find? e.name = some e := by
  cases found : table.find? e.name with
  | none => simpa using List.find?_eq_none.1 found e member
  | some f =>
      have same : f.name = e.name := by simpa using List.find?_some found
      exact congrArg some
        (List.inj_on_of_nodup_map distinct (List.mem_of_find?_eq_some found) member same)

end Command

/-! ### Offers -/

/-- What may be offered for a menu. -/
inductive MenuOffer (σ : Type) where
  | nothing
  /-- Commands, of which a table is to be made. -/
  | commands (entries : List (Command.Entry (Program σ)))
  /-- A table that has been made. -/
  | table (entries : List (Command.Entry (Program σ))) (table : Command.Table (Program σ))
    (made : Command.Table.ofList entries = .ok table)

namespace MenuOffer

def act : MenuOffer σ → Act σ Bool
  | nothing => setMenu none
  | commands entries => setMenu (some entries)
  | table _ made _ => offerMenu (some made)

def entries? : MenuOffer σ → Option (List (Command.Entry (Program σ)))
  | nothing => none
  | commands entries => some entries
  | table entries _ _ => some entries

/-- The menu that an offer can become: a table with commands in it. -/
def menu? (o : MenuOffer σ) : Option (Command.Table (Program σ)) :=
  match o.entries? with
  | some entries => if entries ≠ [] ∧ Command.Sound entries then some ⟨entries⟩ else none
  | none => none

/-- What is offered makes no table. -/
def Unsound (o : MenuOffer σ) : Prop := ∃ entries, o.entries? = some entries ∧ ¬ Command.Sound entries

end MenuOffer

/-! ### What becomes of an offer -/

theorem result_offerMenu_of_taken {table : Command.Table (Program σ)} (filled : table.entries ≠ [])
    (unset : s.registry.menu = none) : (offerMenu (some table)).result s =
      (.ok true, { s with registry := { s.registry with menu := some table } }) := by
  have nonempty : table.entries.isEmpty = false := by simpa using filled
  simp only [offerMenu, result_get_bind, Command.Registry.setMenu, unset, nonempty]
  rfl

theorem result_offerMenu_of_refused {table : Option (Command.Table (Program σ))}
    (refused : ∀ made, table = some made → made.entries ≠ [] → s.registry.menu ≠ none) :
    ∃ event, (offerMenu table).result s = (.ok false, s.log event) := by
  refine ⟨⟨.warning, "Menu not set",
    [("reason", .text (if s.registry.menu.isSome then "already set" else "empty menu"))]⟩, ?_⟩
  have kept : s.registry.setMenu table = (false, s.registry) := by
    unfold Command.Registry.setMenu
    split
    · rename_i made unset
      split
      · rfl
      · rename_i nonempty
        exact absurd unset (refused _ rfl (by simpa using nonempty))
    · rfl
  simp only [offerMenu, result_get_bind, kept]
  rfl

namespace MenuOffer

variable {o : MenuOffer σ}

theorem result_act_of_entries {entries : List (Command.Entry (Program σ))}
    (offered : o.entries? = some entries) (sound : Command.Sound entries) :
    o.act.result s = (offerMenu (some ⟨entries⟩)).result s := by
  have made := Command.Table.ofList_eq_ok_iff.2 ⟨sound, rfl⟩
  cases o with
  | nothing => cases offered
  | commands _ =>
      cases offered
      simp only [act, setMenu, menuTable, made, result_pure_bind]
  | table _ table making =>
      cases offered
      rw [act, (Command.Table.ofList_eq_ok_iff.1 making).2]

/-- What makes no table is refused with a failure, and changes nothing. -/
theorem result_act_of_unsound (unsound : o.Unsound) :
    ∃ fault, o.act.result s = (.error (.failure (.table fault)), s) := by
  obtain ⟨entries, offered, unsound⟩ := unsound
  cases o with
  | nothing => cases offered
  | commands _ =>
      cases offered
      cases made : Command.Table.ofList entries with
      | error fault =>
          refine ⟨fault, ?_⟩
          simp only [act, setMenu, menuTable, made, result_fail_bind]
      | ok table => exact absurd (Command.Table.ofList_eq_ok_iff.1 made).1 unsound
  | table _ table making =>
      cases offered
      exact absurd (Command.Table.ofList_eq_ok_iff.1 making).1 unsound

theorem menu?_eq_some_iff {table : Command.Table (Program σ)} : o.menu? = some table ↔
    ∃ entries, o.entries? = some entries ∧ entries ≠ [] ∧ Command.Sound entries ∧
      table = ⟨entries⟩ := by
  unfold menu?
  cases o.entries? with
  | none => simp
  | some entries => simp [and_assoc, eq_comm]

/-- An offer that can become the menu does so if there is none. -/
theorem result_act_of_taken {table : Command.Table (Program σ)} (proper : o.menu? = some table)
    (unset : s.registry.menu = none) : o.act.result s =
      (.ok true, { s with registry := { s.registry with menu := some table } }) := by
  obtain ⟨entries, offered, filled, sound, rfl⟩ := menu?_eq_some_iff.1 proper
  rw [result_act_of_entries offered sound, result_offerMenu_of_taken filled unset]

/-- Any other one that makes a table, or none, is refused, which is only logged. -/
theorem result_act_of_refused (sound : ¬ o.Unsound)
    (refused : o.menu? ≠ none → s.registry.menu ≠ none) :
    ∃ event, o.act.result s = (.ok false, s.log event) := by
  cases offered : o.entries? with
  | none =>
      cases o with
      | nothing => exact result_offerMenu_of_refused fun _ none => (nomatch none)
      | commands | table => cases offered
  | some entries =>
      have sound : Command.Sound entries :=
        by_contra fun unsound => sound ⟨entries, offered, unsound⟩
      rw [result_act_of_entries offered sound]
      refine result_offerMenu_of_refused ?_
      rintro _ ⟨⟩ filled
      exact refused fun none =>
        nomatch none.symm.trans (menu?_eq_some_iff.2 ⟨entries, offered, filled, sound, rfl⟩)

end MenuOffer

/-! ### Offers one after the other -/

/-- The states that a shell comes to by offers of menus, with the offers and how each was answered.
Between them anything may happen that leaves the commands alone. -/
inductive Offering (s₀ : Session σ) :
    List (MenuOffer σ × Except Interrupt Bool) → Session σ → Prop
  | start : Offering s₀ [] s₀
  | offer {log : List (MenuOffer σ × Except Interrupt Bool)} {s : Session σ}
      (before : Offering s₀ log s) (o : MenuOffer σ) :
      Offering s₀ (log ++ [(o, (o.act.result s).1)]) (o.act.result s).2
  | other {log : List (MenuOffer σ × Except Interrupt Bool)} {s t : Session σ}
      (before : Offering s₀ log s) (same : t.registry = s.registry) : Offering s₀ log t

/-- The menu that comes of some offers: that of the first one that can become the menu. -/
def firstMenu? (log : List (MenuOffer σ × Except Interrupt Bool)) :
    Option (Command.Table (Program σ)) :=
  log.findSome? (·.1.menu?)

/-- How an offer is answered, some others having come before. -/
def MenuOffer.AnsweredBy (o : MenuOffer σ) (before : List (MenuOffer σ × Except Interrupt Bool))
    (r : Except Interrupt Bool) : Prop :=
  (o.Unsound ∧ ∃ fault, r = .error (.failure (.table fault))) ∨
    (¬ o.Unsound ∧ r = .ok (o.menu?.isSome && (firstMenu? before).isNone))

variable {log : List (MenuOffer σ × Except Interrupt Bool)}

theorem firstMenu?_concat (o : MenuOffer σ) (r : Except Interrupt Bool) :
    firstMenu? (log ++ [(o, r)]) = (firstMenu? log).or o.menu? := by
  cases found : o.menu? <;> simp [firstMenu?, found]

theorem MenuOffer.menu?_of_unsound {o : MenuOffer σ} (unsound : o.Unsound) : o.menu? = none := by
  obtain ⟨entries, offered, unsound⟩ := unsound
  simp [menu?, offered, unsound]

theorem MenuOffer.act_cases (o : MenuOffer σ) (held : s.registry.menu = firstMenu? log) :
    o.AnsweredBy log (o.act.result s).1 ∧ (o.act.result s).2.registry =
      { s.registry with menu := (firstMenu? log).or o.menu? } := by
  by_cases unsound : o.Unsound
  · obtain ⟨fault, answered⟩ := result_act_of_unsound (s := s) unsound
    rw [answered, menu?_of_unsound unsound, Option.or_none, ← held]
    exact ⟨.inl ⟨unsound, fault, rfl⟩, rfl⟩
  · by_cases taken : o.menu? ≠ none ∧ s.registry.menu = none
    · obtain ⟨proper, unset⟩ := taken
      obtain ⟨table, proper⟩ := Option.ne_none_iff_exists'.1 proper
      rw [result_act_of_taken proper unset, ← held, unset, Option.none_or, proper]
      refine ⟨.inr ⟨unsound, ?_⟩, rfl⟩
      simp [proper, ← held, unset]
    · have refused : o.menu? ≠ none → s.registry.menu ≠ none := by tauto
      obtain ⟨event, answered⟩ := result_act_of_refused unsound refused
      have kept : (firstMenu? log).or o.menu? = s.registry.menu := by
        rw [held] at refused ⊢
        cases first : firstMenu? log with
        | some table => rfl
        | none => exact by_contra fun other => refused (by simpa using other) first
      have alike : (s.log event).registry = s.registry := by
        obtain ⟨_, _, _, logged⟩ := s.log_frame event
        rw [logged]
      rw [answered, kept]
      refine ⟨.inr ⟨unsound, ?_⟩, alike⟩
      rw [held] at refused
      cases proper : o.menu? with
      | none => rfl
      | some table =>
          have set : firstMenu? log ≠ none := refused (by simp [proper])
          cases first : firstMenu? log with
          | none => exact absurd first set
          | some _ => rfl

/-! ### All offers -/

theorem Offering.registry (offering : Offering s₀ log s) (new : s₀.registry.menu = none) :
    s.registry = { s₀.registry with menu := firstMenu? log } := by
  induction offering with
  | start => simp [firstMenu?, ← new]
  | @offer log s _ o ih =>
      have held : s.registry.menu = firstMenu? log := by rw [ih]
      rw [(o.act_cases held).2, ih, firstMenu?_concat]
  | other _ same ih => rw [same, ih]

/-- Every offer is answered by what has been offered before it. -/
theorem Offering.answered (offering : Offering s₀ log s) (new : s₀.registry.menu = none)
    {k : Nat} {o : MenuOffer σ} {r : Except Interrupt Bool} (kth : log[k]? = some (o, r)) :
    o.AnsweredBy (log.take k) r := by
  induction offering with
  | start => cases kth
  | @offer log s before last ih =>
      obtain ⟨inside, -⟩ := List.getElem?_eq_some_iff.1 kth
      rw [List.length_append, List.length_singleton] at inside
      by_cases earlier : k < log.length
      · rw [List.getElem?_append_left earlier] at kth
        rw [List.take_append_of_le_length earlier.le]
        exact ih kth
      · obtain rfl : k = log.length := by omega
        have held : s.registry.menu = firstMenu? log := by rw [before.registry new]
        simp only [List.getElem?_concat_length, Option.some.injEq, Prod.mk.injEq] at kth
        obtain ⟨rfl, rfl⟩ := kth
        rw [List.take_left]
        exact (last.act_cases held).1
  | other _ _ ih => exact ih kth

/-! ### Whatever programs do -/

def Session.HasMenu (r : Command.Registry (Program σ)) (s : Session σ) : Prop :=
  s.registry = r ∧ r.menu.isSome

variable {r : Command.Registry (Program σ)}

theorem unattached_hasMenu : Unattached (σ := σ) (HasMenu r) where
  inlet _ _ _ h := h
  handlers h := h
  torn h := h
  left h := h
  ended h := h

theorem hasMenu_change {f : Session σ → Session σ} (h : s.HasMenu r)
    (c : Change freeRules s f) : (f s).HasMenu r := by
  cases c with
  | menu _ _ unset =>
      have set := h.2
      rw [← h.1, unset] at set
      cases set
  | prompt text =>
      simp only [Session.setPrompt]
      split <;> exact h
  | _ => exact h

theorem keys_hasMenu : KeysPreserve (σ := σ) freeRules (HasMenu r) (HasMenu r)
    fun _ => HasMenu r where
  change h c := by cases c <;> exact h
  failed h := h
  begin h _ := h
  leave h := h
  givenUp h _ := h
  endInput h := h
  drop h _ := h
  broken h := h

/-- Once there is a menu, no program changes the commands. -/
theorem closed_hasMenu : Closed freeRules (Invariant (σ := σ) freeRules (HasMenu r)) :=
  unattached_hasMenu.toClosed hasMenu_change keys_hasMenu (fun h _ _ => h) id id fun _ => id

/-! ### The law -/

/-- The law of menus, for a shell without one and some offers that it comes to a state by. -/
structure MenuLaw (s₀ : Session σ) (log : List (MenuOffer σ × Except Interrupt Bool))
    (s : Session σ) : Prop where
  /-- What makes no table is refused with a failure, in any state, and changes nothing. -/
  unsound : ∀ (o : MenuOffer σ) (t : Session σ), o.Unsound →
    ∃ fault, o.act.result t = (.error (.failure (.table fault)), t)
  failed : ∀ (k : Nat) o r, log[k]? = some (o, r) →
    ((∃ i, r = .error i) ↔ o.Unsound)
  /-- The first offer that makes a table with commands is taken, and no other one. -/
  taken : ∀ (k : Nat) o r, log[k]? = some (o, r) →
    (r = .ok true ↔ o.menu? ≠ none ∧ ∀ earlier ∈ log.take k, earlier.1.menu? = none)
  /-- Its table is the menu, and the default commands are what they were. -/
  menu : s.registry.menu = firstMenu? log
  defaults : s.registry.defaults = s₀.registry.defaults
  /-- So it stays, whatever programs are run and whatever they offer. -/
  lasting : s.consumer = .commands → s.registry.menu ≠ none →
    ∀ depth p, ((Program.exec depth p).result s).2.registry = s.registry
  /-- A name is that of the first command with this name, those of the menu coming first. -/
  resolved : ∀ name, s.registry.resolve? name =
    (((firstMenu? log).elim [] Command.Table.entries) ++ s₀.registry.defaults.entries).find?
      (·.name = name)
  /-- A prefix is completed to the names that begin with it, those of the menu coming last. -/
  offered : ∀ call text line, ∃ t, (Session.complete call text 0 line).result s =
    (.ok ((s₀.registry.defaults.names ++ (firstMenu? log).elim [] Command.Table.names).filter
      fun name => text.toList.isPrefixOf name.toList), t)
  /-- In every table the command that is found for the name of one is this one. -/
  found : ∀ table ∈ s.registry.tables, ∀ e ∈ table.entries, table.find? e.name = some e

/-- The first menu with commands that is offered to a shell is its menu, and no other one. -/
theorem menuLaw (offering : Offering s₀ log s) (new : s₀.registry.menu = none)
    (made : ∃ commands, Command.Table.ofList commands = .ok s₀.registry.defaults) :
    MenuLaw s₀ log s := by
  have registry := offering.registry new
  constructor
  case unsound => exact fun o t unsound => MenuOffer.result_act_of_unsound unsound
  case failed =>
    intro k o r kth
    obtain ⟨unsound, fault, rfl⟩ | ⟨sound, rfl⟩ := offering.answered new kth
    · exact ⟨fun _ => unsound, fun _ => ⟨_, rfl⟩⟩
    · constructor
      · rintro ⟨_, ⟨⟩⟩
      · exact fun unsound => absurd unsound sound
  case taken =>
    intro k o r kth
    obtain ⟨unsound, fault, rfl⟩ | ⟨-, rfl⟩ := offering.answered new kth
    · simp [MenuOffer.menu?_of_unsound unsound]
    · simp [firstMenu?, Option.isSome_iff_ne_none]
  case menu => rw [registry]
  case defaults => rw [registry]
  case lasting =>
    intro consumer set depth p
    have here : s.HasMenu s.registry := ⟨rfl, Option.isSome_iff_ne_none.2 set⟩
    exact (closed_hasMenu.left depth p.follows_free ⟨here, follows_free consumer⟩).1.1
  case resolved =>
    intro name
    rw [Command.Registry.resolve?_eq_find?, registry, Command.Registry.tables]
    cases firstMenu? log <;> simp
  case offered =>
    intro call text line
    obtain ⟨t, answered, -⟩ := Completion.result_complete_names call text line s
    refine ⟨t, ?_⟩
    rw [answered, Command.Registry.namesFrom, registry, Command.Registry.tables]
    cases firstMenu? log <;> simp
  case found =>
    intro table among e member
    refine Command.Table.find?_name ?_ member
    rw [registry] at among
    obtain first | rfl := Command.Registry.mem_tables.1 among
    · obtain ⟨⟨o, _⟩, -, proper⟩ := List.exists_of_findSome?_eq_some first
      obtain ⟨entries, -, -, sound, rfl⟩ := MenuOffer.menu?_eq_some_iff.1 proper
      exact sound.1
    · obtain ⟨_, made⟩ := made
      exact Command.Table.nodup_names made

/-- Nothing, a name that comes twice, no commands, and then two menus: the first of these is
taken. -/
theorem taken_menulessShell : ∃ log s, MenuLaw menulessShell log s ∧
    log.map (·.2.toOption) = [some false, none, some false, some true, some false] ∧
    s.registry.menu.map Command.Table.names = some ["help"] ∧
    s.registry.namesFrom "" = ["version", "quit", "exit", "help", "help"] := by
  let other : Command.Entry (Program Unit) := { name := "go", handler := fun _ => .skip }
  have started : Offering menulessShell [] menulessShell := .start
  have offering := (((started.offer .nothing).offer (.commands [ownHelp, ownHelp])).offer
    (.commands [])).offer (.commands [ownHelp])
  have offering := offering.offer (.table [other] ⟨[other]⟩ rfl)
  refine ⟨_, _, menuLaw offering rfl ⟨defaultCommands, rfl⟩, ?_, ?_, ?_⟩
  · decide
  · decide
  · decide +kernel

end LineShell
