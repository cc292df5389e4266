import LineShell.Proofs.Dispatching
import LineShell.Proofs.Unpainted

/-!
# The listing of commands

Below two headings there is a row for each command. Its name and its hint fill 48 columns together,
so that the descriptions stand below each other, and only a row whose name and hint are longer than
that is shifted. Nothing in a row is read as part of a template, and nothing is cut.
-/

namespace LineShell

open Act Edit Session Colour

variable {σ π : Type} {s : Session σ}

/-! ### Lines below each other -/

/-- Lines as they are written, each with a line feed behind it. -/
def Text.ended (lines : List String) : String :=
  String.join (lines.map (· ++ "\n"))

theorem Text.splitOn_ended {lines : List String} (whole : ∀ line ∈ lines, '\n' ∉ line.toList) :
    (ended lines).toList.splitOn '\n' = lines.map String.toList ++ [[]] := by
  induction lines with
  | nil => rfl
  | cons line lines ih =>
      obtain ⟨here, later⟩ := List.forall_mem_cons.1 whole
      have parts : (ended (line :: lines)).toList =
          line.toList ++ '\n' :: (ended lines).toList := by
        simp [ended]
      rw [parts, List.splitOn_append_cons_self_of_not_mem here, ih later]
      rfl

namespace Edit.Editor

/-- The editor behind some lines that are written, nothing else having changed. -/
def below (e : Editor) (lines : List String) : Editor :=
  { e with
    writes := (lines.map fun line => .output (line ++ "\n") e.phase).reverse ++ e.writes
    midRow := lines.isEmpty && e.midRow }

@[simp] theorem below_nil (e : Editor) : e.below [] = e := rfl

theorem below_cons (e : Editor) (line : String) (lines : List String) :
    e.below (line :: lines) = (e.below [line]).below lines := by
  simp [below, phase]

theorem print_line {e : Editor} (straight : e.active = false) (line : String) :
    e.print (line ++ "\n") = e.below [line] := by
  have full : line ++ "\n" ≠ "" := by simp [String.append_eq_empty_iff]
  rw [print_of_not_active straight, write_of_ne full]
  simp [below, emit]

theorem textOf_below (e : Editor) (lines : List String) :
    textOf (e.below lines).writes = textOf e.writes ++ Text.ended lines := by
  induction lines generalizing e with
  | nil => simp [Text.ended]
  | cons line lines ih =>
      rw [below_cons, ih]
      simp [below, Text.ended, Write.text, String.append_assoc]

end Edit.Editor

/-! ### How a command is listed -/

namespace Command.Entry

def shownHint (e : Entry π) : String := e.hint.getD ""

def row (e : Entry π) : String :=
  e.name ++ " " ++ e.shownHint ++
    String.ofList (List.replicate (48 - (e.name.length + e.shownHint.length)) ' ') ++ " " ++
    e.description

/-- What is listed of a command holds no line feed. -/
def OnOneLine (e : Entry π) : Prop :=
  '\n' ∉ e.name.toList ∧ '\n' ∉ e.shownHint.toList ∧ '\n' ∉ e.description.toList

theorem listingHead_append (e : Entry π) : listingHead e ++ e.description = e.row := by
  rw [← String.toList_inj]
  simp [listingHead, row, shownHint, listingWidth, Text.toList_padRight, Nat.sub_sub]

theorem length_listingHead (e : Entry π) :
    (listingHead e).length = max 48 (e.name.length + e.shownHint.length) + 2 := by
  have space : " ".length = 1 := rfl
  simp only [listingHead, listingWidth, String.length_append, Text.length_padRight, space]
  rw [shownHint]
  omega

theorem not_mem_row {e : Entry π} (oneLine : e.OnOneLine) : '\n' ∉ e.row.toList := by
  simp [row, oneLine.1, oneLine.2.1, oneLine.2.2]

/-- A colour code that has begun in a name or a hint ends before the description. -/
theorem snd_unpaint_listingHead (e : Entry π) : (unpaint (listingHead e)).2 = .text := by
  rw [unpaint, listingHead, String.toList_append]
  exact Scan.snd_run_concat _ _ (.inl rfl)

/-- The default commands are listed in a row each. -/
theorem oneLine_defaultCommands : ∀ e ∈ defaultCommands (σ := σ), e.OnOneLine := by
  simp [defaultCommands, OnOneLine, shownHint]

end Command.Entry

/-! ### Rows -/

/-- A row of the listing: what is highlighted, and what stands behind. -/
structure ListedRow where
  front : String
  behind : String := ""
  deriving DecidableEq, Repr

namespace ListedRow

def plain (r : ListedRow) : String := r.front ++ r.behind

def shown (colours : Bool) (r : ListedRow) : String :=
  Colour.highlight.paint colours r.front ++ r.behind

theorem not_mem_shown {r : ListedRow} (whole : '\n' ∉ r.plain.toList) (colours : Bool) :
    '\n' ∉ (r.shown colours).toList := by
  cases colours <;> simp_all [plain, shown, paint, wrap, code, off]

theorem strip_shown {r : ListedRow} (closed : (unpaint r.front).2 = .text) (colours : Bool) :
    strip (r.shown colours) = strip r.plain := by
  have afresh : (Scan.text.run []).2 = .text ∨ Scan.Opens r.front.toList := .inl rfl
  have same : unpaint (r.shown colours) = unpaint r.plain := by
    have painted := run_painted (u := r.behind.toList) .highlight colours afresh (.inl closed)
    simpa [unpaint, shown, plain] using painted
  rw [strip, same, strip]

theorem strip_plain {r : ListedRow} (uncoloured : '\x1b' ∉ r.plain.toList) :
    strip r.plain = r.plain :=
  strip_paint .highlight false uncoloured

end ListedRow

def headings : List String := ["Available commands:", "-------------------"]

def Command.Entry.listed (e : Command.Entry π) : ListedRow := ⟨listingHead e, e.description⟩

namespace Session

def listing (s : Session σ) : List ListedRow :=
  headings.map (fun text => { front := text }) ++ s.commands.map Command.Entry.listed

theorem closed_listing {r : ListedRow} (member : r ∈ s.listing) : (unpaint r.front).2 = .text := by
  rcases List.mem_append.1 member with heading | command
  · have closed : ∀ text ∈ headings, (unpaint text).2 = .text := by decide
    obtain ⟨text, listed, rfl⟩ := List.mem_map.1 heading
    exact closed text listed
  · obtain ⟨e, -, rfl⟩ := List.mem_map.1 command
    exact e.snd_unpaint_listingHead

theorem map_plain_listing (s : Session σ) :
    s.listing.map ListedRow.plain =
      headings ++ s.commands.map Command.Entry.row := by
  have rows : ListedRow.plain ∘ Command.Entry.listed (π := Program σ) = Command.Entry.row :=
    funext Command.Entry.listingHead_append
  rw [listing, List.map_append, List.map_map, List.map_map, rows]
  rfl

theorem not_mem_listing (oneLine : ∀ e ∈ s.commands, e.OnOneLine) {r : ListedRow}
    (member : r ∈ s.listing) : '\n' ∉ r.plain.toList := by
  have plain : r.plain ∈ s.listing.map ListedRow.plain := List.mem_map_of_mem member
  rw [map_plain_listing] at plain
  rcases List.mem_append.1 plain with heading | command
  · have unbroken : ∀ text ∈ headings, '\n' ∉ text.toList := by decide
    exact unbroken _ heading
  · obtain ⟨e, listed, row⟩ := List.mem_map.1 command
    exact row ▸ e.not_mem_row (oneLine e listed)

/-! ### Printing the rows -/

def printRow (s : Session σ) (r : ListedRow) : Session σ :=
  s.printText (r.shown s.colours ++ "\n")

theorem printHighlighted_eq_printRow (s : Session σ) (text : String) :
    s.printHighlighted text = s.printRow { front := text } := by
  simp [printHighlighted, printRow, ListedRow.shown, highlighted]

theorem printMenu_eq_foldl (s : Session σ) : s.printMenu = s.listing.foldl printRow s := by
  rw [listing, List.foldl_append, List.foldl_map, List.foldl_map, ← flatMap_tables, printMenu,
    printHighlighted_eq_printRow, printHighlighted_eq_printRow]
  rfl

/-- Where output goes straight through, the rows are written one below the other. -/
theorem foldl_printRow (straight : s.editor.active = false) (rows : List ListedRow) :
    rows.foldl printRow s = s.onEditor (·.below (rows.map (·.shown s.colours))) := by
  induction rows generalizing s with
  | nil => rfl
  | cons r rows ih =>
      have first : s.printRow r = s.onEditor (·.below [r.shown s.colours]) := by
        rw [printRow, printText, onEditor, Editor.print_line straight, onEditor]
      have next : (s.printRow r).editor.active = false := by rw [first]; exact straight
      rw [List.foldl_cons, ih next, first, List.map_cons]
      exact congrArg (fun editor => { s with editor }) (Editor.below_cons ..).symm

end Session

/-! ### Templates -/

namespace Text.Template

theorem fill_line (text : String) : fill "%s\n" [.text text] = .ok (text ++ "\n") := by
  simp [fill, fillFrom, Rest.skip, field_text, bind, Except.bind]

theorem fill_two (front behind : String) :
    fill "%s%s\n" [.text front, .text behind] = .ok (front ++ behind ++ "\n") := by
  simp [fill, fillFrom, Rest.skip, field_text, bind, Except.bind, String.append_assoc]

end Text.Template

/-- Prints the listing by templates, of which the parts of the rows are the arguments. -/
def listByTemplates : Act σ Unit := do
  headings.forM fun text => do
    print "%s\n" [.text ((← get).highlighted text)]
  (← get).commands.forM fun e => do
    print "%s%s\n" [.text ((← get).highlighted (listingHead e)), .text e.description]

theorem result_print_of_filled {template text : String} {args : List Datum} (given : args ≠ [])
    (filled : Text.Template.fill template args = .ok text) :
    (print template args).result s = (.ok ⟨⟩, s.printText text) := by
  have full : args.isEmpty = false := by simpa using given
  simp only [print, full, filled]
  rfl

theorem result_forM_of_ok {α : Type} {f : α → Act σ Unit} {next : Session σ → α → Session σ}
    (each : ∀ a t, (f a).result t = (.ok ⟨⟩, next t a)) (l : List α) (s : Session σ) :
    (l.forM f).result s = (.ok ⟨⟩, l.foldl next s) := by
  induction l generalizing s with
  | nil => rfl
  | cons a l ih =>
      rw [result_forM_cons, each]
      exact ih (next s a)

/-- The arguments of a template are no templates themselves, so that a percent sign is printed as
it is listed. -/
theorem result_listByTemplates (s : Session σ) :
    listByTemplates.result s = (.ok ⟨⟩, s.printMenu) := by
  have heading : ∀ text (t : Session σ),
      (do print "%s\n" [.text ((← get).highlighted text)] : Act σ Unit).result t =
        (.ok ⟨⟩, t.printHighlighted text) := by
    intro text t
    rw [result_get_bind]
    exact result_print_of_filled (by simp) (Text.Template.fill_line _)
  have row : ∀ (e : Command.Entry (Program σ)) (t : Session σ),
      (do print "%s%s\n" [.text ((← get).highlighted (listingHead e)), .text e.description]
        : Act σ Unit).result t =
        (.ok ⟨⟩, t.printText (t.highlighted (listingHead e) ++ e.description ++ "\n")) := by
    intro e t
    rw [result_get_bind]
    exact result_print_of_filled (by simp) (Text.Template.fill_two ..)
  rw [listByTemplates, result_bind, result_forM_of_ok heading]
  simp only [result_get_bind]
  rw [result_forM_of_ok row, printMenu, flatMap_tables]
  rfl

/-! ### The law -/

/-- The law of the listing that is printed in a state of a shell. -/
structure ListingLaw (s : Session σ) : Prop where
  /-- Without their colours the rows are the headings, and those of the commands of the menu and
  then of the default ones, each in its order. -/
  rows : s.listing.map ListedRow.plain = headings ++ s.commands.map Command.Entry.row
  /-- The rows are written one below the other, and nothing else is done. -/
  printed : s.printMenu = s.onEditor (·.below (s.listing.map (·.shown s.colours)))
  /-- Cut at its line feeds the text is these rows, and nothing behind the last one. -/
  cut : ∃ text, textOf s.printMenu.editor.writes = textOf s.editor.writes ++ text ∧
    text.toList.splitOn '\n' = (s.listing.map fun r => (r.shown s.colours).toList) ++ [[]]
  /-- What a row loses with its colour codes is what a text in it loses that holds some itself. -/
  stripped : ∀ r ∈ s.listing, strip (r.shown s.colours) = strip r.plain ∧
    ('\x1b' ∉ r.plain.toList → strip (r.shown s.colours) = r.plain)
  /-- A description begins in column 50, unless name and hint are too long for it. -/
  aligned : ∀ e ∈ s.commands, ∃ head, e.row = head ++ e.description ∧
    head.length = max 48 (e.name.length + e.shownHint.length) + 2
  /-- Filling templates in with the parts of the rows prints the same. -/
  templates : listByTemplates.result s = (.ok ⟨⟩, s.printMenu)

theorem listingLaw (s : Session σ) (straight : s.editor.active = false)
    (oneLine : ∀ e ∈ s.commands, e.OnOneLine) : ListingLaw s := by
  have printed : s.printMenu = s.onEditor (·.below (s.listing.map (·.shown s.colours))) := by
    rw [printMenu_eq_foldl, foldl_printRow straight]
  constructor
  case rows => exact s.map_plain_listing
  case printed => exact printed
  case cut =>
    refine ⟨Text.ended (s.listing.map (·.shown s.colours)), ?_, ?_⟩
    · rw [printed]
      exact s.editor.textOf_below _
    · rw [Text.splitOn_ended, List.map_map]
      · rfl
      · intro line member
        obtain ⟨r, listed, rfl⟩ := List.mem_map.1 member
        exact r.not_mem_shown (not_mem_listing oneLine listed) s.colours
  case stripped =>
    intro r listed
    have alike := ListedRow.strip_shown (closed_listing listed) s.colours
    exact ⟨alike, fun uncoloured => alike.trans (ListedRow.strip_plain uncoloured)⟩
  case aligned => exact fun e _ => ⟨listingHead e, e.listingHead_append.symm, e.length_listingHead⟩
  case templates => exact result_listByTemplates s

/-- A shell that paints its listing. A name and a hint in it are too long for their columns, a
command hides a default one, and percent signs stand in all places. -/
def crowdedShell : Session Unit :=
  let long (c : Char) : String := String.ofList (List.replicate 60 c)
  let menu : List (Command.Entry (Program Unit)) := [
    { name := "%d", handler := fun _ => .done .nothing, hint := some "%s%", description := "100%" },
    { name := long 'n', handler := fun _ => .done .nothing },
    { name := "far", handler := fun _ => .done .nothing, hint := some (long 'h'),
      description := "Shifted" },
    { name := "quit", handler := fun _ => .done .nothing, description := "Do not quit" }]
  { bareShell menu () with colours := true }

theorem listingLaw_crowdedShell : crowdedShell.editor.active = false ∧
    (∀ e ∈ crowdedShell.commands, e.OnOneLine) ∧ ListingLaw crowdedShell := by
  have oneLine : ∀ e ∈ crowdedShell.commands, e.OnOneLine := by
    intro e member
    rcases List.mem_append.1 member with menu | default
    · simp only [crowdedShell, bareShell, Option.elim_some, List.mem_cons, List.not_mem_nil,
        or_false] at menu
      rcases menu with rfl | rfl | rfl | rfl <;>
        simp [Command.Entry.OnOneLine, Command.Entry.shownHint]
    · exact Command.Entry.oneLine_defaultCommands e default
  exact ⟨rfl, oneLine, listingLaw crowdedShell rfl oneLine⟩

end LineShell
