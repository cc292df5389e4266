import LineShell.Proofs.Runs
import LineShell.Proofs.Stores

/-!
# Starts that fail

A start reads the command line, finds the settings that are asked for, puts them into force for the
whole process, and only then sets up the log with the level that they name and opens the history
file. Whatever fails before leaves nothing behind but its report. Behind that two names can still
make the start fail: that of the level, if something else is found under it, and that of the history
file, if it stands for the home directory of another user or its directory has a name with the
character NUL. The settings stay in force then, without a session.
-/

namespace LineShell

open Act Edit Session

variable {σ : Type} {s t : Session σ} {settings : Settings}

/-! ### Finding the settings -/

/-- The settings that a command line asks for; none if it is answered or refused without any. -/
def Session.requested? (s : Session σ) (argv : List String) : Option Settings :=
  match Options.ofArgs argv with
  | .error _ => none
  | .ok o =>
    if o.help || o.version then none else ((requestedSettings o).result s).1.toOption

/-- Nothing has changed but what was written beside the screen. -/
def Session.OnlyReports (s t : Session σ) : Prop :=
  ∃ errors printed, t = { s with host := { s.host with errors, printed } }

theorem Session.OnlyReports.refl (s : Session σ) : s.OnlyReports s :=
  ⟨s.host.errors, s.host.printed, rfl⟩

theorem onlyReports_reportLine (s : Session σ) (line : String) :
    s.OnlyReports (s.reportLine line) :=
  ⟨(line ++ "\n") :: s.host.errors, s.host.printed, rfl⟩

theorem onlyReports_printLine (s : Session σ) (line : String) : s.OnlyReports (s.printLine line) :=
  ⟨s.host.errors, (line ++ "\n") :: s.host.printed, rfl⟩

theorem result_exitWith {α : Type} (report : String) (s : Session σ) :
    (exitWith report : Act σ α).result s = (.error (.exit 1), s.reportLine report) := rfl

theorem result_endWith {α : Type} (line : String) (s : Session σ) :
    (endWith line : Act σ α).result s = (.error (.exit 0), s.printLine line) := rfl

theorem result_namedSettings (o : Options) (s : Session σ) :
    (∃ found, (namedSettings o).result s = (.ok found, s)) ∨
      ∃ i t, (namedSettings o).result s = (.error i, t) ∧ s.OnlyReports t := by
  simp only [namedSettings, result_get_bind]
  by_cases unnamed : o.config = ""
  · rw [if_pos unnamed]
    exact .inl ⟨s.settings, by simp⟩
  · rw [if_neg unnamed]
    cases Settings.loadWith .known s.host.library s.host.store s.host.env s.host.places
        (some o.config) with
    | ok found => exact .inl ⟨found, by simp⟩
    | error fault =>
        right
        by_cases reported : fault.isReported = true
        · exact ⟨_, _, by simp only [reported, if_true]; exact result_exitWith _ s,
            onlyReports_reportLine s _⟩
        · exact ⟨_, s, by simp only [reported]; exact result_fail _ s, .refl s⟩

theorem result_requestedSettings (o : Options) (s : Session σ) :
    (∃ found, (requestedSettings o).result s = (.ok found, s)) ∨
      ∃ i t, (requestedSettings o).result s = (.error i, t) ∧ s.OnlyReports t := by
  rw [requestedSettings, result_bind]
  rcases result_namedSettings o s with ⟨found, h⟩ | ⟨i, t, h, same⟩
  · rw [h]
    exact .inl ⟨_, result_pure _ s⟩
  · rw [h]
    exact .inr ⟨i, t, rfl, same⟩

/-! ### Opening the history file -/

namespace Files.Store

variable {path p : Path}

theorem makeDirectory_of_hasNul (store : Store) (named : p.hasNul = true) :
    store.makeDirectory p = .error .nul := by
  rw [makeDirectory, if_pos named]

theorem makeDirectory_ne_nul (store : Store) (named : p.hasNul = false) :
    store.makeDirectory p ≠ .error .nul := by
  rw [makeDirectory, named, if_neg Bool.false_ne_true]
  cases store.place p with
  | error cause => simp
  | ok q =>
      cases h : store.node? q with
      | none => simp [h]
      | some node => simp [h]

theorem makeDirectories_of_hasNul (store : Store) (named : p.hasNul = true) (height : Nat) :
    store.makeDirectories p height = .error .nul := by
  cases height with
  | zero => exact makeDirectory_of_hasNul store named
  | succ height => rw [makeDirectories, makeDirectory_of_hasNul store named]

theorem makeDirectories_ne_nul (store : Store) (named : p.hasNul = false) (height : Nat) :
    store.makeDirectories p height ≠ .error .nul := by
  induction height generalizing store p with
  | zero => exact makeDirectory_ne_nul store named
  | succ height ih =>
      have direct := makeDirectory_ne_nul store named
      have above := ih store (hasNul_parent named)
      intro h
      unfold makeDirectories at h
      split at h
      · cases h
      · -- The directory above is missing and is made first.
        split at h
        · cases h
        · cases made : store.makeDirectories p.parent height with
          | error fault =>
              rw [made] at h above
              exact above h
          | ok u =>
              have behind := makeDirectory_ne_nul u named
              simp only [made, bind, Except.bind] at h
              split at h
              · cases h
              · rename_i failed
                split at h
                · cases h
                · exact behind (failed.trans h)
      · rename_i failed
        exact direct failed
      · rename_i failed
        split at h
        · cases h
        · exact direct (failed.trans h)

theorem read_ne_nul (store : Store) (named : p.hasNul = false) : store.read p ≠ .error .nul := by
  rw [read, named, if_neg Bool.false_ne_true]
  cases store.place p with
  | error cause => simp
  | ok q =>
      rcases h : store.node? q with _ | _ | _ <;> simp [h]

theorem stored_ne_nul (store : Store) (path : Path) : History.stored store path ≠ .error .nul := by
  rw [History.stored]
  by_cases there : store.contains path
  · have named : path.hasNul = false := by
      simp only [contains, Bool.and_eq_true, Bool.not_eq_true'] at there
      exact there.1
    have readable := read_ne_nul store named
    rw [if_pos there]
    cases h : store.read path with
    | ok bytes => simp [Except.map]
    | error fault =>
        rw [h] at readable
        simpa [Except.map] using readable
  · rw [if_neg there]
    simp

end Files.Store

/-- No directory can have the name that the one of the history file is to have. -/
theorem load_of_hasNul {path : Path} (h : History) (store : Files.Store)
    (named : path.parent.hasNul = true) : h.load store path = (.error .nul, store) := by
  rw [History.load, Files.Store.prepareParent, Files.Store.makeDirectories_of_hasNul store named]

/-- Any other fault of a history file is one that is only logged. -/
theorem load_ne_nul {path : Path} (h : History) (store : Files.Store)
    (named : path.parent.hasNul = false) : (h.load store path).1 ≠ .error .nul := by
  have prepared := Files.Store.makeDirectories_ne_nul store named
    (path.parent.names.length + 1)
  rw [History.load, Files.Store.prepareParent]
  cases made : store.makeDirectories path.parent (path.parent.names.length + 1) with
  | error fault =>
      rw [made] at prepared
      simpa using prepared
  | ok u =>
      have readable := Files.Store.stored_ne_nul u path
      cases found : History.stored u path with
      | error fault =>
          rw [found] at readable
          simpa [found] using readable
      | ok entries => simp [found]

/-- Why the history file that some settings name cannot be opened at all. -/
def Settings.historyFault (settings : Settings) (places : UserPlaces) : Option Failure :=
  match settings.historyPath places with
  | .error fault => some (.settings (.ofPath fault))
  | .ok none => none
  | .ok (some path) => if path.parent.hasNul then some (.file .nul) else none

theorem result_openHistory_of_fault {fault : Failure}
    (h : settings.historyFault s.host.places = some fault) :
    (openHistory settings).result s = (.error (.failure fault), s) := by
  cases found : settings.historyPath s.host.places with
  | error fault =>
      simp only [Settings.historyFault, found, Option.some.injEq] at h
      simp only [openHistory, result_get_bind, found, result_fail, h]
  | ok named =>
      cases named with
      | none =>
          simp only [Settings.historyFault, found] at h
          cases h
      | some path =>
          simp only [Settings.historyFault, found] at h
          by_cases named : path.parent.hasNul = true
          · rw [if_pos named] at h
            cases h
            simp only [openHistory, result_get_bind, found, loadHistory, load_of_hasNul _ _ named,
              result_modify_bind, result_fail]
          · rw [if_neg named] at h
            cases h

theorem result_openHistory_of_none (h : settings.historyFault s.host.places = none) :
    ∃ t, (openHistory settings).result s = (.ok ⟨⟩, t) := by
  cases found : settings.historyPath s.host.places with
  | error fault =>
      simp only [Settings.historyFault, found] at h
      cases h
  | ok named =>
      cases named with
      | none =>
          refine ⟨s, ?_⟩
          simp only [openHistory, result_get_bind, found, result_pure]
      | some path =>
          simp only [Settings.historyFault, found] at h
          by_cases named : path.parent.hasNul = true
          · rw [if_pos named] at h
            cases h
          · have usable := load_ne_nul s.editor.history s.host.store (Bool.eq_false_iff.mpr named)
            simp only [openHistory, result_get_bind, found, loadHistory, result_modify_bind]
            rcases loaded : s.editor.history.load s.host.store path with ⟨(_ | _) | _, store⟩
            · exact ⟨_, rfl⟩
            · rw [loaded] at usable
              exact absurd rfl usable
            · exact ⟨_, rfl⟩

theorem result_loadHistory_of_ok {path : Path} {history : History}
    (loaded : (s.editor.history.load s.host.store path).1 = .ok history) :
    ∃ host, (loadHistory path).result s =
      (.ok ⟨⟩, { s with editor := { s.editor with history }, host }) := by
  simp only [loadHistory, result_get_bind]
  rcases read : s.editor.history.load s.host.store path with ⟨found, store⟩
  rw [read] at loaded
  cases loaded
  exact ⟨_, rfl⟩

theorem result_loadHistory_of_error {path : Path} {fault : Files.Fault}
    (failed : (s.editor.history.load s.host.store path).1 = .error fault) :
    ∃ writes midRow host, (loadHistory path).result s =
      (if fault = .nul then .error (.failure (.file .nul)) else .ok ⟨⟩,
        { s with editor := { s.editor with writes, midRow }, host }) := by
  simp only [loadHistory, result_get_bind]
  rcases read : s.editor.history.load s.host.store path with ⟨found, store⟩
  rw [read] at failed
  cases failed
  cases fault with
  | refused cause p =>
      let prepared : Session σ := { s with host := { s.host with store } }
      obtain ⟨writes, midRow, errors, logged⟩ := prepared.log_frame
        ⟨.debug, "Failed to load history", [("path", .text path.toString),
          ("error", .text (Files.Fault.refused cause p).message)]⟩
      refine ⟨writes, midRow, { s.host with store, errors }, ?_⟩
      simp only [result_modify_bind, result_modify, reduceCtorEq, if_false]
      exact congrArg (Prod.mk _) logged
  | nul => exact ⟨s.editor.writes, s.editor.midRow, { s.host with store }, rfl⟩

/-- Opening a history file changes at most the history, the files and what is written. -/
theorem openHistory_frame (settings : Settings) (s : Session σ) : ∃ history writes midRow host,
    ((openHistory settings).result s).2 =
      { s with editor := { s.editor with history, writes, midRow }, host } ∧
    (history = s.editor.history ∨
      ∃ store path, (s.editor.history.load store path).1 = .ok history) := by
  have kept : ∃ history writes midRow host, s =
      { s with editor := { s.editor with history, writes, midRow }, host } ∧
        (history = s.editor.history ∨
          ∃ store path, (s.editor.history.load store path).1 = .ok history) :=
    ⟨s.editor.history, s.editor.writes, s.editor.midRow, s.host, rfl, .inl rfl⟩
  simp only [openHistory, result_get_bind]
  split
  · exact kept
  · exact kept
  · rename_i path _
    cases loaded : (s.editor.history.load s.host.store path).1 with
    | ok history =>
        obtain ⟨host, h⟩ := result_loadHistory_of_ok loaded
        rw [h]
        exact ⟨history, s.editor.writes, s.editor.midRow, host, rfl, .inr ⟨_, _, loaded⟩⟩
    | error fault =>
        obtain ⟨writes, midRow, host, h⟩ := result_loadHistory_of_error loaded
        rw [h]
        exact ⟨s.editor.history, writes, midRow, host, rfl, .inl rfl⟩

/-! ### What a failed start leaves -/

theorem start_of_requested {argv : List String} (asked : s.requested? argv = some settings) :
    ∃ o, start argv = startWith (σ := σ) o ∧
      (requestedSettings o).result s = (.ok settings, s) := by
  cases read : Options.ofArgs argv with
  | error fault =>
      simp only [requested?, read] at asked
      cases asked
  | ok o =>
      simp only [requested?, read] at asked
      by_cases answered : (o.help || o.version) = true
      · rw [if_pos answered] at asked
        cases asked
      · rw [if_neg answered] at asked
        simp only [Bool.or_eq_true, not_or] at answered
        refine ⟨o, ?_, ?_⟩
        · simp only [start, read]
          rw [if_neg answered.1, if_neg answered.2]
        · rcases result_requestedSettings o s with ⟨found, h⟩ | ⟨i, t, h, -⟩
          · rw [h] at asked ⊢
            cases asked
            rfl
          · rw [h] at asked
            cases asked

/-- Why a shell cannot be started with some settings. -/
def Settings.startFault (settings : Settings) (places : UserPlaces) : Option Failure :=
  settings.levelFailure.or (settings.historyFault places)

theorem Settings.startFault_eq_some_iff {places : UserPlaces} {fault : Failure} :
    settings.startFault places = some fault ↔ settings.levelFailure = some fault ∨
      settings.levelFailure = none ∧ settings.historyFault places = some fault :=
  Option.or_eq_some_iff

theorem Settings.startFault_eq_none_iff {places : UserPlaces} :
    settings.startFault places = none ↔
      settings.levelFailure = none ∧ settings.historyFault places = none :=
  Option.or_eq_none_iff

/-- A start whose settings name a level that is none, or a history file that cannot be opened at
all. -/
theorem result_start_of_fault {argv : List String} {fault : Failure}
    (asked : s.requested? argv = some settings)
    (blocked : settings.startFault s.host.places = some fault) :
    (start argv).result s = (.error (.failure fault), s.adoptSettings settings) := by
  obtain ⟨o, h, found⟩ := start_of_requested asked
  rw [h, startWith, result_bind, found]
  simp only [result_modify_bind]
  rw [result_bind]
  obtain level | ⟨level, history⟩ := Settings.startFault_eq_some_iff.1 blocked
  · rw [result_checkLevel_of_some level]
  · have failed := result_openHistory_of_fault (s := s.adoptSettings settings) history
    rw [result_checkLevel_of_none level]
    simp only
    rw [result_bind, failed]

/-- Any other start that reaches its settings begins a session. -/
theorem result_start_of_open {argv : List String} (asked : s.requested? argv = some settings)
    (usable : settings.startFault s.host.places = none) :
    ∃ args, (start argv).result s =
      (.ok args, ((openHistory settings).result (s.adoptSettings settings)).2.beginRun) := by
  obtain ⟨o, h, found⟩ := start_of_requested asked
  obtain ⟨level, history⟩ := Settings.startFault_eq_none_iff.1 usable
  obtain ⟨t, opened⟩ := result_openHistory_of_none (s := s.adoptSettings settings) history
  refine ⟨o.args, ?_⟩
  rw [h, startWith, result_bind, found]
  simp only [result_modify_bind]
  rw [result_bind, result_checkLevel_of_none level]
  simp only
  rw [result_bind, opened]
  simp only [result_modify_bind, result_pure]

theorem result_start_of_unasked {argv : List String} (unasked : s.requested? argv = none) :
    ∃ i t, (start argv).result s = (.error i, t) ∧ s.OnlyReports t := by
  cases read : Options.ofArgs argv with
  | error fault =>
      simp only [start, read]
      exact ⟨_, _, result_exitWith _ s, onlyReports_reportLine s _⟩
  | ok o =>
      simp only [requested?, read] at unasked
      simp only [start, read]
      by_cases help : o.help = true
      · rw [if_pos help]
        exact ⟨_, _, result_endWith _ s, onlyReports_printLine s _⟩
      by_cases asked : o.version = true
      · rw [if_neg help, if_pos asked]
        exact ⟨_, _, result_endWith _ s, onlyReports_printLine s _⟩
      rw [if_neg (by simp [help, asked])] at unasked
      rw [if_neg help, if_neg asked]
      rcases result_requestedSettings o s with ⟨found, h⟩ | ⟨i, t, h, reports⟩
      · rw [h] at unasked
        cases unasked
      · refine ⟨i, t, ?_, reports⟩
        rw [startWith, result_bind, h]

/-- What a failed start leaves. -/
structure FailedStartLaw (argv : List String) (s : Session σ) (i : Interrupt) (t : Session σ) :
    Prop where
  /-- No session has begun. -/
  loop : t.loop = s.loop
  /-- The editor accepts no keys that it did not accept before; it has the prompt and the history
  entries that it had. -/
  editor : ∃ eraseEmptyLine limit, t.editor =
    { s.editor with eraseEmptyLine, history := { s.editor.history with limit } }
  /-- Where no settings are reached, only reports are left behind. -/
  refused : s.requested? argv = none → s.OnlyReports t
  /-- Settings that are reached can fail only by the names of their level and of their history file,
  and they are left in force. -/
  halfDone : ∀ settings, s.requested? argv = some settings →
    ∃ fault, settings.startFault s.host.places = some fault ∧ i = .failure fault ∧
      t = s.adoptSettings settings

/-- A start that fails has changed nothing, unless it has put its settings into force. -/
theorem failedStartLaw {argv : List String} {i : Interrupt}
    (failed : (start argv).result s = (.error i, t)) : FailedStartLaw argv s i t := by
  cases asked : s.requested? argv with
  | none =>
      obtain ⟨j, u, h, reports⟩ := result_start_of_unasked asked
      cases failed.symm.trans h
      obtain ⟨errors, printed, rfl⟩ := reports
      constructor
      case loop => rfl
      case editor => exact ⟨_, _, rfl⟩
      case refused => exact fun _ => ⟨errors, printed, rfl⟩
      case halfDone =>
        intro settings some
        cases asked.symm.trans some
  | some settings =>
      cases blocked : settings.startFault s.host.places with
      | none =>
          obtain ⟨args, h⟩ := result_start_of_open asked blocked
          cases failed.symm.trans h
      | some fault =>
          cases failed.symm.trans (result_start_of_fault asked blocked)
          constructor
          case loop => rfl
          case editor => exact ⟨_, _, rfl⟩
          case refused =>
            intro none
            cases asked.symm.trans none
          case halfDone =>
            intro other same
            cases asked.symm.trans same
            exact ⟨fault, blocked, rfl, rfl⟩

/-- A shell whose history is to be kept in the home directory of another user. -/
def guestShell : Session Unit :=
  let s := bareShell [] ()
  { s with settings := { s.settings with shell := { historyFile := "~guest/history" } } }

theorem requested_guestShell : guestShell.requested? ["x"] = some guestShell.settings := by
  decide +kernel

theorem fault_guestShell : guestShell.settings.startFault guestShell.host.places =
    some (.settings (.badPath .unknownUser)) := by
  decide +kernel

/-- The log goes to the screen of a shell that has not begun. -/
theorem screenLog_guestShell : ∃ i t, (start ["x"]).result guestShell = (.error i, t) ∧
    guestShell.host.screenLog = false ∧ t.host.screenLog = true ∧ t.loop = none := by
  have failed := result_start_of_fault requested_guestShell fault_guestShell
  have law := failedStartLaw failed
  obtain ⟨-, -, -, left⟩ := law.halfDone _ requested_guestShell
  refine ⟨_, _, failed, rfl, ?_, law.loop⟩
  rw [left]
  rfl

end LineShell
