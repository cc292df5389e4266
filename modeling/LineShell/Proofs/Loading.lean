import LineShell.Proofs.Documents

/-!
# Starts that name a settings file

A start that names a settings file goes on with the settings that the file and the environment give,
or ends with one report. There are three exceptions, of which there is no report: the path begins in
the home directory of a user who is not known, a key of the mapping in the file is no text, or a
library fails with something other than a fault of the document, of a value or of the system.
-/

namespace LineShell

open Act Session

variable {σ : Type}

theorem Except.error_of_map {ε α β : Type} {x : Except ε α} {f : α → β} {fault : ε}
    (failed : x.map f = .error fault) : x = .error fault := by
  cases x with
  | error found => exact congrArg Except.error (Except.error.inj failed)
  | ok a => cases failed

namespace Settings

variable {ε : Type} {own : LoadFault → ε} {lib : Library ε} {store : Files.Store}
  {env : Environment} {places : UserPlaces} {named : Option String} {name : String} {path : Path}
  {d : Datum} {entries : Entries} {failure : ε} {fault : LoadFault} {settings : Settings}

/-! ### What is loaded -/

inductive Sets (lib : Library ε) (store : Files.Store) (places : UserPlaces)
    (named : Option String) : Entries → Prop
  | missing {path : Path} (chosen : filePath store places named = .ok path)
      (missing : store.contains path = false) : Sets lib store places named []
  | file {path : Path} {d : Datum} {entries : Entries} (holds : Holds lib store places named path d)
      (mapping : entriesOf path d = .ok entries) : Sets lib store places named entries

structure Found (store : Files.Store) (places : UserPlaces) (named : Option String) (path : Path)
    (content : Except Files.Fault (List UInt8)) : Prop where
  chosen : filePath store places named = .ok path
  there : store.contains path = true
  content : store.read path = content

/-- Why a settings file gives no entries. -/
inductive Fails (own : LoadFault → ε) (lib : Library ε) (store : Files.Store)
    (places : UserPlaces) (named : Option String) : ε → Prop
  | path {fault : LoadFault} (unknown : filePath store places named = .error fault) :
      Fails own lib store places named (own fault)
  | unread {path : Path} {fault : Files.Fault}
      (found : Found store places named path (.error fault)) :
      Fails own lib store places named (own (.unreadable fault))
  | malformed {path : Path} {bytes : List UInt8} (found : Found store places named path (.ok bytes))
      (refused : lib.document bytes = .error none) :
      Fails own lib store places named (own (.malformed path))
  /-- The library has failed. -/
  | document {path : Path} {bytes : List UInt8} {failure : ε}
      (found : Found store places named path (.ok bytes))
      (failed : lib.document bytes = .error (some failure)) :
      Fails own lib store places named failure
  | entries {path : Path} {d : Datum} {fault : LoadFault}
      (holds : Holds lib store places named path d) (refused : entriesOf path d = .error fault) :
      Fails own lib store places named (own fault)

variable {content : Except Files.Fault (List UInt8)}

theorem Found.document (found : Found store places named path content) :
    document own lib store path = (content.mapError (own ∘ .unreadable)).bind fun bytes =>
      (lib.document bytes).mapError (·.getD (own (.malformed path))) := by
  rw [Settings.document, found.content]
  cases content <;> rfl

theorem document_of_found {bytes : List UInt8}
    (found : Found store places named path (.ok bytes)) : document own lib store path =
      (lib.document bytes).mapError (·.getD (own (.malformed path))) :=
  found.document

theorem fileEntries_of_found (found : Found store places named path content) :
    fileEntries own lib store places named = (document own lib store path).bind fun d =>
      (entriesOf path d).mapError own := by
  rw [fileEntries_of_chosen found.chosen, if_pos found.there]

theorem fileEntries_of_sets (sets : Sets lib store places named entries) :
    fileEntries own lib store places named = .ok entries := by
  cases sets with
  | missing chosen missing => exact fileEntries_of_missing chosen missing
  | file holds mapping =>
      rw [fileEntries_of_holds holds, mapping]
      rfl

theorem fileEntries_of_fails (fails : Fails own lib store places named failure) :
    fileEntries own lib store places named = .error failure := by
  cases fails with
  | path unknown =>
      rw [fileEntries, unknown]
      rfl
  | unread found =>
      rw [fileEntries_of_found found, found.document]
      rfl
  | malformed found refused =>
      rw [fileEntries_of_found found, document_of_found found, refused]
      rfl
  | document found failed =>
      rw [fileEntries_of_found found, document_of_found found, failed]
      rfl
  | entries holds refused =>
      rw [fileEntries_of_holds holds, refused]
      rfl

/-- The settings file gives entries or fails to, whatever the environment. -/
theorem sets_or_fails (own : LoadFault → ε) (lib : Library ε) (store : Files.Store)
    (places : UserPlaces) (named : Option String) :
    (∃ entries, Sets lib store places named entries) ∨
      ∃ failure, Fails own lib store places named failure := by
  cases chosen : filePath store places named with
  | error fault => exact .inr ⟨_, .path chosen⟩
  | ok path =>
      cases there : store.contains path with
      | false => exact .inl ⟨[], .missing chosen there⟩
      | true =>
          cases content : store.read path with
          | error fault => exact .inr ⟨_, .unread ⟨chosen, there, content⟩⟩
          | ok bytes =>
              rcases read : lib.document bytes with (_ | failure) | d
              · exact .inr ⟨_, .malformed ⟨chosen, there, content⟩ read⟩
              · exact .inr ⟨_, .document ⟨chosen, there, content⟩ read⟩
              · have holds : Holds lib store places named path d :=
                  ⟨chosen, there, bytes, content, read⟩
                cases mapping : entriesOf path d with
                | ok entries => exact .inl ⟨entries, .file holds mapping⟩
                | error fault => exact .inr ⟨_, .entries holds mapping⟩

/-- Loading fails for the file, or because the library makes no settings of its entries and of the
environment. -/
theorem loadWith_eq_error_iff : loadWith own lib store env places named = .error failure ↔
    Fails own lib store places named failure ∨ ∃ entries, Sets lib store places named entries ∧
      lib.settings (Settings.default places) env entries = .error failure := by
  rw [loadWith_eq]
  constructor
  · intro failed
    rcases sets_or_fails own lib store places named with ⟨entries, sets⟩ | ⟨found, fails⟩
    · rw [fileEntries_of_sets sets] at failed
      exact .inr ⟨entries, sets, failed⟩
    · rw [fileEntries_of_fails fails] at failed
      obtain rfl : found = failure := Except.error.inj failed
      exact .inl fails
  · rintro (fails | ⟨entries, sets, failed⟩)
    · rw [fileEntries_of_fails fails]
      rfl
    · rw [fileEntries_of_sets sets]
      exact failed

theorem loadWith_eq_ok_iff : loadWith own lib store env places named = .ok settings ↔
    ∃ entries, Sets lib store places named entries ∧
      lib.settings (Settings.default places) env entries = .ok settings := by
  rw [loadWith_eq]
  constructor
  · intro loaded
    rcases sets_or_fails own lib store places named with ⟨entries, sets⟩ | ⟨fault, fails⟩
    · rw [fileEntries_of_sets sets] at loaded
      exact ⟨entries, sets, loaded⟩
    · rw [fileEntries_of_fails fails] at loaded
      cases loaded
  · rintro ⟨entries, sets, given⟩
    rw [fileEntries_of_sets sets]
    exact given

/-! ### What is not reported -/

/-- A name is that of no user who is known, and could be a user's. -/
structure UnknownUser (places : UserPlaces) (user : String) : Prop where
  nonempty : user ≠ ""
  solid : '\x00' ∉ user.toList
  absent : places.others.lookup user = none

/-- What goes wrong without a report. -/
inductive Escapes (lib : Library Trouble) (store : Files.Store) (env : Environment)
    (places : UserPlaces) (name : String) : Trouble → Prop
  /-- The path begins in the home directory of a user who is not known. -/
  | home {first user : String} {names : List String}
      (path : Path.ofString name = ⟨0, first :: names⟩) (tilde : first.toList = '~' :: user.toList)
      (unknown : UnknownUser places user) :
      Escapes lib store env places name (.known (.badPath .unknownUser))
  /-- The file holds a mapping with a key that is no text. -/
  | key {path : Path} {entries : Entries} {e : Datum × Datum}
      (holds : Holds lib store places (some name) path (.map entries)) (member : e ∈ entries)
      (other : ∀ text, e.1 ≠ .text text) : Escapes lib store env places name (.known .keyNoText)
  /-- Reading the document stops with a failure that nobody has foreseen. -/
  | document {path : Path} {bytes : List UInt8} {trouble : Trouble}
      (found : Found store places (some name) path (.ok bytes))
      (failed : lib.document bytes = .error (some trouble))
      (unforeseen : trouble.isReported = false) : Escapes lib store env places name trouble
  /-- Making settings of the entries stops with such a failure. -/
  | settings {entries : Entries} {trouble : Trouble}
      (sets : Sets lib store places (some name) entries)
      (failed : lib.settings (Settings.default places) env entries = .error trouble)
      (unforeseen : trouble.isReported = false) : Escapes lib store env places name trouble

theorem homeOf_eq_unknown_iff {user : String} :
    places.homeOf user = .error .unknownUser ↔ UnknownUser places user := by
  constructor
  · intro unknown
    unfold UserPlaces.homeOf at unknown
    split at unknown
    · cases unknown
    · rename_i nonempty
      split at unknown
      · cases unknown
      · rename_i solid
        split at unknown
        · cases unknown
        · rename_i absent
          exact ⟨nonempty, by simpa using solid, absent⟩
  · rintro ⟨nonempty, solid, absent⟩
    rw [UserPlaces.homeOf, if_neg nonempty, if_neg (by simpa using solid), absent]

/-- Only the home directory of a user who is not known is not found. -/
theorem path_eq_unknown_iff (places : UserPlaces) (name : String) :
    places.path name = .error .unknownUser ↔ ∃ first user names,
      Path.ofString name = ⟨0, first :: names⟩ ∧ first.toList = '~' :: user.toList ∧
        UnknownUser places user := by
  unfold UserPlaces.path Path.expandHome
  constructor
  · intro unknown
    split at unknown
    · rename_i first names root same
      split at unknown
      · rename_i user tilde
        refine ⟨first, String.ofList user, names, ?_, by rw [tilde, String.toList_ofList],
          homeOf_eq_unknown_iff.1 (Except.error_of_map unknown)⟩
        rw [← root, ← same]
      · cases unknown
    · cases unknown
  · rintro ⟨first, user, names, path, tilde, unknown⟩
    simp only [path, tilde]
    rw [String.ofList_toList, homeOf_eq_unknown_iff.2 unknown]
    rfl

/-- The keys of a mapping are refused exactly if one of them is no text. -/
theorem entriesOf_eq_keyNoText_iff : entriesOf path d = .error .keyNoText ↔
    ∃ entries e, d = .map entries ∧ e ∈ entries ∧ ∀ text, e.1 ≠ .text text := by
  by_cases nothing : isNothing d = true
  · refine iff_of_false (by simp [entriesOf, nothing]) ?_
    rintro ⟨entries, e, rfl, member, -⟩
    obtain rfl : entries = [] := List.isEmpty_iff.1 nothing
    cases member
  · unfold entriesOf
    rw [if_neg nothing]
    cases d with
    | map entries =>
        dsimp only
        constructor
        · intro refused
          split at refused
          · cases refused
          · rename_i other
            obtain ⟨e, member, no⟩ := List.all_eq_false.1 (Bool.eq_false_iff.2 other)
            exact ⟨entries, e, rfl, member, fun text same => no (by rw [same])⟩
        · rintro ⟨_, e, ⟨⟩, member, other⟩
          rw [if_neg]
          intro all
          have fits := List.all_eq_true.1 all e member
          split at fits
          · rename_i text same
            exact other text same
          · cases fits
    | _ => simp

theorem isReported_of_entriesOf (failed : entriesOf path d = .error fault) :
    fault = .keyNoText ∨ fault.isReported = true := by
  unfold entriesOf at failed
  split at failed
  · cases failed
  · split at failed
    · split at failed
      · cases failed
      · cases failed
        exact .inl rfl
    · cases failed
      exact .inr rfl

theorem filePath_of_ne (nonempty : name ≠ "") :
    filePath store places (some name) = (places.path name).mapError .ofPath := by
  simp [filePath, Option.filter, nonempty]

/-- That a settings file has no path is not reported only for a user who is not known. -/
theorem filePath_unreported_iff (store : Files.Store) (places : UserPlaces) (nonempty : name ≠ "") :
    filePath store places (some name) = .error fault ∧ fault.isReported = false ↔
      fault = .badPath .unknownUser ∧ places.path name = .error .unknownUser := by
  rw [filePath_of_ne nonempty]
  cases places.path name with
  | ok path => exact iff_of_false (fun failed => nomatch failed.1) fun unknown => nomatch unknown.2
  | error f =>
      constructor
      · rintro ⟨failed, unreported⟩
        cases failed
        cases f with
        | unknownUser => exact ⟨rfl, rfl⟩
        | nul => cases unreported
      · rintro ⟨rfl, unknown⟩
        cases unknown
        exact ⟨rfl, rfl⟩

variable {lib : Library Trouble} {trouble : Trouble}

theorem Fails.escapes (fails : Fails .known lib store places (some name) trouble)
    (nonempty : name ≠ "") (unreported : trouble.isReported = false) :
    Escapes lib store env places name trouble := by
  cases fails with
  | path unknown =>
      obtain ⟨rfl, missing⟩ := (filePath_unreported_iff _ _ nonempty).1 ⟨unknown, unreported⟩
      obtain ⟨first, user, names, path, tilde, unknown⟩ := (path_eq_unknown_iff _ _).1 missing
      exact .home path tilde unknown
  | unread found | malformed found refused => cases unreported
  | document found failed => exact .document found failed unreported
  | entries holds refused =>
      rcases isReported_of_entriesOf refused with rfl | reported
      · obtain ⟨entries, e, rfl, member, other⟩ := entriesOf_eq_keyNoText_iff.1 refused
        exact .key holds member other
      · cases reported.symm.trans unreported

/-- Exactly these failures of loading are not reported. -/
theorem escapes_iff (nonempty : name ≠ "") :
    loadWith .known lib store env places (some name) = .error trouble ∧
        trouble.isReported = false ↔ Escapes lib store env places name trouble := by
  rw [loadWith_eq_error_iff]
  constructor
  · rintro ⟨fails | ⟨entries, sets, failed⟩, unreported⟩
    · exact fails.escapes nonempty unreported
    · exact .settings sets failed unreported
  · intro escapes
    cases escapes with
    | home path tilde unknown =>
        have missing := (path_eq_unknown_iff places name).2 ⟨_, _, _, path, tilde, unknown⟩
        obtain ⟨failed, unreported⟩ :=
          (filePath_unreported_iff store places nonempty).2 ⟨rfl, missing⟩
        exact ⟨.inl (.path failed), unreported⟩
    | key holds member other =>
        exact ⟨.inl (.entries holds (entriesOf_eq_keyNoText_iff.2 ⟨_, _, rfl, member, other⟩)), rfl⟩
    | document found failed unforeseen => exact ⟨.inl (.document found failed), unforeseen⟩
    | settings sets failed unforeseen => exact ⟨.inr ⟨_, sets, failed⟩, unforeseen⟩

end Settings

/-! ### Starting -/

def Settings.spoken (verbose : Bool) (settings : Settings) : Settings :=
  if verbose then { settings with log := { settings.log with level := "DEBUG" } } else settings

namespace Session

variable {s : Session σ} {argv : List String} {name : String} {verbose : Bool}
  {settings : Settings} {trouble : Settings.Trouble}

/-- A start that is neither answered nor refused for its command line gives a name for the settings
file, which may be empty. -/
def GivesName (argv : List String) (name : String) (verbose : Bool) : Prop :=
  ∃ o, Options.ofArgs argv = .ok o ∧ o.help = false ∧ o.version = false ∧ o.config = name ∧
    o.verbose = verbose

theorem givesName_config (program name : String) :
    GivesName [program, "--config", name] name false :=
  ⟨{ config := name }, rfl, rfl, rfl, rfl, rfl⟩

/-- The settings that are looked for: those of the file that is named, or else those in force. -/
def sought (s : Session σ) (name : String) : Except Settings.Trouble Settings :=
  if name = "" then .ok s.settings
  else Settings.loadWith .known s.host.library s.host.store s.host.env s.host.places (some name)

/-- What is left of a start that finds no settings. -/
def refusal (s : Session σ) (trouble : Settings.Trouble) : Interrupt × Session σ :=
  if trouble.isReported then
    (.exit 1, s.reportLine ("Failed to load config: " ++ trouble.headline))
  else (.failure (.ofTrouble trouble), s)

theorem result_namedSettings_eq (o : Options) (s : Session σ) : (namedSettings o).result s =
    match s.sought o.config with
    | .ok settings => (.ok settings, s)
    | .error trouble => (.error (s.refusal trouble).1, (s.refusal trouble).2) := by
  simp only [namedSettings, result_get_bind, sought]
  by_cases unnamed : o.config = ""
  · rw [if_pos unnamed, if_pos unnamed]
    exact result_pure ..
  · rw [if_neg unnamed, if_neg unnamed]
    cases Settings.loadWith .known s.host.library s.host.store s.host.env s.host.places
        (some o.config) with
    | ok settings => exact result_pure ..
    | error trouble =>
        cases reported : trouble.isReported with
        | true =>
            simp only [refusal, reported, if_true]
            exact result_exitWith ..
        | false =>
            simp only [refusal, reported, Bool.false_eq_true, if_false]
            exact result_fail ..

theorem requested_of_sought (gives : GivesName argv name verbose)
    (found : s.sought name = .ok settings) :
    s.requested? argv = some (settings.spoken verbose) := by
  obtain ⟨o, read, help, version, rfl, rfl⟩ := gives
  have named : (namedSettings o).result s = (.ok settings, s) := by
    rw [result_namedSettings_eq, found]
  have asked : (requestedSettings o).result s = (.ok (settings.spoken o.verbose), s) := by
    rw [requestedSettings, result_bind, named]
    exact result_pure ..
  simp only [requested?, read, help, version, asked]
  rfl

theorem result_start_of_refusal (gives : GivesName argv name verbose)
    (failed : s.sought name = .error trouble) : (start argv).result s =
      (.error (s.refusal trouble).1, (s.refusal trouble).2) := by
  obtain ⟨o, read, help, version, rfl, -⟩ := gives
  simp only [start, read, help, version, Bool.false_eq_true, if_false]
  rw [startWith, result_bind, requestedSettings, result_bind, result_namedSettings_eq, failed]

end Session

/-! ### The law -/

open Settings in
/-- The law of a start that gives a name for the settings file. -/
structure LoadingLaw (s : Session σ) (argv : List String) (name : String) (verbose : Bool) :
    Prop where
  /-- With an empty name no file is looked for. -/
  unnamed : name = "" → s.sought name = .ok s.settings
  /-- Settings are found if the library makes them of the entries of the file, none if it is
  missing, and of the environment. -/
  valid : name ≠ "" → ∀ settings, s.sought name = .ok settings ↔
    ∃ entries, Sets s.host.library s.host.store s.host.places (some name) entries ∧
      s.host.library.settings (Settings.default s.host.places) s.host.env entries = .ok settings
  /-- Otherwise the file gives no entries, or the library makes no settings of them. -/
  invalid : name ≠ "" → ∀ trouble, s.sought name = .error trouble ↔
    Fails .known s.host.library s.host.store s.host.places (some name) trouble ∨
      ∃ entries, Sets s.host.library s.host.store s.host.places (some name) entries ∧
        s.host.library.settings (Settings.default s.host.places) s.host.env entries = .error trouble
  /-- With them the start goes on: a session begins, but for a level that is none and for a history
  file that cannot be opened at all. -/
  goesOn : ∀ settings, s.sought name = .ok settings →
    match (settings.spoken verbose).startFault s.host.places with
    | none => ∃ args t, (start argv).result s = (.ok args, t) ∧
        t.settings = settings.spoken verbose ∧ t.loop.isSome
    | some fault => (start argv).result s =
        (.error (.failure fault), s.adoptSettings (settings.spoken verbose))
  /-- A failure that is reported ends the program, and nothing but the report is left. -/
  reported : ∀ trouble, s.sought name = .error trouble → trouble.isReported = true →
    (start argv).result s =
      (.error (.exit 1), s.reportLine ("Failed to load config: " ++ trouble.headline))
  /-- Any other gets out of the start, without a report. -/
  escaped : ∀ trouble, s.sought name = .error trouble → trouble.isReported = false →
    (start argv).result s = (.error (.failure (.ofTrouble trouble)), s)
  /-- This happens exactly for such a path, such a key or such a failure of the library. -/
  escapes : name ≠ "" → ∀ trouble, s.sought name = .error trouble ∧ trouble.isReported = false ↔
    Escapes s.host.library s.host.store s.host.env s.host.places name trouble

open Settings in
theorem loadingLaw (s : Session σ) {argv : List String} {name : String} {verbose : Bool}
    (gives : GivesName argv name verbose) : LoadingLaw s argv name verbose := by
  constructor
  case unnamed => exact fun unnamed => if_pos unnamed
  case valid =>
    intro named settings
    rw [sought, if_neg named]
    exact loadWith_eq_ok_iff
  case invalid =>
    intro named trouble
    rw [sought, if_neg named]
    exact loadWith_eq_error_iff
  case goesOn =>
    intro settings found
    have asked := requested_of_sought gives found
    split
    · rename_i usable
      obtain ⟨args, begun⟩ := result_start_of_open asked usable
      obtain ⟨_, _, _, _, opened, -⟩ := openHistory_frame (settings.spoken verbose)
        (s.adoptSettings (settings.spoken verbose))
      refine ⟨args, _, begun, ?_, rfl⟩
      rw [opened]
      rfl
    · rename_i blocked
      exact result_start_of_fault asked blocked
  case reported =>
    intro trouble failed reported
    rw [result_start_of_refusal gives failed, refusal, if_pos reported]
  case escaped =>
    intro trouble failed unreported
    rw [result_start_of_refusal gives failed, refusal, if_neg (Bool.eq_false_iff.1 unreported)]
  case escapes =>
    intro named trouble
    rw [sought, if_neg named]
    exact escapes_iff named

/-- A file whose only key is a number, and one with a scalar that is said to be a truth value. -/
def strayStore : Files.Store :=
  { nodes := [(["keys.yaml"], .file [0x31, 0x3a, 0x20, 0x32, 0x0a]),
      (["truth.yaml"], .file [0x21, 0x21, 0x62, 0x6f, 0x6f, 0x6c, 0x20, 0x78, 0x0a])] }

def strayShell : Session Unit :=
  let s := bareShell [] ()
  { s with host := { s.host with store := strayStore } }

theorem sought_strayShell :
    strayShell.sought "~guest/config.yaml" = .error (.known (.badPath .unknownUser)) ∧
    strayShell.sought "keys.yaml" = .error (.known .keyNoText) ∧
    strayShell.sought "truth.yaml" = .error (.known (.noTruthValue "x")) := by
  have seen : ∀ {name trouble}, (match strayShell.sought name with
      | .error found => decide (found = trouble)
      | .ok _ => false) = true → strayShell.sought name = .error trouble := by
    intro name trouble same
    split at same
    · rename_i failed
      rw [failed, of_decide_eq_true same]
    · cases same
  exact ⟨seen (by decide +kernel), seen (by decide +kernel), seen (by decide +kernel)⟩

/-- The home directory of an unknown user, a key that is no text and a scalar that is no truth value
get out of a start without a report. -/
theorem escapes_strayShell :
    (start ["x", "--config", "~guest/config.yaml"]).result strayShell =
      (.error (.failure (.settings (.badPath .unknownUser))), strayShell) ∧
    (start ["x", "--config", "keys.yaml"]).result strayShell =
      (.error (.failure (.settings .keyNoText)), strayShell) ∧
    (start ["x", "--config", "truth.yaml"]).result strayShell =
      (.error (.failure (.settings (.noTruthValue "x"))), strayShell) ∧
    Settings.Escapes .usual strayStore [] strayShell.host.places "truth.yaml"
      (.known (.noTruthValue "x")) := by
  obtain ⟨home, key, scalar⟩ := sought_strayShell
  have law := fun name => loadingLaw strayShell (givesName_config "x" name)
  exact ⟨(law _).escaped _ home rfl, (law _).escaped _ key rfl, (law _).escaped _ scalar rfl,
    ((law _).escapes (by decide) _).1 ⟨scalar, rfl⟩⟩

end LineShell
