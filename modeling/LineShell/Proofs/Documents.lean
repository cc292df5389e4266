import LineShell.Proofs.FailedStart
import LineShell.Session.Beginning

/-!
# Settings files that hold no mapping

The document of a settings file is refused if it neither is a mapping nor counts as nothing. Not
only the empty document counts as nothing: so do zero, what is false, and whatever is empty. Such a
file is the same as none. A refused one changes nothing, and of a start that names it only the
report is left.
-/

namespace LineShell

open Act Session

variable {σ : Type}

theorem mul_two_pow_le {m n k : Nat} (below : m.log2 + 1 + k ≤ 3 * n) :
    m * Nat.pow 2 k ≤ Nat.pow 10 n := by
  calc m * Nat.pow 2 k ≤ Nat.pow 2 (m.log2 + 1) * Nat.pow 2 k :=
        Nat.mul_le_mul_right _ (Nat.le_of_lt Nat.lt_log2_self)
    _ = Nat.pow 2 (m.log2 + 1 + k) := (Nat.pow_add ..).symm
    _ ≤ Nat.pow 2 (3 * n) := Nat.pow_le_pow_right (by decide) below
    _ = Nat.pow 8 n := Nat.pow_mul ..
    _ ≤ Nat.pow 10 n := Nat.pow_le_pow_left (by decide) n

/-- A number counts as zero up to half of the least double above it, however large its power of ten
is. -/
theorem Decimal.isZero_finite_iff {mantissa exponent : Int} :
    (finite mantissa exponent).isZero = true ↔ mantissa = 0 ∨ (exponent < 0 ∧
      mantissa.natAbs * Nat.pow 2 zeroExponent ≤ Nat.pow 10 exponent.natAbs) := by
  simp only [isZero, Bool.or_eq_true, Bool.and_eq_true, decide_eq_true_eq]
  refine or_congr_right (and_congr_right fun _ => ⟨fun either => ?_, .inr⟩)
  rcases either with far | near
  · apply mul_two_pow_le
    rw [zeroExponent]
    omega
  · exact near

namespace Settings

variable {store : Files.Store} {env : Environment} {places : UserPlaces} {named : Option String}
  {path : Path} {d : Datum}

/-! ### Documents -/

/-- The documents that set nothing: none, and what is false, zero or empty. -/
inductive CountsAsNothing : Datum → Prop
  | null : CountsAsNothing .null
  | no : CountsAsNothing (.bool false)
  | zero : CountsAsNothing (.int 0)
  /-- A number whose nearest double is zero. -/
  | decimal {mantissa exponent : Int} (tiny : mantissa = 0 ∨ (exponent < 0 ∧
      mantissa.natAbs * Nat.pow 2 Decimal.zeroExponent ≤ Nat.pow 10 exponent.natAbs)) :
      CountsAsNothing (.decimal (.finite mantissa exponent))
  | text : CountsAsNothing (.text "")
  | bytes : CountsAsNothing (.bytes [])
  | list : CountsAsNothing (.list [])
  | map : CountsAsNothing (.map [])
  | set : CountsAsNothing (.set [])

theorem isNothing_iff : isNothing d = true ↔ CountsAsNothing d := by
  constructor
  · intro nothing
    cases d with
    | null => exact .null
    | bool b =>
        cases b with
        | false => exact .no
        | true => cases nothing
    | int n =>
        obtain rfl : n = 0 := by simpa [isNothing] using nothing
        exact .zero
    | decimal x =>
        cases x with
        | finite mantissa exponent => exact .decimal (Decimal.isZero_finite_iff.1 nothing)
        | infinite | undefined => cases nothing
    | text t =>
        obtain rfl : t = "" := by simpa [isNothing] using nothing
        exact .text
    | moment t => cases nothing
    | bytes l | list l | map l | set l =>
        obtain rfl : l = [] := by simpa [isNothing] using nothing
        constructor
  · intro nothing
    cases nothing with
    | decimal tiny => exact Decimal.isZero_finite_iff.2 tiny
    | _ => rfl

/-- The document neither counts as nothing nor is a mapping. -/
def IsRefused (d : Datum) : Prop :=
  ¬ CountsAsNothing d ∧ ∀ entries, d ≠ .map entries

theorem entriesOf_of_nothing (nothing : CountsAsNothing d) : entriesOf path d = .ok [] := by
  unfold entriesOf
  rw [if_pos (isNothing_iff.2 nothing)]

theorem entriesOf_eq_noMapping_iff {p : Path} :
    entriesOf path d = .error (.noMapping p) ↔ p = path ∧ IsRefused d := by
  by_cases nothing : CountsAsNothing d
  · simp [entriesOf_of_nothing nothing, IsRefused, nothing]
  · unfold entriesOf
    rw [if_neg (mt isNothing_iff.1 nothing)]
    cases d with
    | map entries =>
        -- A mapping is refused for its keys alone.
        simp only [IsRefused]
        split <;> simp
    | _ => simp [IsRefused, nothing, eq_comm]

theorem document_of_empty : Library.standard.document [] = .ok .null := rfl

/-! ### Loading -/

variable {ε : Type} {own : LoadFault → ε} {lib : Library ε}

/-- The settings file that is looked for is there, and a library finds a document in it. -/
structure Holds (lib : Library ε) (store : Files.Store) (places : UserPlaces)
    (named : Option String) (path : Path) (d : Datum) : Prop where
  chosen : filePath store places named = .ok path
  there : store.contains path = true
  read : ∃ bytes, store.read path = .ok bytes ∧ lib.document bytes = .ok d

theorem exists_holds (lib : Library ε) (chosen : filePath store places named = .ok path)
    (there : store.contains path = true) (seen : Datum → Bool)
    (read : ((store.read path).toOption.bind fun bytes =>
      (lib.document bytes).toOption).any seen = true) :
    ∃ d, Holds lib store places named path d ∧ seen d = true := by
  cases held : store.read path with
  | error fault => simp [held, Except.toOption] at read
  | ok bytes =>
      cases found : lib.document bytes with
      | error fault => simp [held, found, Except.toOption] at read
      | ok d =>
          rw [held] at read
          simp only [Except.toOption, Option.bind_some, found, Option.any_some] at read
          exact ⟨d, ⟨chosen, there, bytes, held, found⟩, read⟩

theorem fileEntries_of_chosen (chosen : filePath store places named = .ok path) :
    fileEntries own lib store places named = if store.contains path then
      (document own lib store path).bind fun d => (entriesOf path d).mapError own
    else .ok [] := by
  unfold fileEntries
  rw [chosen]
  rfl

theorem fileEntries_of_missing (chosen : filePath store places named = .ok path)
    (missing : store.contains path = false) : fileEntries own lib store places named = .ok [] := by
  rw [fileEntries_of_chosen chosen, if_neg (by simp [missing])]

theorem fileEntries_of_holds (holds : Holds lib store places named path d) :
    fileEntries own lib store places named = (entriesOf path d).mapError own := by
  obtain ⟨chosen, there, bytes, held, read⟩ := holds
  have found : document own lib store path = .ok d := by
    simp only [document, held, read]
    rfl
  rw [fileEntries_of_chosen chosen, if_pos there, found]
  rfl

theorem loadWith_eq : loadWith own lib store env places named =
    (fileEntries own lib store places named).bind
      (lib.settings (Settings.default places) env) := rfl

theorem loadWith_of_missing (chosen : filePath store places named = .ok path)
    (missing : store.contains path = false) : loadWith own lib store env places named =
      lib.settings (Settings.default places) env [] := by
  rw [loadWith_eq, fileEntries_of_missing chosen missing]
  rfl

theorem loadWith_of_holds (holds : Holds lib store places named path d) :
    loadWith own lib store env places named = ((entriesOf path d).mapError own).bind
      (lib.settings (Settings.default places) env) := by
  rw [loadWith_eq, fileEntries_of_holds holds]

theorem settings_ne_noMapping (default : Settings) (entries : Entries) (p : Path) :
    Library.standard.settings default env entries ≠ .error (.noMapping p) := by
  simp only [Library.standard]
  split <;> simp

theorem loadWith_of_nothing (holds : Holds lib store places named path d)
    (nothing : CountsAsNothing d) : loadWith own lib store env places named =
      lib.settings (Settings.default places) env [] := by
  rw [loadWith_of_holds holds, entriesOf_of_nothing nothing]
  rfl

theorem load_eq_noMapping_iff {p : Path} (holds : Holds .standard store places named path d) :
    load store env places named = .error (.noMapping p) ↔ p = path ∧ IsRefused d := by
  have refused : entriesOf path d = .error (.noMapping p) ↔ p = path ∧ IsRefused d :=
    entriesOf_eq_noMapping_iff
  rw [load, loadWith_of_holds holds]
  cases found : entriesOf path d with
  | error fault =>
      rw [found] at refused
      change Except.error fault = Except.error (.noMapping p) ↔ _
      simpa using refused
  | ok entries =>
      have never : ¬ (p = path ∧ IsRefused d) := by
        rw [found] at refused
        simpa using refused
      exact iff_of_false (settings_ne_noMapping _ entries p) never

/-- Failures that are taken as others are so in loading. -/
theorem loadWith_mapFault {ε' : Type} (f : ε → ε') :
    loadWith (f ∘ own) (lib.mapFault f) store env places named =
      (loadWith own lib store env places named).mapError f := by
  have read : ∀ path, document (f ∘ own) (lib.mapFault f) store path =
      (document own lib store path).mapError f := by
    intro path
    unfold document
    cases store.read path with
    | error fault => rfl
    | ok bytes =>
        simp only [Library.mapFault]
        rcases lib.document bytes with (_ | _) | _ <;> rfl
  have found : fileEntries (f ∘ own) (lib.mapFault f) store places named =
      (fileEntries own lib store places named).mapError f := by
    cases chosen : filePath store places named with
    | error fault =>
        unfold fileEntries
        rw [chosen]
        rfl
    | ok path =>
        rw [fileEntries_of_chosen chosen, fileEntries_of_chosen chosen, read]
        split
        · cases document own lib store path with
          | error fault => rfl
          | ok d =>
              change (entriesOf path d).mapError (f ∘ own) =
                ((entriesOf path d).mapError own).mapError f
              cases entriesOf path d <;> rfl
        · rfl
  rw [loadWith_eq, loadWith_eq, found]
  cases fileEntries own lib store places named <;> rfl

theorem load_of_refused (holds : Holds .standard store places named path d) (refused : IsRefused d) :
    load store env places named = .error (.noMapping path) :=
  (load_eq_noMapping_iff holds).2 ⟨rfl, refused⟩

end Settings

/-! ### Shells that need the settings -/

namespace Session

variable {s : Session σ} {fault : Settings.LoadFault} {trouble : Settings.Trouble}

theorem ofSurroundings_of_error {w : Surroundings} (failed : w.usualSettings = .error fault)
    (given : Option Settings) (programs : σ) : ofSurroundings w given programs = .error fault := by
  rw [ofSurroundings, failed]
  rfl

theorem editorOnly_of_error {w : Surroundings} (failed : w.usualSettings = .error fault)
    (completion : Bool) (defaults : Command.Table (Program σ))
    (handler : Option String → Program σ) (programs : σ) :
    editorOnly w completion defaults handler programs = .error fault := by
  rw [editorOnly, failed]
  rfl

/-- A start that is neither answered nor refused for its command line, and names a settings file. -/
structure Names (argv : List String) (name : String) : Prop where
  options : ∃ o, Options.ofArgs argv = .ok o ∧ o.help = false ∧ o.version = false ∧ o.config = name
  named : name ≠ ""

theorem result_start_of_reported {argv : List String} {name : String} (names : Names argv name)
    (failed : Settings.loadWith .known s.host.library s.host.store s.host.env s.host.places
      (some name) = .error trouble) (reported : trouble.isReported = true) : (start argv).result s =
      (.error (.exit 1), s.reportLine ("Failed to load config: " ++ trouble.headline)) := by
  obtain ⟨o, read, help, version, rfl⟩ := names.options
  have ended : (namedSettings o).result s =
      (.error (.exit 1), s.reportLine ("Failed to load config: " ++ trouble.headline)) := by
    simp only [namedSettings, result_get_bind, if_neg names.named, failed, if_pos reported]
    rfl
  simp only [start, read, help, version, Bool.false_eq_true, if_false]
  rw [startWith, result_bind, requestedSettings, result_bind, ended]

end Session

/-! ### The law -/

open Settings in
/-- The law of a settings file that is there and holds a document. -/
structure DocumentLaw (store : Files.Store) (env : Environment) (places : UserPlaces)
    (named : Option String) (path : Path) (d : Datum) : Prop where
  /-- The document is refused exactly if it neither counts as nothing nor is a mapping. -/
  refused : ∀ p, load store env places named = .error (.noMapping p) ↔ p = path ∧ IsRefused d
  /-- One that counts as nothing is the same as no file. -/
  nothing : CountsAsNothing d → ∀ store' named' path', filePath store' places named' = .ok path' →
    store'.contains path' = false → load store env places named = load store' env places named'
  /-- That of an empty file is null, which counts as nothing. -/
  empty : CountsAsNothing .null ∧ (store.read path = .ok [] → d = .null)
  /-- No shell, and no editor, begins with such settings, so that none are in force. -/
  begun : IsRefused d → ∀ w : Surroundings, w.store = store → w.env = env → w.places = places →
    named = none → ∀ {σ : Type} (programs : σ),
      (∀ given, ofSurroundings w given programs = .error (.noMapping path)) ∧
      ∀ completion defaults handler,
        editorOnly w completion defaults handler programs = .error (.noMapping path)
  /-- A start that names the file ends with a report, and what settings are in force stays so. -/
  started : IsRefused d → ∀ {σ : Type} (s : Session σ) argv name, s.host.library = .usual →
    s.host.store = store → s.host.env = env → s.host.places = places → named = some name →
    Names argv name →
      ∃ t, (start argv).result s = (.error (.exit 1), t) ∧
        t = s.reportLine ("Failed to load config: " ++ (LoadFault.noMapping path).headline) ∧
        t.host.settings = s.host.settings ∧ t.settings = s.settings

open Settings in
theorem documentLaw {store : Files.Store} {env : Environment} {places : UserPlaces}
    {named : Option String} {path : Path} {d : Datum}
    (holds : Holds .standard store places named path d) :
    DocumentLaw store env places named path d := by
  constructor
  case refused => exact fun p => load_eq_noMapping_iff holds
  case nothing =>
    intro nothing store' named' path' chosen missing
    rw [load, loadWith_of_nothing holds nothing, load, loadWith_of_missing chosen missing]
  case empty =>
    refine ⟨.null, fun empty => ?_⟩
    obtain ⟨bytes, held, read⟩ := holds.read
    cases empty.symm.trans held
    exact (Except.ok.inj (document_of_empty.symm.trans read)).symm
  case begun =>
    rintro refused w rfl rfl rfl rfl σ programs
    have failed : w.usualSettings = .error (.noMapping path) := load_of_refused holds refused
    exact ⟨fun given => ofSurroundings_of_error failed given programs,
      fun completion defaults handler =>
        editorOnly_of_error failed completion defaults handler programs⟩
  case started =>
    rintro refused σ s argv name usual rfl rfl rfl rfl names
    have refusal : loadWith id .standard s.host.store s.host.env s.host.places (some name) =
        .error (.noMapping path) := load_of_refused holds refused
    have failed : loadWith (Trouble.known ∘ id) .usual s.host.store s.host.env s.host.places
        (some name) = .error (.known (.noMapping path)) := by
      rw [Library.usual, loadWith_mapFault, refusal]
      rfl
    rw [← usual] at failed
    have ended := result_start_of_reported names failed rfl
    exact ⟨_, ended, rfl, rfl, rfl⟩

/-- Files of settings: an empty list where they are looked for first, and a list with such a list
in it. -/
def storeOfLists : Files.Store :=
  { nodes := [(["cmdshell.yaml"], .file [0x5b, 0x5d, 0x0a]),
      (["lists.yaml"], .file [0x5b, 0x5b, 0x5d, 0x5d, 0x0a])] }

def listPlaces : UserPlaces := .ofHome ⟨1, ["home"]⟩

open Settings in
/-- The empty list sets nothing, as if there were no files. The other one is refused. -/
theorem loads_storeOfLists :
    load storeOfLists [] listPlaces none = load {} [] listPlaces none ∧
    load storeOfLists [] listPlaces (some "lists.yaml") =
      .error (.noMapping ⟨0, ["lists.yaml"]⟩) := by
  constructor
  · have there : storeOfLists.contains ⟨1, ["cmdshell.yaml"]⟩ = true := by decide +kernel
    have absent : Files.Store.contains {} ⟨1, ["cmdshell.yaml"]⟩ = false := by decide +kernel
    have chosen : filePath storeOfLists listPlaces none = .ok ⟨1, ["cmdshell.yaml"]⟩ :=
      congrArg Except.ok (if_pos there)
    have missing : filePath {} listPlaces none = .ok listPlaces.settingsFile :=
      congrArg Except.ok (if_neg (Bool.eq_false_iff.1 absent))
    obtain ⟨d, holds, nothing⟩ := exists_holds .standard chosen there isNothing (by decide +kernel)
    exact (documentLaw holds).nothing (isNothing_iff.1 nothing) _ _ _ missing (by decide +kernel)
  · have chosen : filePath storeOfLists listPlaces (some "lists.yaml") =
        .ok ⟨0, ["lists.yaml"]⟩ := by
      have seen : (filePath storeOfLists listPlaces (some "lists.yaml")).toOption =
        some ⟨0, ["lists.yaml"]⟩ := by decide +kernel
      cases found : filePath storeOfLists listPlaces (some "lists.yaml") with
      | error fault => simp [found, Except.toOption] at seen
      | ok path => simpa [found, Except.toOption] using seen
    obtain ⟨d, holds, seen⟩ := exists_holds .standard chosen (by decide +kernel)
      (fun d => !isNothing d && d.kindName = "list") (by decide +kernel)
    simp only [Bool.and_eq_true, Bool.not_eq_true', decide_eq_true_eq] at seen
    refine ((documentLaw holds).refused _).2 ⟨rfl, fun nothing => ?_, ?_⟩
    · rw [isNothing_iff.2 nothing] at seen
      cases seen.1
    · rintro entries rfl
      simp [Datum.kindName] at seen

end LineShell
