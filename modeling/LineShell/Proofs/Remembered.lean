import LineShell.Proofs.Encoded
import LineShell.Proofs.Stores

/-!
# The history in its file

Histories are kept in one file, one after the other, each of them loading it and then appending to
it. What a further one loads are the lines that all of them have accepted, or the last of them.
-/

namespace LineShell

namespace Edit.History

open Files

theorem Keeps.stored {store : Store} {path : Path} {bytes : List UInt8}
    (keeps : store.Keeps path bytes) : stored store path = .ok (ofBytes bytes) := by
  obtain ⟨named, -, place, led, found⟩ := keeps
  have led' : store.find? path = store.node? place := by rw [Store.find?, led]
  unfold History.stored Store.contains
  rw [named, led']
  rcases found with found | ⟨missing, rfl⟩
  · rw [found, Store.read, named, led]
    simp [found]
    rfl
  · rw [missing]
    rfl

/-! ### Lines in memory -/

/-- Lines of which none is empty, or equal to the line before it. -/
inductive Accepted : List String → Prop
  | nil : Accepted []
  | snoc {lines : List String} {line : String} : Accepted lines → line ≠ "" →
      lines.getLast? ≠ some line → Accepted (lines ++ [line])

theorem getLast?_tail (limit : Int) (lines : List String) :
    (tail limit lines).getLast? = lines.getLast? := by
  unfold tail
  split
  · rename_i limited
    rw [List.getLast?_drop]
    split
    · rename_i none
      have : lines.length = 0 := by omega
      rw [List.length_eq_zero_iff.mp this]
      rfl
    · rfl
  · rfl

/-- What has been cut off is not missed later. -/
theorem tail_tail_append (limit : Int) (lines : List String) (line : String) :
    tail limit (tail limit lines ++ [line]) = tail limit (lines ++ [line]) := by
  unfold tail
  split
  · rename_i limited
    rw [← List.drop_append_of_le_length (Nat.sub_le _ _), List.drop_drop]
    congr 1
    simp only [List.length_append, List.length_drop, List.length_singleton]
    omega
  · rfl

theorem accepts_of_last {h : History} {lines : List String} {line : String}
    (last : h.last? = lines.getLast?) :
    h.accepts line = true ↔ line ≠ "" ∧ lines.getLast? ≠ some line := by
  simp [accepts, last]

theorem foldl_remember {lines : List String} (accepted : Accepted lines) {h : History}
    (fresh : h.entries = []) :
    lines.foldl remember h = { h with entries := tail h.limit lines } := by
  induction accepted with
  | nil =>
      have none : tail h.limit [] = h.entries := by rw [fresh, tail, List.drop_nil, ite_self]
      rw [List.foldl_nil, none]
  | snoc _ some other ih =>
      rename_i lines line _
      have last : ({ h with entries := tail h.limit lines } : History).last? = lines.getLast? :=
        getLast?_tail ..
      rw [List.foldl_append, ih, List.foldl_cons, List.foldl_nil, remember,
        if_pos ((accepts_of_last last).mpr ⟨some, other⟩), tail_tail_append]

/-- Loading a file that is kept, into a new history. -/
theorem load_of_keeps {limit : Int} {store prepared : Store} {path : Path} {bytes : List UInt8}
    (directory : store.prepareParent path = .ok prepared) (keeps : prepared.Keeps path bytes)
    (accepted : Accepted (ofBytes bytes)) :
    ({ limit } : History).load store path =
      (.ok { limit, entries := tail limit (ofBytes bytes), file := some path }, prepared) := by
  rw [load, directory]
  simp only [Keeps.stored keeps]
  rw [foldl_remember accepted rfl]

/-! ### Sessions -/

/-- What happens to a history: a line is added at a time, or the limit is changed. -/
inductive Step where
  | add (time line : String)
  | setLimit (limit : Int)

/-- A session: a new history with a limit loads the file, and then something happens to it. -/
structure Sitting where
  limit : Int
  steps : List Step

structure Progress where
  history : History := {}
  store : Store
  /-- The lines that have been accepted, with the times at which they were added. -/
  accepted : List (String × String) := []
  faults : List Fault := []

namespace Progress

def lines (g : Progress) : List String := g.accepted.map Prod.snd

def step (g : Progress) : Step → Progress
  | .add time line =>
    let (kept, history, store, fault) := g.history.add g.store time line
    { history, store
      accepted := if kept then g.accepted ++ [(time, line)] else g.accepted
      faults := g.faults ++ fault.toList }
  | .setLimit limit => { g with history := { g.history with limit } }

/-- A new history loads the file at a path; it stays empty if that fails. -/
def load (g : Progress) (path : Path) (limit : Int) : Progress :=
  match ({ limit } : History).load g.store path with
  | (.ok history, store) => { g with history, store }
  | (.error fault, store) => { g with history := { limit }, store, faults := g.faults ++ [fault] }

def sit (path : Path) (g : Progress) (x : Sitting) : Progress :=
  x.steps.foldl step (g.load path x.limit)

/-- The file holds what has been accepted, once its directory has been made. -/
structure Sound (path : Path) (g : Progress) : Prop where
  faultless : g.faults = []
  accepted : Accepted g.lines
  timed : ∀ e ∈ g.accepted, '\n' ∉ e.1.toList
  keeps : ∃ t, g.store.prepareParent path = .ok t ∧
    t.Keeps path (Text.Utf8.encode (g.accepted.flatMap fun e => written e.1 e.2))

/-- A history appends to the file and goes on from what it holds. -/
structure Live (path : Path) (g : Progress) : Prop extends Sound path g where
  prepared : g.store.Keeps path (Text.Utf8.encode (g.accepted.flatMap fun e => written e.1 e.2))
  file : g.history.file = some path
  last : g.history.last? = g.lines.getLast?

variable {path : Path} {g : Progress}

theorem Sound.ofBytes_eq (sound : g.Sound path) :
    ofBytes (Text.Utf8.encode (g.accepted.flatMap fun e => written e.1 e.2)) = g.lines :=
  ofBytes_written sound.timed

/-- A new history starts with the last lines that have been accepted. -/
theorem Sound.load_eq (sound : g.Sound path) (limit : Int) : ∃ store,
    ({ limit } : History).load g.store path =
      (.ok { limit, entries := tail limit g.lines, file := some path }, store) ∧
    store.Keeps path (Text.Utf8.encode (g.accepted.flatMap fun e => written e.1 e.2)) := by
  obtain ⟨store, directory, keeps⟩ := sound.keeps
  have same := sound.ofBytes_eq
  have loaded := @load_of_keeps limit _ _ _ _ directory keeps (same ▸ sound.accepted)
  rw [same] at loaded
  exact ⟨store, loaded, keeps⟩

/-- The entries are the last of the lines that have been accepted, as many as the limit allows. -/
def Faithful (g : Progress) : Prop := g.history.entries = tail g.history.limit g.lines

theorem Sound.load (sound : g.Sound path) (limit : Int) :
    (g.load path limit).Live path ∧ (g.load path limit).Faithful ∧
      (g.load path limit).history.limit = limit := by
  obtain ⟨store, loaded, keeps⟩ := sound.load_eq limit
  rw [Progress.load, loaded]
  exact ⟨⟨⟨sound.faultless, sound.accepted, sound.timed, store, keeps.prepareParent, keeps⟩, keeps,
    rfl, getLast?_tail ..⟩, rfl, rfl⟩

theorem Live.add_cases (live : g.Live path) (time line : String) :
    g.step (.add time line) = g ∨
    line ≠ "" ∧ g.lines.getLast? ≠ some line ∧ ∃ store,
      g.step (.add time line) = { g with
        history := { g.history with entries := tail g.history.limit (g.history.entries ++ [line]) }
        store
        accepted := g.accepted ++ [(time, line)] } ∧
      store.Keeps path (Text.Utf8.encode
        ((g.accepted ++ [(time, line)]).flatMap fun e => written e.1 e.2)) := by
  cases accepts : g.history.accepts line with
  | false =>
      refine .inl ?_
      simp only [step, add, accepts, Bool.false_eq_true, if_false, Option.toList_none,
        List.append_nil]
  | true =>
      obtain ⟨some, other⟩ := (accepts_of_last live.last).mp accepts
      obtain ⟨store, appended, keeps⟩ := live.prepared.append (Text.Utf8.encode (written time line))
      refine .inr ⟨some, other, store, ?_, ?_⟩
      · simp only [step, add, accepts, if_true, live.file, appended, remember, Option.toList_none,
          List.append_nil]
      · rwa [List.flatMap_append, Text.Utf8.encode_append, List.flatMap_singleton]

/-- What one step keeps. -/
theorem Live.step (live : g.Live path) {x : Step}
    (timed : ∀ time line, x = .add time line → '\n' ∉ time.toList) : (g.step x).Live path := by
  cases x with
  | setLimit limit =>
      exact ⟨⟨live.faultless, live.accepted, live.timed, live.keeps⟩, live.prepared, live.file,
        live.last⟩
  | add time line =>
      rcases live.add_cases time line with same | ⟨some, other, store, same, keeps⟩
      · rwa [same]
      · rw [same]
        have lines : (g.accepted ++ [(time, line)]).map Prod.snd = g.lines ++ [line] :=
          List.map_append
        refine ⟨⟨live.faultless, ?_, ?_, store, keeps.prepareParent, keeps⟩, keeps, live.file, ?_⟩
        · rw [Progress.lines, lines]
          exact live.accepted.snoc some other
        · intro e member
          rcases List.mem_append.mp member with before | new
          · exact live.timed e before
          · obtain rfl := List.mem_singleton.mp new
            exact timed time line rfl
        · rw [Progress.lines, lines, List.getLast?_concat]
          exact (getLast?_tail ..).trans List.getLast?_concat

/-- Lines that are added leave the entries the last ones. -/
theorem Live.faithful_step (live : g.Live path) (faithful : g.Faithful) {x : Step}
    (unchanged : ∀ limit, x ≠ .setLimit limit) :
    (g.step x).Faithful ∧ (g.step x).history.limit = g.history.limit := by
  cases x with
  | setLimit limit => exact absurd rfl (unchanged limit)
  | add time line =>
      rcases live.add_cases time line with same | ⟨-, -, store, same, -⟩
      · rw [same]
        exact ⟨faithful, rfl⟩
      · rw [same]
        refine ⟨?_, rfl⟩
        have lines : (g.accepted ++ [(time, line)]).map Prod.snd = g.lines ++ [line] :=
          List.map_append
        have entries : g.history.entries = tail g.history.limit g.lines := faithful
        rw [Faithful, Progress.lines, lines]
        change tail _ (g.history.entries ++ [line]) = _
        rw [entries, tail_tail_append]

/-! ### Whole sessions -/

theorem Live.steps (live : g.Live path) {xs : List Step}
    (timed : ∀ time line, .add time line ∈ xs → '\n' ∉ time.toList) :
    (xs.foldl Progress.step g).Live path := by
  induction xs generalizing g with
  | nil => exact live
  | cons x xs ih =>
      refine ih (live.step fun time line same => ?_) fun time line member =>
        timed time line (List.mem_cons_of_mem _ member)
      exact timed time line (same ▸ List.mem_cons_self ..)

theorem Live.faithful_steps (live : g.Live path) (faithful : g.Faithful) {xs : List Step}
    (timed : ∀ time line, .add time line ∈ xs → '\n' ∉ time.toList)
    (unchanged : ∀ limit, .setLimit limit ∉ xs) :
    (xs.foldl Progress.step g).Faithful ∧
      (xs.foldl Progress.step g).history.limit = g.history.limit := by
  induction xs generalizing g with
  | nil => exact ⟨faithful, rfl⟩
  | cons x xs ih =>
      obtain ⟨faithful', same⟩ := live.faithful_step faithful (x := x) fun limit h =>
        unchanged limit (h ▸ List.mem_cons_self ..)
      have live' := live.step (x := x) fun time line h =>
        timed time line (h ▸ List.mem_cons_self ..)
      obtain ⟨faithful'', same'⟩ := ih live' faithful'
        (fun time line member => timed time line (List.mem_cons_of_mem _ member))
        fun limit member => unchanged limit (List.mem_cons_of_mem _ member)
      exact ⟨faithful'', same'.trans same⟩

theorem Sound.sit (sound : g.Sound path) {x : Sitting}
    (timed : ∀ time line, .add time line ∈ x.steps → '\n' ∉ time.toList) :
    (g.sit path x).Sound path :=
  ((sound.load x.limit).1.steps timed).toSound

theorem Sound.sittings (sound : g.Sound path) {xs : List Sitting}
    (timed : ∀ x ∈ xs, ∀ time line, .add time line ∈ x.steps → '\n' ∉ time.toList) :
    (xs.foldl (Progress.sit path) g).Sound path := by
  induction xs generalizing g with
  | nil => exact sound
  | cons x xs ih =>
      exact ih (sound.sit (timed x (List.mem_cons_self ..))) fun y member =>
        timed y (List.mem_cons_of_mem _ member)

end Progress

/-- Sessions one after the other, their file being missing or empty at first and such that it can be
written: all file operations succeed. A new history that loads the file then has as its entries the
last of the lines that were accepted, as many as its limit allows; and if the limit of one more
session does not change, its entries are those that a new history of the same limit loads. -/
theorem entries_of_sittings {store prepared : Store} {path : Path}
    (directory : store.prepareParent path = .ok prepared)
    (writable : ∃ opened, prepared.append path [] = .ok opened)
    (empty : ∀ bytes, prepared.find? path = some (.file bytes) → bytes = [])
    {sittings : List Sitting} (timed : ∀ x ∈ sittings, ∀ time line, .add time line ∈ x.steps →
      '\n' ∉ time.toList) :
    let g := sittings.foldl (Progress.sit path) { store }
    g.faults = [] ∧
    (∀ limit, ∃ h reloaded, ({ limit } : History).load g.store path = (.ok h, reloaded) ∧
      h.entries = if limit > 0 then g.lines.drop (g.lines.length - limit.toNat) else g.lines) ∧
    ∀ x : Sitting, (∀ limit, .setLimit limit ∉ x.steps) →
      (∀ time line, .add time line ∈ x.steps → '\n' ∉ time.toList) →
      ∃ h reloaded, ({ limit := x.limit } : History).load (g.sit path x).store path =
        (.ok h, reloaded) ∧ h.entries = (g.sit path x).history.entries := by
  have start : Progress.Sound path { store } :=
    ⟨rfl, .nil, fun _ h => (nomatch h), prepared, directory,
      Store.keeps_of_prepareParent directory writable empty⟩
  have sound := start.sittings timed
  refine ⟨sound.faultless, fun limit => ?_, fun x unchanged timed => ?_⟩
  · obtain ⟨reloaded, loaded, -⟩ := sound.load_eq limit
    exact ⟨_, reloaded, loaded, rfl⟩
  · obtain ⟨live, faithful, same⟩ := sound.load x.limit
    obtain ⟨faithful', same'⟩ := live.faithful_steps faithful timed unchanged
    obtain ⟨reloaded, loaded, -⟩ := (sound.sit timed).load_eq x.limit
    have limits : (Progress.sit path _ x).history.limit = x.limit := same'.trans same
    exact ⟨_, reloaded, loaded, by rw [← limits]; exact faithful'.symm⟩

/-- Lines with the marks of the file in them, and one that is entered twice. -/
def markedSittings : List Sitting :=
  [⟨2, [.add "t" "+a", .add "t" "# b", .add "t" "c\n+d\n"]⟩,
    ⟨0, [.add "t" "c\n+d\n", .setLimit 1, .add "u" "\r"]⟩,
    ⟨1, [.add "v" "\n", .add "v" "ä€😀"]⟩]

/-- All but the second entering are kept, and loaded as they were. -/
theorem entries_markedSittings :
    let g := markedSittings.foldl (Progress.sit ⟨0, ["h"]⟩) { store := {} }
    g.lines = ["+a", "# b", "c\n+d\n", "\r", "\n", "ä€😀"] ∧
    (∃ h reloaded, ({ limit := 0 } : History).load g.store ⟨0, ["h"]⟩ = (.ok h, reloaded) ∧
      h.entries = ["+a", "# b", "c\n+d\n", "\r", "\n", "ä€😀"]) ∧
    ∃ h reloaded, ({ limit := 4 } : History).load g.store ⟨0, ["h"]⟩ = (.ok h, reloaded) ∧
      h.entries = ["c\n+d\n", "\r", "\n", "ä€😀"] := by
  have lines : (markedSittings.foldl (Progress.sit ⟨0, ["h"]⟩) { store := {} }).lines =
      ["+a", "# b", "c\n+d\n", "\r", "\n", "ä€😀"] := by decide +kernel
  have timed : ∀ x ∈ markedSittings, ∀ time line, .add time line ∈ x.steps →
      '\n' ∉ time.toList := by
    have plain : ∀ time ∈ ["t", "u", "v"], '\n' ∉ time.toList := by decide
    intro x member time line added
    refine plain time ?_
    simp only [markedSittings, List.mem_cons, List.not_mem_nil, or_false] at member
    rcases member with rfl | rfl | rfl <;> simp at added ⊢ <;> grind
  obtain ⟨-, loaded, -⟩ := @entries_of_sittings {} {} ⟨0, ["h"]⟩ rfl ⟨_, rfl⟩
    (fun _ h => (nomatch h)) markedSittings timed
  refine ⟨lines, ?_, ?_⟩
  · obtain ⟨h, reloaded, loads, entries⟩ := loaded 0
    exact ⟨h, reloaded, loads, entries.trans lines⟩
  · obtain ⟨h, reloaded, loads, entries⟩ := loaded 4
    refine ⟨h, reloaded, loads, entries.trans ?_⟩
    rw [lines]
    rfl

end Edit.History

end LineShell
