import LineShell.Files.Store

/-!
# Files in a store

What is put where no directory stands leaves all other paths as they were. A file whose directory
exists can be appended to again and again, and holds what has been appended.
-/

namespace LineShell

/-! ### Nodes that are put into a store -/

namespace Files.Store

variable {s t : Store} {path p : Path} {place q : List String} {node : Node}

theorem ne_nil_of_node? (vacant : s.node? place ≠ some .directory) : place ≠ [] := by
  rintro rfl
  exact vacant rfl

theorem node?_insert (vacant : s.node? place ≠ some .directory) :
    (s.insert place node).node? q = if q = place then some node else s.node? q := by
  have some := ne_nil_of_node? vacant
  cases q with
  | nil => rw [if_neg some.symm]; rfl
  | cons name names =>
      simp only [node?, insert, List.isEmpty_cons, Bool.false_eq_true, if_false, List.find?_cons]
      by_cases same : name :: names = place
      · rw [if_pos same, ← same]
        simp
      · have other : decide (place = name :: names) = false := by simpa using Ne.symm same
        rw [if_neg same, other, List.find?_filter]
        refine congrArg (fun f => (s.nodes.find? f).map Prod.snd) (funext fun entry => ?_)
        by_cases h : entry.1 = name :: names
        · simp [h, same]
        · simp [h]

/-- Where no directory stands, any node may be put without changing where names lead. -/
theorem walk_insert (vacant : s.node? place ≠ some .directory) {directory names : List String}
    (walked : s.walk directory names = .ok q) :
    (s.insert place node).walk directory names = .ok q := by
  induction names generalizing directory with
  | nil => exact walked
  | cons name rest ih =>
      unfold walk at walked ⊢
      by_cases up : name = ".."
      · rw [if_pos up] at walked ⊢
        exact ih walked
      · rw [if_neg up] at walked ⊢
        rw [node?_insert vacant]
        by_cases same : directory ++ [name] = place
        · -- No directory was there, so that the name is the last one.
          rw [if_pos same]
          have last : rest = [] ∧ directory ++ [name] = q := by
            split at walked
            · rename_i found
              exact absurd (same ▸ found) vacant
            all_goals first | exact ⟨rfl, Except.ok.inj walked⟩ | cases walked
          obtain ⟨rfl, rfl⟩ := last
          cases node <;> rfl
        · rw [if_neg same]
          split at walked
          · exact ih walked
          all_goals exact walked

theorem place_insert (vacant : s.node? place ≠ some .directory) (led : s.place p = .ok q) :
    (s.insert place node).place p = .ok q :=
  walk_insert vacant led

theorem isDirectory_iff : s.isDirectory p = true ↔
    ∃ q, s.place p = .ok q ∧ s.node? q = some .directory := by
  unfold isDirectory find?
  cases s.place p with
  | error cause => simp
  | ok q => simp

/-- Directories stay when something is put where none of them stands. -/
theorem isDirectory_insert (vacant : s.node? place ≠ some .directory)
    (directory : s.isDirectory p = true) : (s.insert place node).isDirectory p = true := by
  obtain ⟨q, led, found⟩ := isDirectory_iff.mp directory
  have other : q ≠ place := fun same => vacant (same ▸ found)
  exact isDirectory_iff.mpr
    ⟨q, place_insert vacant led, by rw [node?_insert vacant, if_neg other, found]⟩

/-! ### The directory of a file -/

theorem isDirectory_of_makeDirectory (made : s.makeDirectory p = .ok t) :
    t.isDirectory p = true := by
  unfold makeDirectory at made
  split at made
  · cases made
  · split at made
    · cases made
    · rename_i q led
      split at made
      · cases made
      · rename_i missing
        cases made
        have vacant : s.node? q ≠ some .directory := by simp [missing]
        have there : (s.insert q .directory).node? q = some .directory := by
          rw [node?_insert vacant, if_pos rfl]
        exact isDirectory_iff.mpr ⟨q, place_insert vacant led, there⟩

theorem isDirectory_of_makeDirectories {height : Nat} (made : s.makeDirectories p height = .ok t) :
    t.isDirectory p = true := by
  cases height with
  | zero => exact isDirectory_of_makeDirectory made
  | succ height =>
      unfold makeDirectories at made
      split at made
      · rename_i direct
        cases made
        exact isDirectory_of_makeDirectory direct
      · split at made
        · cases made
        · cases above : s.makeDirectories p.parent height with
          | error fault => rw [above] at made; cases made
          | ok u =>
              simp only [above, bind, Except.bind] at made
              split at made
              · rename_i behind
                cases made
                exact isDirectory_of_makeDirectory behind
              · split at made
                · cases made
                  assumption
                · cases made
      · cases made
      · split at made
        · cases made
          assumption
        · cases made

theorem makeDirectories_of_isDirectory (named : p.hasNul = false)
    (directory : s.isDirectory p = true) (height : Nat) : s.makeDirectories p (height + 1) = .ok s := by
  obtain ⟨q, led, found⟩ := isDirectory_iff.mp directory
  have occupied : s.makeDirectory p = .error (.refused .occupied p) := by
    rw [makeDirectory, named, if_neg Bool.false_ne_true, led]
    simp only [found]
  rw [makeDirectories, occupied]
  exact if_pos directory

/-- The directory for a file at a path exists, and the file holds some bytes, where a missing file
counts as empty. -/
structure Keeps (s : Store) (path : Path) (bytes : List UInt8) : Prop where
  named : path.hasNul = false
  directory : s.isDirectory path.parent = true
  found : ∃ place, s.place path = .ok place ∧
    (s.node? place = some (.file bytes) ∨ s.node? place = none ∧ bytes = [])

variable {bytes : List UInt8}

theorem hasNul_parent (named : path.hasNul = false) : path.parent.hasNul = false := by
  unfold Path.hasNul Path.parent at *
  rw [List.any_eq_false] at named ⊢
  exact fun name member => named name (List.dropLast_subset _ member)

theorem Keeps.prepareParent (keeps : s.Keeps path bytes) : s.prepareParent path = .ok s :=
  makeDirectories_of_isDirectory (hasNul_parent keeps.named) keeps.directory _

/-- More can be appended to the file, and is behind what it has held. -/
theorem Keeps.append (keeps : s.Keeps path bytes) (more : List UInt8) :
    ∃ t, s.append path more = .ok t ∧ t.Keeps path (bytes ++ more) := by
  obtain ⟨named, directory, place, led, found⟩ := keeps
  have vacant : s.node? place ≠ some .directory := by
    rcases found with found | ⟨missing, -⟩
    · simp [found]
    · simp [missing]
  refine ⟨s.insert place (.file (bytes ++ more)), ?_, named, isDirectory_insert vacant directory,
    place, place_insert vacant led, .inl (by rw [node?_insert vacant, if_pos rfl])⟩
  rw [Store.append, named, if_neg Bool.false_ne_true, led]
  rcases found with found | ⟨missing, rfl⟩
  · simp only [found]
  · simp only [missing, List.nil_append]

/-- What has been prepared keeps nothing, if the file is missing or empty and can be written. -/
theorem keeps_of_prepareParent (prepared : s.prepareParent path = .ok t)
    (writable : ∃ u, t.append path [] = .ok u)
    (empty : ∀ bytes, t.find? path = some (.file bytes) → bytes = []) : t.Keeps path [] := by
  obtain ⟨u, appended⟩ := writable
  unfold Store.append at appended
  split at appended
  · cases appended
  · rename_i named
    split at appended
    · cases appended
    · rename_i place led
      refine ⟨by simpa using named, isDirectory_of_makeDirectories prepared, place, led, ?_⟩
      cases found : t.node? place with
      | none => exact .inr ⟨rfl, rfl⟩
      | some node =>
          cases node with
          | directory => rw [found] at appended; cases appended
          | file bytes =>
              rw [empty bytes (by rw [find?, led]; exact found)]
              exact .inl rfl

end Files.Store

end LineShell
