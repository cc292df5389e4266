import LineShell.Proofs.Lives
import LineShell.Proofs.Strokes
import LineShell.Session.Beginning

/-!
# Places inside the history

The keys for older and newer entries hold a place in the history by an index, while lines are added
to it behind them and others are cut off in front. No entry moves as long as there is room for them:
then the place stays one of an entry, whatever is added or loaded and however many sessions are
begun. A session with less room moves the entries under a place that is still held, and the next
step to an older entry may find none.
-/

namespace LineShell

open Act Edit Session

variable {σ : Type} {s t : Session σ} {depth : Nat}

/-! ### Room for entries -/

namespace Edit.History

variable {h : History}

def Fits (h : History) : Prop := 0 < h.limit → (h.entries.length : Int) ≤ h.limit

@[simp] theorem limit_remember (h : History) (line : String) :
    (h.remember line).limit = h.limit := by
  unfold remember
  split <;> rfl

theorem Fits.remember (fits : h.Fits) (line : String) : (h.remember line).Fits := by
  intro limited
  rw [limit_remember] at limited ⊢
  unfold History.remember
  split
  · have short := length_tail_le limited (h.entries ++ [line])
    simp only
    omega
  · exact fits limited

/-- An entry that is not beyond the room stays there when a line is added, as what is cut off makes
room for no more than that line. -/
theorem lt_length_remember {i : Nat} (inside : i < h.entries.length)
    (room : 0 < h.limit → (i : Int) < h.limit) (line : String) :
    i < (h.remember line).entries.length := by
  unfold History.remember
  split
  · simp only [tail]
    split
    · rename_i limited
      have below := room limited
      rw [List.length_drop, List.length_append, List.length_singleton]
      omega
    · rw [List.length_append]
      omega
  · exact inside

theorem limit_foldl_remember (h : History) (lines : List String) :
    (lines.foldl remember h).limit = h.limit := by
  induction lines generalizing h with
  | nil => rfl
  | cons line lines ih => rw [List.foldl_cons, ih, limit_remember]

theorem Fits.foldl_remember (fits : h.Fits) (lines : List String) :
    (lines.foldl History.remember h).Fits := by
  induction lines generalizing h with
  | nil => exact fits
  | cons line lines ih => exact ih (fits.remember line)

theorem lt_length_foldl_remember {i : Nat} (inside : i < h.entries.length)
    (room : 0 < h.limit → (i : Int) < h.limit) (lines : List String) :
    i < (lines.foldl History.remember h).entries.length := by
  induction lines generalizing h with
  | nil => exact inside
  | cons line lines ih =>
      exact ih (lt_length_remember inside room line) (by rwa [limit_remember])

theorem eq_foldl_of_load {loaded : History} {store : Files.Store} {path : Path}
    (read : (h.load store path).1 = .ok loaded) :
    ∃ lines : List String, loaded = lines.foldl remember { h with file := some path } := by
  unfold load at read
  split at read
  · cases read
  · split at read
    · cases read
    · cases read
      exact ⟨_, rfl⟩

end Edit.History

/-! ### The place that is held -/

/-- The place that is held in the history is one of an entry. -/
def Edit.Editor.InHistory (e : Editor) : Prop :=
  ∀ i, e.recalled = some i → i < e.history.entries.length

namespace Edit.Editor

variable {e : Editor}

/-- The step to an older entry finds none just at a place behind which there is no entry. -/
theorem missing_iff (e : Editor) : e.recallOlder.2 = true ↔
    e.history.entries ≠ [] ∧ ∃ i, e.recalled = some (i + 1) ∧ e.history.entries.length ≤ i := by
  unfold recallOlder
  split
  · rename_i empty
    simp [List.isEmpty_iff.mp empty]
  · rename_i some
    have nonempty : e.history.entries ≠ [] := by simpa using some
    have begun : (∃ i, e.beginRecall.recalled = .some (i + 1) ∧
        e.beginRecall.history.entries.length ≤ i) ↔
        ∃ i, e.recalled = .some (i + 1) ∧ e.history.entries.length ≤ i := by
      unfold beginRecall
      split
      · exact .rfl
      · rename_i none
        simp only [none]
        constructor
        · rintro ⟨i, same, beyond⟩
          have last := Option.some.inj same
          omega
        · rintro ⟨i, same, -⟩
          cases same
    simp only [nonempty, ne_eq, not_false_eq_true, true_and, ← begun]
    split
    · rename_i i held
      simp only [held]
      cases found : e.beginRecall.history.entries[i]? with
      | some entry =>
          have inside := (List.getElem?_eq_some_iff.mp found).1
          simp only [Bool.false_eq_true, false_iff]
          rintro ⟨j, same, beyond⟩
          cases same
          omega
      | none =>
          have beyond := List.getElem?_eq_none_iff.mp found
          exact iff_of_true rfl ⟨i, rfl, beyond⟩
    · rename_i other
      simp only [Bool.false_eq_true, false_iff]
      rintro ⟨i, same, -⟩
      exact other i same

theorem InHistory.not_missing (inside : e.InHistory) : e.recallOlder.2 = false := by
  refine Bool.eq_false_iff.mpr fun missing => ?_
  obtain ⟨-, i, held, beyond⟩ := e.missing_iff.mp missing
  have := inside _ held
  omega

/-- A walk begins at a place of an entry, or right behind the newest one. -/
theorem InHistory.beginRecall (inside : e.InHistory) :
    ∀ i, e.beginRecall.recalled = some i → i ≤ e.history.entries.length := by
  intro i held
  cases before : e.recalled with
  | some j =>
      have same : e.beginRecall = e := by simp only [Editor.beginRecall, before]
      rw [same] at held
      exact Nat.le_of_lt (inside i held)
  | none =>
      simp only [Editor.beginRecall, before] at held
      have last := Option.some.inj held
      omega

/-- A step to an older entry leads to one. -/
theorem InHistory.recallOlder (inside : e.InHistory) : e.recallOlder.1.InHistory := by
  have reach := inside.beginRecall
  obtain ⟨draft, recalled, begun⟩ := e.beginRecall_frame
  unfold Editor.recallOlder
  split
  · exact inside
  · rename_i full
    simp only [begun] at reach ⊢
    split
    · rename_i i
      have below : i < e.history.entries.length := reach (i + 1) rfl
      split <;> exact fun j same => Option.some.inj same ▸ below
    · rename_i other
      intro i held
      have first : i = 0 := by
        rcases i with _ | i
        · rfl
        · exact absurd held (other i)
      have nonempty : e.history.entries ≠ [] := by simpa using full
      exact first ▸ List.length_pos_iff.mpr nonempty

/-- A step to a newer entry leads to one, or to no place. -/
theorem InHistory.recallNewer (inside : e.InHistory) : e.recallNewer.InHistory := by
  unfold Editor.recallNewer
  split
  · exact inside
  · split
    · rename_i entry found
      exact fun i same => Option.some.inj same ▸ (List.getElem?_eq_some_iff.mp found).1
    · exact fun i same => nomatch same

end Edit.Editor

/-! ### Programs and keys -/

/-- A shell holds no place beyond its history, which is as long as the settings allow. -/
structure Session.Inside (s : Session σ) : Prop where
  place : s.editor.InHistory
  fits : s.editor.history.Fits
  limit : s.editor.history.limit = s.settings.shell.historyLength

theorem Session.Inside.congr (h : s.Inside) (recalled : t.editor.recalled = s.editor.recalled)
    (history : t.editor.history = s.editor.history) (settings : t.settings = s.settings) :
    t.Inside where
  place := by
    unfold Edit.Editor.InHistory
    rw [recalled, history]
    exact h.place
  fits := history ▸ h.fits
  limit := by rw [history, settings, h.limit]

theorem Session.Inside.redisplayIfInstalled (h : s.Inside) {e : Editor}
    (editor : t.editor = e.redisplayIfInstalled) (recalled : e.recalled = s.editor.recalled)
    (history : e.history = s.editor.history) (settings : t.settings = s.settings) : t.Inside := by
  unfold Editor.redisplayIfInstalled at editor
  split at editor <;>
    exact h.congr ((congrArg _ editor).trans recalled) ((congrArg _ editor).trans history) settings

/-- Lines that are added one by one leave the place that of an entry. -/
theorem Session.Inside.foldl_remember (h : s.Inside) (lines : List String) (file : Option Path)
    (same : t.editor = { s.editor with
      history := lines.foldl History.remember { s.editor.history with file } })
    (settings : t.settings = s.settings) : t.Inside where
  place := by
    rw [same]
    intro i held
    have inside := h.place i held
    refine History.lt_length_foldl_remember (h := { s.editor.history with file }) inside
      (fun limited => ?_) lines
    have room := h.fits limited
    simp only
    omega
  fits := by
    have fits : ({ s.editor.history with file } : History).Fits := h.fits
    rw [same]
    exact fits.foldl_remember lines
  limit := by
    rw [same, settings, ← h.limit]
    exact History.limit_foldl_remember ..

/-- Programs may use everything, but start the shell again only with the settings in force. -/
def settledRules : Rules where
  uses
    | .start argv => ∀ o, Options.ofArgs argv = .ok o → o.config = ""
    | _ => True
  blanks := True
  callbacksGiveUp := true

/-- Without a settings file those in force are asked for; only the log may become more verbose. -/
theorem shell_of_requestedSettings {o : Options} {settings : Settings} (unnamed : o.config = "")
    (asked : (requestedSettings o).result t = (.ok settings, s)) :
    settings.shell = s.settings.shell := by
  have found : (namedSettings o).result t = (.ok t.settings, t) := by
    simp only [namedSettings, result_get_bind, unnamed, if_true, result_pure]
  rw [requestedSettings, result_bind, found] at asked
  simp only [result_pure, Prod.mk.injEq, Except.ok.injEq] at asked
  obtain ⟨rfl, rfl⟩ := asked
  split <;> rfl

theorem inside_change {f : Session σ → Session σ} (h : s.Inside) (c : Change settledRules s f) :
    (f s).Inside := by
  cases c with
  | print text =>
      obtain ⟨writes, midRow, printed⟩ := s.editor.print_frame text
      simp only [printText, onEditor, printed]
      exact h.congr rfl rfl rfl
  | ask | answer => exact h.redisplayIfInstalled rfl rfl rfl rfl
  | prompt text =>
      simp only [Session.setPrompt]
      split
      · exact h.redisplayIfInstalled rfl rfl rfl rfl
      · exact h
  | remember history store file added =>
      obtain ⟨line, rfl⟩ := added
      exact h.foldl_remember [line] s.editor.history.file rfl rfl
  | adopt starts settings read asked =>
      obtain ⟨t, asked⟩ := asked
      have shell := shell_of_requestedSettings (starts _ read) asked
      have limit : settings.shell.historyLength = s.editor.history.limit := by rw [shell, h.limit]
      have history : (s.adoptSettings settings).editor.history = s.editor.history := by
        simp only [adoptSettings, applySettings, configureLog, onEditor, limit]
      refine ⟨fun i held => ?_, history ▸ h.fits, rfl⟩
      rw [history]
      exact h.place i held
  | load starts history loaded =>
      obtain ⟨store, path, read⟩ := loaded
      obtain ⟨lines, rfl⟩ := History.eq_foldl_of_load read
      exact h.foldl_remember lines (some path) rfl rfl
  | _ => exact h.congr rfl rfl rfl

theorem unattached_inside : Unattached (σ := σ) Inside where
  inlet := fun _ _ _ h => h.congr rfl rfl rfl
  handlers := fun h => h.congr rfl rfl rfl
  torn := fun h => h.congr rfl rfl rfl
  left := by
    intro s h
    have shown : (s.onEditor (·.showMessage "")).Inside := h.redisplayIfInstalled rfl rfl rfl rfl
    exact shown.congr rfl rfl rfl
  ended := fun h => h.congr rfl rfl rfl

theorem keys_inside : KeysPreserve (σ := σ) settledRules Inside Inside fun _ => Inside where
  change := by
    intro s f h c
    cases c with
    | newer =>
        obtain ⟨line, recalled, framed⟩ := s.editor.recallNewer_frame
        have place := h.place.recallNewer
        rw [framed] at place
        simp only [onEditor, framed]
        exact ⟨place, h.fits, h.limit⟩
    | older =>
        obtain ⟨line, draft, recalled, framed, -⟩ := s.editor.recallOlder_frame
        have place := h.place.recallOlder
        rw [framed] at place
        simp only [onEditor, framed]
        exact ⟨place, h.fits, h.limit⟩
    | astray missing => cases missing.symm.trans h.place.not_missing
    | _ => exact h.congr rfl rfl rfl
  failed := id
  begin := by
    intro s h _
    have ended : s.editor.endRow.history = s.editor.history := by
      unfold Editor.endRow
      split <;> rfl
    refine ⟨fun _ held => (by cases held), ?_, ?_⟩
    · simpa only [beginLine, onEditor, ended] using h.fits
    · simpa only [beginLine, onEditor, ended] using h.limit
  leave := fun h => h.redisplayIfInstalled rfl rfl rfl rfl
  givenUp := fun h _ => h.congr rfl rfl rfl
  endInput := fun h => h.congr rfl rfl rfl
  drop := fun h _ => h.congr rfl rfl rfl
  broken := fun h => h.congr rfl rfl rfl

theorem inside_edit {op : Operation} {f : Editor → Editor} (h : s.Inside)
    (edits : op.edits? = some f) : (s.onEditor f).Inside := by
  cases op with
  | write text =>
      cases edits
      simp only [onEditor, Editor.write]
      split <;> exact h.congr rfl rfl rfl
  | editorPrompt | restorePrompt | message =>
      cases edits
      exact h.redisplayIfInstalled rfl rfl rfl rfl
  | remove | savePrompt | clearMessage | redisplay | newRow | replaceLine | insertText
  | movePoint =>
      cases edits
      exact h.congr rfl rfl rfl
  | _ => cases edits

/-- Programs and the keys that they feed leave the place that of an entry. -/
theorem closed_inside : Closed settledRules (Invariant (σ := σ) settledRules Inside) := by
  refine unattached_inside.toClosed inside_change keys_inside (fun h _ edits => inside_edit h edits)
    (fun h => h.congr rfl rfl rfl) (fun {s} h => ?_) fun _ h => h.congr rfl rfl rfl
  simp only [onEditor, Editor.blank]
  split <;> exact h.congr rfl rfl rfl

/-! ### Signals and starts -/

theorem inside_receiveSignal {signal : Signal} (h : s.Inside) (follows : s.Follows settledRules) :
    (s.receiveSignal signal).Inside := by
  have kept := closed_inside.toStable.receiveSignal
    (show settledRules.custom.uses (.signal signal) from trivial)
    (⟨rfl, h, follows⟩ : Invariant settledRules Inside s s)
  exact kept.2.1

/-- All but a start with other settings leaves the place that of an entry. -/
theorem livesOn_inside : LivesOn (σ := σ) settledRules Inside where
  free := unattached_inside
  closed := closed_inside
  signal _ h follows := inside_receiveSignal h follows
  served _ _ h := h.congr rfl rfl rfl
  around _ h := h.congr rfl rfl rfl
  load := by
    intro s path h
    cases loaded : (s.editor.history.load s.host.store path).1 with
    | ok history =>
        obtain ⟨host, ended⟩ := result_loadHistory_of_ok loaded
        obtain ⟨lines, rfl⟩ := History.eq_foldl_of_load loaded
        rw [ended]
        exact h.foldl_remember lines (some path) rfl rfl
    | error fault =>
        obtain ⟨writes, midRow, host, ended⟩ := result_loadHistory_of_error loaded
        rw [ended]
        exact h.congr rfl rfl rfl

def Launch.limit? (l : Launch σ) : Option Int :=
  (l.shell.requested? l.argv).map (·.shell.historyLength)

/-- A start leaves room for the place that is held, and no more entries than there is room for. -/
def Launch.LeavesRoom (l : Launch σ) : Prop :=
  ∀ limit ∈ l.limit?, 0 < limit → (∀ i ∈ l.shell.editor.recalled, (i : Int) < limit) ∧
    (l.left.editor.history.entries.length : Int) ≤ limit

instance (l : Launch σ) : Decidable l.LeavesRoom :=
  inferInstanceAs (Decidable (∀ limit ∈ l.limit?, _ → _ ∧ _))

/-- Where there is room, a start leaves the place that of an entry, and so does one that fails. -/
theorem inside_launch {l : Launch σ} (leaves : l.LeavesRoom) (h : l.shell.Inside) :
    l.left.Inside := by
  have room : ∀ settings, l.shell.requested? l.argv = some settings →
      0 < settings.shell.historyLength →
      (∀ i, l.shell.editor.recalled = some i → (i : Int) < settings.shell.historyLength) ∧
        (l.left.editor.history.entries.length : Int) ≤ settings.shell.historyLength :=
    fun settings asked => leaves _ (Option.mem_map_of_mem _ asked)
  rcases l.left_cases with ⟨-, errors, printed, left⟩ | ⟨settings, asked, left | left⟩
  · rw [left]
    exact h.congr rfl rfl rfl
  · have fits := fun limited => (room settings asked limited).2
    rw [left] at fits ⊢
    exact ⟨h.place, fits, rfl⟩
  · obtain ⟨history, writes, midRow, host, opened, read⟩ :=
      openHistory_frame settings (l.shell.adoptSettings settings)
    have limited : history.limit = settings.shell.historyLength := by
      rcases read with rfl | ⟨store, path, read⟩
      · rfl
      · obtain ⟨lines, rfl⟩ := History.eq_foldl_of_load read
        exact History.limit_foldl_remember ..
    have fits := fun limited => (room settings asked limited).2
    rw [left, opened] at fits ⊢
    refine ⟨fun i held => ?_, fun bounded => ?_, limited⟩
    · have inside := h.place i held
      rcases read with rfl | ⟨store, path, read⟩
      · exact inside
      · obtain ⟨lines, rfl⟩ := History.eq_foldl_of_load read
        exact History.lt_length_foldl_remember (h := { l.shell.editor.history with
            limit := settings.shell.historyLength, file := some path })
          inside (fun bounded => (room settings asked bounded).1 i held) lines
    · have bound := fits (limited ▸ bounded)
      rw [← limited] at bound
      exact bound

/-! ### Keys that walk the history -/

/-- The key for older entries is given up just where it finds no entry at its place. -/
theorem result_older (call : Program σ → Act σ Reply) (s : Session σ) :
    ∃ t, (pressKey call .older).result s =
      (if s.editor.installed = true ∧ s.editor.recallOlder.2 = true
        then .error (.failure .noHistoryEntry) else .ok ⟨⟩, t) := by
  have same : ({ s.editor with afterReturn := false } : Editor).recallOlder.2 =
      s.editor.recallOlder.2 :=
    Bool.eq_iff_iff.mpr (({ s.editor with afterReturn := false } : Editor).missing_iff.trans
      s.editor.missing_iff.symm)
  simp only [pressKey, result_get_bind]
  cases s.editor.installed with
  | false => exact ⟨_, rfl⟩
  | true =>
      rw [← same]
      have pressed : (recallOlder : Act σ Unit).result
          (s.onEditor fun e => { e with afterReturn := false }) =
        if ({ s.editor with afterReturn := false } : Editor).recallOlder.2 = true
        then (.error (.failure .noHistoryEntry), s.onEditor fun _ =>
          ({ s.editor with afterReturn := false } : Editor).recallOlder.1)
        else (.ok ⟨⟩, s.onEditor fun _ =>
          ({ s.editor with afterReturn := false } : Editor).recallOlder.1.redisplay) := by
        simp only [Session.recallOlder, result_get_bind, onEditor]
        cases ({ s.editor with afterReturn := false } : Editor).recallOlder.2 <;> rfl
      cases missing : ({ s.editor with afterReturn := false } : Editor).recallOlder.2 with
      | true =>
          rw [missing] at pressed
          exact ⟨_, pressed⟩
      | false =>
          rw [missing] at pressed
          exact ⟨_, pressed⟩

theorem result_newer (call : Program σ → Act σ Reply) (s : Session σ) :
    ∃ t, (pressKey call .newer).result s = (.ok ⟨⟩, t) := by
  simp only [pressKey, result_get_bind]
  cases s.editor.installed with
  | true => exact ⟨_, rfl⟩
  | false => exact ⟨_, rfl⟩

/-- What text is fed to the shell, its keys find the place that of an entry. -/
theorem strikes_inside : Strikes (Program.exec depth)
    (fun (_ : Unit) (s : Session σ) => s.Inside ∧ s.Follows settledRules) (fun g _ => g)
    (fun _ => True) fun _ _ => True where
  decode d h := ⟨h.1.congr rfl rfl rfl, h.2.congr rfl rfl rfl rfl⟩
  press := by
    intro _ s k h _
    have closed := closed_inside (σ := σ)
    have pressed := (keys_inside.keep closed.toStable closed.toStable).pressKey (closed.exec depth)
      (closed.exec depth) k (⟨rfl, h⟩ : Invariant settledRules Inside s s)
    exact (Leaves.of_ends pressed).weaken (fun _ _ ht => ht.2) fun _ _ _ => trivial
  broken h := h

/-! ### The law -/

/-- The place that a shell holds in its history, and what the keys that walk the history find. -/
structure PlaceLaw (depth : Nat) (s : Session σ) : Prop where
  place : ∀ i, s.editor.recalled = some i → i < s.editor.history.entries.length
  /-- Neither key is given up, wherever it is pressed in a text that is fed. -/
  keys : ∀ pieces, ∀ x ∈ strokes (Program.exec depth) s pieces,
    (∀ i, x.1.editor.recalled = some i → i < x.1.editor.history.entries.length) ∧
    (x.2 = .older ∨ x.2 = .newer →
      ∃ t, (pressKey (Program.exec depth) x.2).result x.1 = (.ok ⟨⟩, t))
  /-- In whatever state, only the key for older entries can be given up, and it is just where the
  place that is held lies more than one entry beyond the history. -/
  newer : ∀ t : Session σ, ∃ u, (pressKey (Program.exec depth) .newer).result t = (.ok ⟨⟩, u)
  older : ∀ t : Session σ, t.editor.installed = true →
    ((∃ i u, (pressKey (Program.exec depth) .older).result t = (.error i, u)) ↔
      t.editor.history.entries ≠ [] ∧
        ∃ i, t.editor.recalled = some (i + 1) ∧ t.editor.history.entries.length ≤ i)

/-- A new shell holds no place, and its limit is that of its settings. -/
theorem settled_ofSurroundings {w : Surroundings} {settings : Option Settings} {programs : σ}
    (made : Session.ofSurroundings w settings programs = .ok s) :
    s.Inside ∧ s.Follows settledRules := by
  unfold Session.ofSurroundings at made
  cases usual : w.usualSettings with
  | error fault =>
      rw [usual] at made
      cases made
  | ok usual' =>
      rw [usual] at made
      cases made
      have single : ∀ {op}, settledRules.uses op →
          (Program.single op : Program σ).Follows settledRules true :=
        fun allowed => .perform allowed (.inl rfl) fun reply => .done reply
      refine ⟨⟨fun _ held => (nomatch held), fun limited => Int.le_of_lt limited, rfl⟩, rfl,
        fun table there e he => ?_, fun _ waiting => (nomatch waiting), fun engine here f hf => ?_⟩
      · rcases Command.Registry.mem_tables.1 there with none | rfl
        · cases none
        · exact Command.Entry.held_custom.1 (held_defaultCommands
            (fun template args => @single (.print template args) trivial)
            (@single .printMenu trivial) (@single .quit trivial) he)
      · cases here
        cases hf

/-- In every life of a shell the place that it holds in its history is that of an entry, as long as
each start on the way has left room for it and for the entries. -/
theorem placeLaw {w : Surroundings} {settings : Option Settings} {programs : σ}
    {s₀ : Session σ} (made : Session.ofSurroundings w settings programs = .ok s₀)
    {launches : List (Launch σ)} (life : Life settledRules depth s₀ launches s)
    (room : ∀ l ∈ launches, l.LeavesRoom) : PlaceLaw depth s := by
  obtain ⟨new, follows⟩ := settled_ofSurroundings made
  have serve : settledRules.Serve := ⟨fun _ => trivial, trivial, trivial⟩
  have inside := life.invariant serve livesOn_inside
    (fun l member h => inside_launch (room l member) h) new follows
  constructor
  case place => exact inside.1.place
  case keys =>
    intro pieces x pressed
    have carried := (@strikes_inside σ depth).pieces (g := ()) pieces
      ⟨inside, .inr fun _ _ _ _ => trivial⟩ fun _ _ => trivial
    obtain ⟨-, here⟩ := carried.along.mem pressed
    refine ⟨here.1.place, ?_⟩
    rintro (older | newer)
    · rw [older]
      obtain ⟨t, ended⟩ := result_older (Program.exec depth) x.1
      rw [here.1.place.not_missing, if_neg (by simp)] at ended
      exact ⟨t, ended⟩
    · rw [newer]
      exact result_newer ..
  case newer => exact result_newer _
  case older =>
    intro t installed
    rw [← Editor.missing_iff]
    obtain ⟨u, ended⟩ := result_older (Program.exec depth) t
    rw [ended]
    by_cases missing : t.editor.recallOlder.2 = true
    · rw [if_pos ⟨installed, missing⟩]
      exact iff_of_true ⟨_, _, rfl⟩ missing
    · rw [if_neg fun both => missing both.2]
      refine iff_of_false ?_ missing
      rintro ⟨i, v, failed⟩
      cases failed

/-- A system with a settings file that asks for two lines of history, and with one of them. -/
def roomySurroundings : Surroundings where
  store := { nodes := [
    (["c.yaml"], .file (Text.Utf8.encode
      "shell:\n  history_length: 2\n  history_file: h\n".toList)),
    (["h"], .file (Text.Utf8.encode "\n# t\n+zzz\n".toList))] }
  places := { home := {}, settingsFile := ⟨0, ["usual.yaml"]⟩, historyFile := ⟨0, ["usual"]⟩ }
  logTime := ""
  entryTime := ""

def roomyShell : Session Unit :=
  (Session.ofSurroundings roomySurroundings none ()).toOption.getD (bareShell [] ())

theorem made_roomyShell :
    Session.ofSurroundings roomySurroundings none () = .ok roomyShell := by
  have ok : (Session.ofSurroundings roomySurroundings none ()).isOk = true := by decide +kernel
  unfold roomyShell
  cases made : Session.ofSurroundings roomySurroundings none () with
  | error fault =>
      rw [made] at ok
      cases ok
  | ok s => rfl

/-- A shell that holds the place of a line which was added to its history. -/
def recallingOne : Session Unit :=
  let begun := Launch.left ⟨roomyShell, ["x"]⟩
  (((Program.sequence [.addHistory "one", .feed "\x1b[A"]).exec 1).result begun).2

/-- Another session begins with less room; what is loaded comes behind the place that is held. -/
theorem place_recallingOne :
    let s := Launch.left ⟨recallingOne, ["x", "-c", "c.yaml"]⟩
    PlaceLaw 1 s ∧ s.editor.recalled = some 0 ∧ s.editor.history.limit = 2 ∧
      s.editor.history.entries = ["one", "zzz"] := by
  have follows : (Program.sequence [.addHistory "one", .feed "\x1b[A"] : Program Unit).Follows
      settledRules true := .sequence fun op member => by
    simp only [List.mem_cons, List.not_mem_nil, or_false] at member
    rcases member with rfl | rfl <;> trivial
  have life : Life settledRules 1 roomyShell
      [⟨roomyShell, ["x"]⟩, ⟨recallingOne, ["x", "-c", "c.yaml"]⟩]
      (Launch.left ⟨recallingOne, ["x", "-c", "c.yaml"]⟩) :=
    ((Life.new.start ["x"]).program follows).start ["x", "-c", "c.yaml"]
  have room : ∀ l ∈ ([⟨roomyShell, ["x"]⟩, ⟨recallingOne, ["x", "-c", "c.yaml"]⟩] :
      List (Launch Unit)), l.LeavesRoom := by decide +kernel
  refine ⟨placeLaw made_roomyShell life room, ?_⟩
  decide +kernel

end LineShell
