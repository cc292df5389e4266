import LineShell.Proofs.Runs
import LineShell.Proofs.Strokes

/-!
# Walking the history

The keys for older and newer entries walk over the history and, behind its newest entry, a draft:
the text that stood in the line when the walk left it. The editor keeps no position while the draft
is shown, and a draft only while it is not; what is on the line may be edited all along.
-/

namespace LineShell

open Act Edit Session

variable {σ : Type} {call : Program σ → Act σ Reply} {s t : Session σ} {e : Editor} {k : Key}
  {entries : List String} {own : Program σ → Prop}

/-! ### The walk -/

/-- Where a walk is: an index into the entries, their number standing for the draft, and the draft
that has been left. -/
structure Walk where
  index : Nat
  draft : List Char

namespace Walk

def bottom (entries : List String) : Walk := ⟨entries.length, []⟩

/-- What a key does to a walk. The text that the line holds is left as the draft by the first step
away from it. -/
def press (entries : List String) (w : Walk) (x : Stroke σ) : Walk :=
  match x.2 with
  | .older =>
    if w.index = 0 then w
    else if w.index = entries.length then ⟨w.index - 1, x.1.editor.line.text⟩
    else { w with index := w.index - 1 }
  | .newer => if w.index < entries.length then { w with index := w.index + 1 } else w
  | _ => w

end Walk

/-- An editor is at a place of a walk. -/
structure Edit.Editor.WalksAs (e : Editor) (entries : List String) (w : Walk) : Prop where
  history : e.history.entries = entries
  inside : w.index ≤ entries.length
  recalled : e.recalled = if w.index < entries.length then some w.index else none
  draft : w.index < entries.length → e.draft = w.draft

namespace Edit.Editor.WalksAs

variable {w : Walk}

theorem congr {e' : Editor} (h : e.WalksAs entries w)
    (history : e'.history.entries = e.history.entries) (recalled : e'.recalled = e.recalled)
    (draft : e'.draft = e.draft) : e'.WalksAs entries w where
  history := history.trans h.history
  inside := h.inside
  recalled := recalled.trans h.recalled
  draft below := draft.trans (h.draft below)

theorem of_fresh (history : e.history.entries = entries) (fresh : e.recalled = none) :
    e.WalksAs entries (.bottom entries) where
  history := history
  inside := Nat.le_refl _
  recalled := by simp [fresh, Walk.bottom]
  draft below := absurd below (Nat.lt_irrefl _)

/-- There is nothing older than the oldest entry. -/
theorem recallOlder_oldest (h : e.WalksAs entries w) (oldest : w.index = 0) :
    e.recallOlder = (e, false) := by
  unfold recallOlder
  cases entries with
  | nil => simp [h.history]
  | cons entry entries =>
      have recalled : e.recalled = some 0 := by simp [h.recalled, oldest]
      have begun : e.beginRecall = e := by simp [beginRecall, recalled]
      simp [h.history, begun, recalled]

theorem recallOlder {entry : String} (h : e.WalksAs entries w)
    (found : entries[w.index - 1]? = some entry) (newer : 0 < w.index) :
    e.recallOlder = ({ e with
      line := .ofText entry.toList
      recalled := some (w.index - 1)
      draft := if w.index = entries.length then e.line.text else w.draft }, false) := by
  obtain ⟨i, hi⟩ := Nat.exists_eq_succ_of_ne_zero (Nat.ne_of_gt newer)
  rw [hi, Nat.succ_sub_one] at found
  have nonempty : e.history.entries.isEmpty = false := by
    rw [h.history]
    cases entries with
    | nil => cases found
    | cons => rfl
  have found' : e.history.entries[i]? = some entry := by rw [h.history, found]
  by_cases last : w.index = entries.length
  · have recalled : e.recalled = none := by simp [h.recalled, last]
    have begun : e.beginRecall = { e with draft := e.line.text, recalled := some (i + 1) } := by
      simp only [beginRecall, recalled]
      rw [h.history, ← last, hi]
    simp only [Editor.recallOlder, nonempty, begun, found', last, if_true, replaceLine]
    rw [← last, hi]
    rfl
  · have below : w.index < entries.length := Nat.lt_of_le_of_ne h.inside last
    have recalled : e.recalled = some (i + 1) := by rw [h.recalled, if_pos below, hi]
    have begun : e.beginRecall = e := by simp only [beginRecall, recalled]
    simp only [Editor.recallOlder, nonempty, begun, recalled, found', replaceLine]
    rw [if_neg last, ← h.draft below, hi]
    rfl

theorem recallNewer_bottom (h : e.WalksAs entries w) (last : w.index = entries.length) :
    e.recallNewer = e := by
  have recalled : e.recalled = none := by simp [h.recalled, last]
  simp only [Editor.recallNewer, recalled]

theorem recallNewer {entry : String} (h : e.WalksAs entries w)
    (found : entries[w.index + 1]? = some entry) :
    e.recallNewer = { e with line := .ofText entry.toList, recalled := some (w.index + 1) } := by
  have below : w.index < entries.length := by
    have := (List.getElem?_eq_some_iff.mp found).1
    omega
  have recalled : e.recalled = some w.index := by rw [h.recalled, if_pos below]
  simp only [Editor.recallNewer, recalled, h.history, found, replaceLine]

/-- The step from the newest entry back to the draft. -/
theorem recallNewer_newest (h : e.WalksAs entries w) (newest : w.index + 1 = entries.length) :
    e.recallNewer = { e with line := .ofText w.draft, recalled := none } := by
  have below : w.index < entries.length := by omega
  have recalled : e.recalled = some w.index := by rw [h.recalled, if_pos below]
  have none : entries[w.index + 1]? = none := by simp [newest]
  simp only [Editor.recallNewer, recalled, h.history, none, replaceLine, h.draft below]

end Edit.Editor.WalksAs

/-! ### Keys on a walk -/

/-- The key belongs neither to the end of a line nor to that of the input. -/
def Stroke.Stays (x : Stroke σ) : Prop :=
  x.2 ≠ .carriageReturn ∧ (x.2 = .lineFeed → x.1.editor.afterReturn = true) ∧
    (x.2 = .controlD → x.1.editor.line.text ≠ [])

instance (x : Stroke σ) : Decidable x.Stays :=
  inferInstanceAs (Decidable (_ ∧ _ ∧ _))

/-- The programs that the completion key may run in a session are among some. -/
structure Session.Offers (own : Program σ → Prop) (s : Session σ) : Prop where
  generators : ∀ table ∈ s.registry.tables, ∀ e ∈ table.entries, ∀ g, e.generator = some g →
    ∀ text number, own (g text number)
  hooks : ∀ table ∈ s.registry.tables, ∀ e ∈ table.entries, ∀ f, e.displayHook = some f →
    ∀ word found longest, own (f word found longest)
  shown : ∀ engine, s.completion = some engine → ∀ f, engine.displayHook = some f →
    ∀ word found longest, own (f word found longest)

namespace Session.Offers

theorem congr (h : s.Offers own) (registry : t.registry = s.registry)
    (completion : t.completion = s.completion) : t.Offers own where
  generators := registry ▸ h.generators
  hooks := registry ▸ h.hooks
  shown := completion ▸ h.shown

theorem engine (h : s.Offers own)
    (change : Completion.Engine (Program σ) → Completion.Engine (Program σ))
    (hook : ∀ engine f, (change engine).displayHook = some f → engine.displayHook = some f ∨
      ∀ word found longest, own (f word found longest)) :
    ({ s with completion := s.completion.map change } : Session σ).Offers own where
  generators := h.generators
  hooks := h.hooks
  shown := Completion.hook_of_map h.shown hook

end Session.Offers

/-- Completions are looked for and listed by the programs that a session offers. What these keep is
kept all along. -/
theorem searches_of_offers {I : Session σ → Prop} {E : Interrupt → Session σ → Prop}
    (offers : ∀ {s}, I s → s.Offers own) (log : ∀ {s} event, I s → I (s.log event))
    (attempt : ∀ {s} nothing, I s → I (s.setAttemptOver nothing))
    (hook : ∀ {s} hook, (∀ f, hook = some f → ∀ word found longest, own (f word found longest)) →
      I s → I (s.setDisplayHook hook))
    (run : ∀ {s p}, own p → I s → (call p).Leaves s (fun _ => I) E)
    (list : ∀ {s} rows, I s → I (s.onEditor (·.emit (.listing rows))))
    (draw : ∀ {s}, I s → I (s.onEditor (·.redisplay))) :
    Searches call I (fun _ => True) E where
  log := log
  attempt := attempt
  unhook h := hook none (fun _ hf => nomatch hf) h
  hook h resolved := by
    obtain ⟨table, kept, member, -⟩ := Command.Registry.mem_of_resolveGenerator? resolved
    exact hook _ ((offers h).hooks table kept _ member) h
  names _ _ _ _ := trivial
  generates h resolved text number t ht := by
    obtain ⟨table, kept, member, known⟩ := Command.Registry.mem_of_resolveGenerator? resolved
    have ownp := (offers h).generators table kept _ member _ known text number
    exact (run ownp ht).weaken (fun _ _ hu => ⟨hu, fun _ _ => trivial⟩) fun _ _ hi => hi
  shows h he hf word found longest := run ((offers h).shown _ he _ hf word found longest) h
  list := list
  draw := draw

/-- Some programs leave the history and the place in it alone. On the line, and in all else, they
may do as they like; they may also be given up. -/
def KeepsWalks (call : Program σ → Act σ Reply) (own : Program σ → Prop) : Prop :=
  ∀ p, own p → ∀ s r t, s.Offers own → (call p).result s = (.ok r, t) →
    t.Offers own ∧ t.editor.installed = s.editor.installed ∧
      t.editor.history.entries = s.editor.history.entries ∧
      t.editor.recalled = s.editor.recalled ∧ t.editor.draft = s.editor.draft

/-- One of some programs is given up. -/
def Raises (call : Program σ → Act σ Reply) (own : Program σ → Prop) (i : Interrupt) : Prop :=
  ∃ p, own p ∧ ∃ s t, (call p).result s = (.error i, t)

/-- Keys are accepted, and the editor is at a place of a walk. -/
structure Session.Walking (own : Program σ → Prop) (entries : List String) (w : Walk)
    (s : Session σ) : Prop where
  installed : s.editor.installed = true
  walks : s.editor.WalksAs entries w
  offers : s.Offers own

variable {w : Walk} {E : Interrupt → Session σ → Prop} {W : Unit → Session σ → Prop}

namespace Session.Walking

theorem congr (h : s.Walking own entries w) (installed : t.editor.installed = s.editor.installed)
    (history : t.editor.history.entries = s.editor.history.entries)
    (recalled : t.editor.recalled = s.editor.recalled) (draft : t.editor.draft = s.editor.draft)
    (registry : t.registry = s.registry) (completion : t.completion = s.completion) :
    t.Walking own entries w where
  installed := installed.trans h.installed
  walks := h.walks.congr history recalled draft
  offers := h.offers.congr registry completion

theorem log (h : s.Walking own entries w) (event : Log.Event) :
    (s.log event).Walking own entries w := by
  obtain ⟨_, _, _, logged⟩ := s.log_frame event
  rw [logged]
  exact h.congr rfl rfl rfl rfl rfl rfl

theorem engine (h : s.Walking own entries w)
    (change : Completion.Engine (Program σ) → Completion.Engine (Program σ))
    (hook : ∀ engine f, (change engine).displayHook = some f → engine.displayHook = some f ∨
      ∀ word found longest, own (f word found longest)) :
    ({ s with completion := s.completion.map change } : Session σ).Walking own entries w :=
  ⟨h.installed, h.walks, h.offers.engine change hook⟩

theorem run {p : Program σ} (keeps : KeepsWalks call own) (h : s.Walking own entries w)
    (ownp : own p) :
    (call p).Leaves s (fun _ => Walking own entries w) fun i _ => Raises call own i := by
  rcases run : (call p).result s with ⟨i | r, t⟩
  · rw [Leaves, run]
    exact ⟨p, ownp, s, t, run⟩
  · obtain ⟨offers, installed, history, recalled, draft⟩ := keeps p ownp s r t h.offers run
    rw [Leaves, run]
    exact ⟨installed.trans h.installed, h.walks.congr history recalled draft, offers⟩

/-- Completion stays at the place of the walk. -/
theorem completes (keeps : KeepsWalks call own) :
    Completes call (Walking own entries w) (fun _ => True) fun i _ => Raises call own i where
  toSearches := searches_of_offers (fun h => h.offers) (fun event h => h.log event)
    (fun nothing h => h.engine (fun e => { e with attemptOver := nothing }) fun _ _ hf => .inl hf)
    (fun hook known h => h.engine (fun e => { e with displayHook := hook }) fun _ f hf =>
      .inr (known f hf))
    (fun ownp h => h.run keeps ownp) (fun _ h => h.congr rfl rfl rfl rfl rfl rfl)
    fun h => h.congr rfl rfl rfl rfl rfl rfl
  replace _ _ _ h := h.congr rfl rfl rfl rfl rfl rfl
  extend _ _ _ _ h := h.congr rfl rfl rfl rfl rfl rfl

end Session.Walking

/-! ### Strokes on a walk -/

/-- The key for older entries does no more than the step. -/
theorem leaves_older (installed : s.editor.installed = true)
    (found : ({ s.editor with afterReturn := false } : Editor).recallOlder = (e, false))
    (after : W () (s.onEditor fun _ => e.redisplay)) :
    (pressKey call .older).Leaves s W E := by
  refine leaves_pressKey (fun removed => ?_) (fun same => nomatch same) (fun _ same => nomatch same)
    (fun _ edits => nomatch edits) fun _ _ => ?_
  · rw [installed] at removed
    cases removed
  · have found' : (s.onEditor fun e =>
        { e with afterReturn := Key.older = .carriageReturn }).editor.recallOlder = (e, false) :=
      found
    simp only [specialKey, Session.recallOlder, leaves_get_bind, leaves_modify_bind, found']
    exact after

/-- The key for newer entries does no more than the step. -/
theorem leaves_newer (installed : s.editor.installed = true)
    (step : ({ s.editor with afterReturn := false } : Editor).recallNewer = e)
    (after : W () (s.onEditor fun _ => e.redisplay)) : (pressKey call .newer).Leaves s W E := by
  subst step
  refine leaves_pressKey (fun removed => ?_) (fun same => nomatch same) (fun _ same => nomatch same)
    (fun _ edits => nomatch edits) fun _ _ => after
  rw [installed] at removed
  cases removed

namespace Session.Walking

theorem unlatched (h : s.Walking own entries w) :
    ({ s.editor with afterReturn := false } : Editor).WalksAs entries w :=
  h.walks.congr rfl rfl rfl

/-- A step to the next older entry shows it. -/
theorem older {entry : String} (h : s.Walking own entries w)
    (found : entries[w.index - 1]? = some entry) (newer : 0 < w.index) :
    (pressKey call .older).Leaves s (fun _ t =>
      t.Walking own entries (w.press entries (s, .older)) ∧
        t.editor.line = .ofText entry.toList) E := by
  have step := h.unlatched.recallOlder found newer
  refine leaves_older h.installed step ⟨⟨h.installed, ?_, h.offers.generators, h.offers.hooks,
    h.offers.shown⟩, rfl⟩
  have below : w.index - 1 < entries.length := (List.getElem?_eq_some_iff.mp found).1
  have other : w.index ≠ 0 := Nat.ne_of_gt newer
  by_cases last : w.index = entries.length
  · have next : w.press entries (s, Key.older) = ⟨w.index - 1, s.editor.line.text⟩ := by
      simp only [Walk.press]
      rw [if_neg other, if_pos last]
    rw [next]
    exact ⟨h.walks.history, Nat.le_of_lt below, (if_pos below).symm, fun _ => if_pos last⟩
  · have next : w.press entries (s, Key.older) = { w with index := w.index - 1 } := by
      simp only [Walk.press]
      rw [if_neg other, if_neg last]
    rw [next]
    exact ⟨h.walks.history, Nat.le_of_lt below, (if_pos below).symm, fun _ => if_neg last⟩

/-- At the oldest entry the line stays as it is. -/
theorem oldest (h : s.Walking own entries w) (first : w.index = 0) :
    (pressKey call .older).Leaves s (fun _ t =>
      t.Walking own entries (w.press entries (s, .older)) ∧ t.editor.line = s.editor.line) E := by
  have next : w.press entries (s, Key.older) = w := by
    simp only [Walk.press]
    rw [if_pos first]
  rw [next]
  exact leaves_older h.installed (h.unlatched.recallOlder_oldest first)
    ⟨h.congr rfl rfl rfl rfl rfl rfl, rfl⟩

/-- A step to the next newer entry shows it. -/
theorem newer {entry : String} (h : s.Walking own entries w)
    (found : entries[w.index + 1]? = some entry) :
    (pressKey call .newer).Leaves s (fun _ t =>
      t.Walking own entries (w.press entries (s, .newer)) ∧
        t.editor.line = .ofText entry.toList) E := by
  have inside : w.index + 1 < entries.length := (List.getElem?_eq_some_iff.mp found).1
  have next : w.press entries (s, Key.newer) = { w with index := w.index + 1 } := by
    simp only [Walk.press]
    rw [if_pos (by omega)]
  rw [next]
  exact leaves_newer h.installed (h.unlatched.recallNewer found) ⟨⟨h.installed,
    ⟨h.walks.history, Nat.le_of_lt inside, (if_pos inside).symm,
      fun _ => h.walks.draft (by omega)⟩,
    h.offers.generators, h.offers.hooks, h.offers.shown⟩, rfl⟩

/-- The step from the newest entry brings the draft back. -/
theorem newest (h : s.Walking own entries w) (last : w.index + 1 = entries.length) :
    (pressKey call .newer).Leaves s (fun _ t =>
      t.Walking own entries (w.press entries (s, .newer)) ∧
        t.editor.line = .ofText w.draft) E := by
  have next : w.press entries (s, Key.newer) = { w with index := w.index + 1 } := by
    simp only [Walk.press]
    rw [if_pos (by omega)]
  rw [next]
  refine leaves_newer h.installed (h.unlatched.recallNewer_newest last) ⟨⟨h.installed,
    ⟨h.walks.history, Nat.le_of_eq last, ?_, fun below => ?_⟩,
    h.offers.generators, h.offers.hooks, h.offers.shown⟩, rfl⟩
  · exact (if_neg (by simp [last])).symm
  · exact absurd below (by simp [last])

/-- With the draft on the line it stays as it is. -/
theorem bottom (h : s.Walking own entries w) (last : w.index = entries.length) :
    (pressKey call .newer).Leaves s (fun _ t =>
      t.Walking own entries (w.press entries (s, .newer)) ∧ t.editor.line = s.editor.line) E := by
  have next : w.press entries (s, Key.newer) = w := by
    simp only [Walk.press]
    rw [if_neg (by omega)]
  rw [next]
  exact leaves_newer h.installed (h.unlatched.recallNewer_bottom last)
    ⟨h.congr rfl rfl rfl rfl rfl rfl, rfl⟩

/-- No other key moves on. -/
theorem press_eq {x : Stroke σ} (older : x.2 ≠ .older) (newer : x.2 ≠ .newer) :
    w.press entries x = w := by
  unfold Walk.press
  split
  · contradiction
  · contradiction
  · rfl

/-- A key on a walk: only the key that completes a word can be given up, along with one of the
programs that it runs. -/
theorem press (keeps : k = .tab → KeepsWalks call own) (h : s.Walking own entries w)
    (stays : Stroke.Stays (s, k)) :
    (pressKey call k).Leaves s (fun _ => Walking own entries (w.press entries (s, k)))
      fun i _ => k = .tab ∧ Raises call own i := by
  by_cases up : k = .older
  · subst up
    by_cases first : w.index = 0
    · exact (h.oldest first).weaken (fun _ _ ht => ht.1) fun _ _ hf => hf
    · have inside : w.index - 1 < entries.length := by
        have := h.walks.inside
        omega
      exact (h.older (List.getElem?_eq_getElem inside) (Nat.pos_of_ne_zero first)).weaken
        (fun _ _ ht => ht.1) fun _ _ hf => hf
  by_cases down : k = .newer
  · subst down
    by_cases last : w.index = entries.length
    · exact (h.bottom last).weaken (fun _ _ ht => ht.1) fun _ _ hf => hf
    by_cases newest : w.index + 1 = entries.length
    · exact (h.newest newest).weaken (fun _ _ ht => ht.1) fun _ _ hf => hf
    · have inside : w.index + 1 < entries.length := by
        have := h.walks.inside
        omega
      exact (h.newer (List.getElem?_eq_getElem inside)).weaken (fun _ _ ht => ht.1) fun _ _ hf => hf
  rw [press_eq up down]
  refine leaves_pressKey (fun removed => ?removed) (fun _ _ => h.congr rfl rfl rfl rfl rfl rfl)
    (fun _ last empty => ?ends) (fun _ _ _ => h.congr rfl rfl rfl rfl rfl rfl)
    fun _ unpaired => ?special
  case removed =>
    rw [h.installed] at removed
    cases removed
  case ends => exact absurd empty (stays.2.2 last)
  case special =>
    have noted : (s.onEditor fun e => { e with afterReturn := k = .carriageReturn }).Walking own
        entries w := h.congr rfl rfl rfl rfl rfl rfl
    cases k with
    | carriageReturn => exact absurd rfl stays.1
    | lineFeed =>
        have paired := stays.2.1 rfl
        rw [unpaired rfl] at paired
        cases paired
    | tab =>
        exact ((completes (keeps rfl)).completeKey noted).weaken (fun _ _ ht => ht)
          fun _ _ hi => ⟨rfl, hi⟩
    | older => exact absurd rfl up
    | newer => exact absurd rfl down
    | other name => exact noted.log _
    | _ => exact noted

end Session.Walking

/-! ### The law of the walk -/

/-- What a line is after a key, where all that is left agrees on it. -/
theorem lineAfter_of_leaves {l : Line}
    (h : (pressKey call k).Leaves s (fun _ t => t.editor.line = l) fun _ t => t.editor.line = l) :
    s.lineAfter call k = l := by
  unfold Session.lineAfter
  rcases run : (pressKey call k).result s with ⟨_ | _, t⟩
  · exact h.error run
  · exact h.ok run

/-- What a key does at a place of a walk. -/
structure WalkStep (call : Program σ → Act σ Reply) (entries : List String) (w : Walk)
    (s : Session σ) (k : Key) : Prop where
  /-- The history is as it was, whatever has been done to the entries that were shown. -/
  history : s.editor.history.entries = entries
  inside : w.index ≤ entries.length
  older : k = .older → 0 < w.index →
    ∃ entry, entries[w.index - 1]? = some entry ∧ s.lineAfter call k = .ofText entry.toList
  oldest : k = .older → w.index = 0 → s.lineAfter call k = s.editor.line
  newer : k = .newer → w.index + 1 < entries.length →
    ∃ entry, entries[w.index + 1]? = some entry ∧ s.lineAfter call k = .ofText entry.toList
  newest : k = .newer → w.index + 1 = entries.length → s.lineAfter call k = .ofText w.draft
  bottom : k = .newer → w.index = entries.length → s.lineAfter call k = s.editor.line
  /-- Only a key that runs programs can be given up. -/
  quiet : k ≠ .tab → ∃ t, (pressKey call k).result s = (.ok ⟨⟩, t)

/-- A walk along a text that is fed in pieces: each key is pressed at the place where the keys
before it have left the walk. -/
structure WalkLaw (call : Program σ → Act σ Reply) (own : Program σ → Prop)
    (entries : List String) (w : Walk) (s : Session σ) (pieces : List (List Char)) : Prop where
  step : ∀ before u k after, strokes call s pieces = before ++ (u, k) :: after →
    WalkStep call entries (before.foldl (Walk.press entries) w) u k
  history : ∀ t, (pieces.forM (feed call)).result s = (.ok ⟨⟩, t) →
    t.editor.history.entries = entries
  /-- Nothing is given up unless a program is that was run to complete a word. -/
  givenUp : ∀ i t, (pieces.forM (feed call)).result s = (.error i, t) → Raises call own i

theorem Session.Walking.step {w : Walk} (keeps : KeepsWalks call own) (h : s.Walking own entries w)
    (stays : Stroke.Stays (s, k)) : WalkStep call entries w s k where
  history := h.walks.history
  inside := h.walks.inside
  older up some := by
    have inside : w.index - 1 < entries.length := by
      have := h.walks.inside
      omega
    subst up
    have found := List.getElem?_eq_getElem inside
    exact ⟨_, found, lineAfter_of_leaves ((h.older found some).weaken (fun _ _ ht => ht.2)
      fun _ _ ht => ht)⟩
  oldest up first := by
    subst up
    exact lineAfter_of_leaves ((h.oldest first).weaken (fun _ _ ht => ht.2) fun _ _ ht => ht)
  newer down inside := by
    subst down
    have found := List.getElem?_eq_getElem inside
    exact ⟨_, found, lineAfter_of_leaves ((h.newer found).weaken (fun _ _ ht => ht.2)
      fun _ _ ht => ht)⟩
  newest down last := by
    subst down
    exact lineAfter_of_leaves ((h.newest last).weaken (fun _ _ ht => ht.2) fun _ _ ht => ht)
  bottom down last := by
    subst down
    exact lineAfter_of_leaves ((h.bottom last).weaken (fun _ _ ht => ht.2) fun _ _ ht => ht)
  quiet other := by
    rcases run : (pressKey call k).result s with ⟨i | _, t⟩
    · exact absurd ((h.press (fun _ => keeps) stays).error run).1 other
    · exact ⟨t, rfl⟩

/-- What is known of a walk is carried along all keys but those that end the line or the input. -/
theorem strikes_walking (keeps : KeepsWalks call own) :
    Strikes call (fun w (s : Session σ) => s.Walking own entries w) (Walk.press entries)
      Stroke.Stays fun i _ => Raises call own i where
  decode _ h := h.congr rfl rfl rfl rfl rfl rfl
  press h stays := (h.press (fun _ => keeps) stays).weaken (fun _ _ ht => ht) fun _ _ hi => hi.2
  broken h := h

/-- A walk that has begun goes on along any text. -/
theorem Session.Walking.law {w : Walk} (keeps : KeepsWalks call own)
    (h : s.Walking own entries w) (free : s.editor.decoder.stalled = false)
    (pieces : List (List Char)) (stays : ∀ x ∈ strokes call s pieces, Stroke.Stays x) :
    WalkLaw call own entries w s pieces := by
  have carried := (strikes_walking keeps).pieces pieces ⟨h, .inl free⟩ stays
  refine ⟨fun before u k after split => ?_, fun t run => ?_, fun i t run => ?_⟩
  · have here := carried.along
    rw [split] at here
    refine Session.Walking.step keeps here.at (stays _ ?_)
    simp [split]
  · exact (carried.leaves.ok run).1.walks.history
  · exact carried.leaves.error run

/-- On every walk from a fresh line the keys for older and newer entries show the entries one by
one, and at their end the draft, whatever else is typed, pasted or completed in between. -/
theorem walkLaw (keeps : KeepsWalks call own) (offers : s.Offers own)
    (installed : s.editor.installed = true) (fresh : s.editor.recalled = none)
    (free : s.editor.decoder.stalled = false) (pieces : List (List Char))
    (stays : ∀ x ∈ strokes call s pieces, Stroke.Stays x) :
    WalkLaw call own s.editor.history.entries (.bottom s.editor.history.entries) s pieces := by
  have begun : s.Walking own s.editor.history.entries (.bottom s.editor.history.entries) :=
    ⟨installed, .of_fresh rfl fresh, offers⟩
  exact begun.law keeps free pieces stays

def goCommand : Command.Entry (Program Unit) :=
  { name := "go", handler := fun _ => .skip,
    generator := some fun _ n => .done (.candidate (if n = 0 then some "north" else none)) }

def rememberingShell : Session Unit :=
  (bareShell [goCommand] ()).beginRun.onEditor fun e =>
    { e with history := { entries := ["one", "two"] } }

theorem keepsWalks_done {depth : Nat} :
    KeepsWalks (Program.exec (σ := σ) (depth + 1)) fun p => ∃ reply, p = .done reply := by
  rintro _ ⟨reply, rfl⟩ s r t offers run
  cases run
  exact ⟨offers, rfl, rfl, rfl, rfl⟩

/-- The default commands complete no arguments, so that a new shell runs the programs of its menu
only. -/
theorem offers_bareShell {menu : List (Command.Entry (Program σ))} {programs : σ}
    (generators : ∀ e ∈ menu, ∀ g, e.generator = some g → ∀ text number, own (g text number))
    (hooks : ∀ e ∈ menu, ∀ f, e.displayHook = some f →
      ∀ word found longest, own (f word found longest)) : (bareShell menu programs).Offers own := by
  have silent : ∀ e ∈ (defaultCommands : List (Command.Entry (Program σ))),
      e.generator = none ∧ e.displayHook = none := by
    intro e he
    simp only [defaultCommands, List.mem_cons, List.not_mem_nil, or_false] at he
    rcases he with rfl | rfl | rfl | rfl <;> exact ⟨rfl, rfl⟩
  refine ⟨fun table ht e he g hg => ?_, fun table ht e he f hf => ?_, fun engine he f hf => ?_⟩
  · rcases Command.Registry.mem_tables.1 ht with hm | rfl
    · cases hm
      exact generators e he g hg
    · cases (silent e he).1.symm.trans hg
  · rcases Command.Registry.mem_tables.1 ht with hm | rfl
    · cases hm
      exact hooks e he f hf
    · cases (silent e he).2.symm.trans hf
  · cases he
    cases hf

theorem offers_rememberingShell : rememberingShell.Offers fun p => ∃ reply, p = .done reply := by
  have offers : (bareShell [goCommand] ()).Offers fun p => ∃ reply, p = .done reply := by
    refine offers_bareShell (fun e he g hg => ?_) fun e he f hf => ?_
    · cases List.mem_singleton.1 he
      cases hg
      exact fun _ _ => ⟨_, rfl⟩
    · cases List.mem_singleton.1 he
      cases hf
  exact ⟨offers.generators, offers.hooks, offers.shown⟩

/-- A word is completed; then the oldest entry is asked for and one beyond it, an entry being edited
on the way, and then the draft, with the last key cut. -/
def wanderingPieces : List (List Char) :=
  [['g', 'o', ' ', 'n', '\t'], ['\x1b', '[', 'A', 'x'], ['\x10', '\x10', '\x0e', '\x1b'],
    ['[', 'B']]

theorem walk_wanderingPieces :
    WalkLaw (Program.exec 1) (fun p => ∃ reply, p = .done reply) ["one", "two"]
      (.bottom ["one", "two"]) rememberingShell wanderingPieces ∧
    ((wanderingPieces.forM (feed (Program.exec 1))).result rememberingShell).2.editor.line =
      .ofText "go north ".toList := by
  have stays : ∀ x ∈ strokes (Program.exec 1) rememberingShell wanderingPieces, Stroke.Stays x := by
    decide +kernel
  exact ⟨walkLaw keepsWalks_done offers_rememberingShell rfl rfl rfl wanderingPieces stays,
    by decide +kernel⟩

end LineShell
