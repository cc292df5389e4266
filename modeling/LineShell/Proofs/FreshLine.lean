import LineShell.Proofs.Courses
import LineShell.Proofs.Typing
import LineShell.Proofs.Walking

/-!
# The history behind a fresh line

A line that is handed on ends the walk over the history, too: behind whatever is typed on the next
line, the keys for older and newer entries begin at the newest entry. A line that an interrupt
throws away does not end it: the walk goes on where it was, and at its end the draft comes back that
was left on the discarded line.
-/

namespace LineShell

open Act Edit Session

variable {σ : Type} {call : Program σ → Act σ Reply} {s t : Session σ} {e : Editor} {k : Key}
  {entries : List String} {own : Program σ → Prop} {w : Walk} {writes : Bool}

/-! ### Fresh lines -/

/-- Programs may do everything but press keys. Whether they may write on the edit line is left
open. -/
def keylessRules (writes : Bool) : Rules where
  uses
    | .feed _ => False
    | .replaceLine _ | .insertText _ | .line none => writes = true
    | _ => True
  blanks := True
  callbacksGiveUp := true

/-- No history entry is shown, and the line is empty, unless programs may write on it. -/
structure Edit.Editor.Fresh (writes : Bool) (e : Editor) : Prop where
  recalled : e.recalled = none
  line : writes = false → e.line = {}

namespace Edit.Editor.Fresh

theorem congr {e' : Editor} (h : e.Fresh writes) (recalled : e'.recalled = e.recalled)
    (line : e'.line = e.line) : e'.Fresh writes :=
  ⟨recalled.trans h.recalled, fun quiet => line.trans (h.line quiet)⟩

theorem redisplayIfInstalled (h : e.Fresh writes) : e.redisplayIfInstalled.Fresh writes := by
  unfold Editor.redisplayIfInstalled
  split
  · exact h.congr rfl rfl
  · exact h

theorem print (h : e.Fresh writes) (text : String) : (e.print text).Fresh writes := by
  obtain ⟨_, _, printed⟩ := e.print_frame text
  rw [printed]
  exact h.congr rfl rfl

theorem edit {op : Operation} {f : Editor → Editor} (h : e.Fresh writes)
    (allowed : (keylessRules writes).uses op) (edits : op.edits? = some f) :
    (f e).Fresh writes := by
  cases op with
  | editorPrompt | restorePrompt | message =>
      cases edits
      exact redisplayIfInstalled (h.congr rfl rfl)
  | write text =>
      cases edits
      unfold Editor.write
      split <;> exact h.congr rfl rfl
  | replaceLine | insertText =>
      cases edits
      exact ⟨h.recalled, fun quiet => nomatch quiet.symm.trans allowed⟩
  | movePoint position =>
      cases edits
      refine ⟨h.recalled, fun quiet => ?_⟩
      simp [Editor.movePoint, h.line quiet, Line.moveTo]
  | remove | savePrompt | clearMessage | redisplay | newRow =>
      cases edits
      exact h.congr rfl rfl
  | _ => cases edits

end Edit.Editor.Fresh

def Session.Fresh (writes : Bool) (s : Session σ) : Prop := s.editor.Fresh writes

theorem fresh_change {f : Session σ → Session σ} (h : s.Fresh writes)
    (c : Change (keylessRules writes) s f) : (f s).Fresh writes := by
  cases c with
  | print text => exact Editor.Fresh.print h text
  | ask => exact Editor.Fresh.redisplayIfInstalled (Editor.Fresh.congr h rfl rfl)
  | answer => exact Editor.Fresh.redisplayIfInstalled (Editor.Fresh.congr h rfl rfl)
  | prompt text =>
      simp only [Session.setPrompt]
      split
      · exact Editor.Fresh.redisplayIfInstalled (Editor.Fresh.congr h rfl rfl)
      · exact h
  | interrupt | terminate => exact ⟨h.recalled, fun _ => rfl⟩
  | _ => exact Editor.Fresh.congr h rfl rfl

theorem stable_fresh :
    Stable (keylessRules writes) (Invariant (σ := σ) (keylessRules writes) (Fresh writes)) :=
  .ofInvariant fresh_change

theorem unattached_fresh : Unattached (σ := σ) (Fresh writes) where
  inlet := fun _ _ _ h => h
  handlers := fun h => h
  torn := fun h => h
  left := by
    intro s h
    have shown : (s.editor.showMessage "").Fresh writes :=
      Editor.Fresh.redisplayIfInstalled (Editor.Fresh.congr h rfl rfl)
    exact shown.congr rfl rfl
  ended := fun h => h

/-- Programs that press no keys leave a fresh line fresh. -/
theorem closed_fresh :
    Closed (keylessRules writes) (Invariant (σ := σ) (keylessRules writes) (Fresh writes)) := by
  refine .ofFeed stable_fresh (fun _ _ presses => presses.elim) ?edit ?quit ?blanked
    (fun d _ => unattached_fresh.attach stable_fresh d)
    (fun _ => unattached_fresh.detach stable_fresh) fun _ => unattached_fresh.tearDown stable_fresh
  case edit =>
    rintro s _ op f ⟨rfl, h, follows⟩ allowed edits
    exact ⟨rfl, Editor.Fresh.edit h allowed edits, follows.congr rfl rfl rfl rfl⟩
  case quit =>
    rintro s _ allowed ⟨rfl, h, follows⟩
    exact ⟨rfl, ⟨h.recalled, fun quiet => nomatch quiet.symm.trans allowed⟩,
      follows.congr rfl rfl rfl rfl⟩
  case blanked =>
    rintro body body' b - inner s _ ⟨rfl, h, follows⟩
    have blanked : s.editor.blank.Fresh writes := by
      unfold Editor.blank
      split <;> exact Editor.Fresh.congr h rfl rfl
    refine ends_suspended inner rfl rfl ⟨rfl, blanked, follows.congr rfl rfl rfl rfl⟩ ?_
      ⟨rfl, h, follows⟩
    -- The line that is put back is the fresh one of before.
    rintro t _ ⟨rfl, ht, held⟩
    exact ⟨rfl, ⟨ht.recalled, h.line⟩, held.congr rfl rfl rfl rfl⟩

/-! ### Handing a line on -/

/-- However the handling of a completed line ends, the next one is fresh. -/
theorem fresh_acceptLine
    (hc : Runs (keylessRules writes) (Invariant (keylessRules writes) (Fresh writes)) call)
    (follows : s.Follows (keylessRules writes)) :
    (acceptLine call).Leaves s (fun _ => Fresh writes) fun _ => Fresh writes := by
  refine leaves_acceptLine stable_fresh hc ⟨rfl, fun _ => rfl⟩ follows ?_ ?_
  · exact fun _ ht _ => Editor.Fresh.redisplayIfInstalled (Editor.Fresh.congr ht rfl rfl)
  · exact fun _ _ ht _ => Editor.Fresh.congr ht rfl rfl

theorem fresh_of_endsLine
    (hc : Runs (keylessRules writes) (Invariant (keylessRules writes) (Fresh writes)) call)
    (follows : s.Follows (keylessRules writes)) (installed : s.editor.installed = true)
    (ends : Stroke.EndsLine (s, k)) :
    (pressKey call k).Leaves s (fun _ => Fresh writes) fun _ => Fresh writes := by
  have handed : (acceptLine call).Leaves
      (s.onEditor fun e => { e with afterReturn := k = .carriageReturn }) (fun _ => Fresh writes)
      fun _ => Fresh writes :=
    fresh_acceptLine hc (follows.congr rfl rfl rfl rfl)
  rwa [Leaves, result_pressKey_ending call installed ends]

/-! ### Entering the history -/

/-- The key works on the line that is shown. If it completes a word, the programs that are run for
this leave the walk alone. -/
structure Stroke.Types (call : Program σ → Act σ Reply) (own : Program σ → Prop) (x : Stroke σ) :
    Prop where
  stays : x.Stays
  older : x.2 ≠ .older
  newer : x.2 ≠ .newer
  completes : x.2 = .tab → KeepsWalks call own

/-- What the keys for older and newer entries do with a line that has been typed. -/
structure Session.Unwalked (call : Program σ → Act σ Reply) (s : Session σ) : Prop where
  /-- The one shows the newest entry, and then the other one brings the line back. -/
  newest : ∀ entry, s.editor.history.entries.getLast? = some entry →
    ∃ t, (pressKey call .older).result s = (.ok ⟨⟩, t) ∧ t.editor.line = .ofText entry.toList ∧
      t.lineAfter call .newer = .ofText s.editor.line.text
  empty : s.editor.history.entries = [] → s.lineAfter call .older = s.editor.line
  /-- The other one by itself changes nothing. -/
  bottom : s.lineAfter call .newer = s.editor.line

/-- Behind any text that is typed on the line, the history is entered at its newest entry, whatever
has been decoded before. Typing is not given up unless a program is that was run to complete a
word. -/
def Session.EntersAnew (call : Program σ → Act σ Reply) (s : Session σ) : Prop :=
  s.editor.installed = true → ∀ own d pieces, s.Offers own → d.stalled = false →
    (∀ x ∈ strokes call (s.setDecoder d) pieces, Stroke.Types call own x) →
    (pieces.forM (feed call)).Leaves (s.setDecoder d) (fun _ t => t.Unwalked call) fun i _ =>
      Raises call own i ∧ ∃ x ∈ strokes call (s.setDecoder d) pieces, x.2 = .tab

/-- Typing does not begin a walk. -/
theorem strikes_typing (call : Program σ → Act σ Reply) (own : Program σ → Prop)
    (entries : List String) (completes : Prop) :
    Strikes call (fun (_ : Unit) (s : Session σ) => s.Walking own entries (.bottom entries))
      (fun _ _ => ()) (fun x => x.Types call own ∧ (x.2 = .tab → completes))
      fun i _ => Raises call own i ∧ completes where
  decode _ h := h.congr rfl rfl rfl rfl rfl rfl
  press h types := by
    have stay : (Walk.bottom entries).press entries _ = .bottom entries :=
      Session.Walking.press_eq types.1.older types.1.newer
    exact (h.press types.1.completes types.1.stays).weaken (fun _ _ ht => stay ▸ ht)
      fun _ _ hi => ⟨hi.2, types.2 hi.1⟩
  broken h := h

theorem Session.Walking.unwalked (h : s.Walking own entries (.bottom entries)) :
    s.Unwalked call where
  newest entry last := by
    rw [h.walks.history, List.getLast?_eq_getElem?] at last
    have newer : 0 < entries.length := by
      have := (List.getElem?_eq_some_iff.mp last).1
      omega
    have shown : (pressKey call .older).Leaves s _ fun _ _ => False := h.older last newer
    rcases run : (pressKey call .older).result s with ⟨i | _, t⟩
    · exact (shown.error run).elim
    · obtain ⟨walking, line⟩ := shown.ok run
      have next : Walk.press entries (.bottom entries) (s, Key.older) =
          ⟨entries.length - 1, s.editor.line.text⟩ := by
        simp only [Walk.press, Walk.bottom, if_true]
        exact if_neg (Nat.ne_of_gt newer)
      rw [next] at walking
      have back : entries.length - 1 + 1 = entries.length := by omega
      exact ⟨t, rfl, line, lineAfter_of_leaves ((walking.newest back).weaken (fun _ _ hu => hu.2)
        fun _ _ hu => hu)⟩
  empty none := by
    have first : (Walk.bottom entries).index = 0 := by simp [Walk.bottom, ← h.walks.history, none]
    exact lineAfter_of_leaves ((h.oldest first).weaken (fun _ _ ht => ht.2) fun _ _ ht => ht)
  bottom := lineAfter_of_leaves ((h.bottom rfl).weaken (fun _ _ ht => ht.2) fun _ _ ht => ht)

theorem entersAnew_of_recalled (fresh : s.editor.recalled = none) : s.EntersAnew call := by
  intro installed own d pieces offers free types
  have begun : (s.setDecoder d).Walking own s.editor.history.entries
      (.bottom s.editor.history.entries) :=
    ⟨installed, .of_fresh rfl fresh, offers.generators, offers.hooks, offers.shown⟩
  have typed := (strikes_typing call own s.editor.history.entries
    (∃ x ∈ strokes call (s.setDecoder d) pieces, x.2 = .tab)).pieces (g := ()) pieces
      ⟨begun, .inl free⟩ fun x hx => ⟨types x hx, fun tab => ⟨x, hx, tab⟩⟩
  exact typed.leaves.weaken (fun _ _ ht => ht.1.unwalked) fun _ _ hi => hi

/-! ### The law -/

/-- What becomes of the walk when the line is handed on or thrown away. -/
structure FreshLaw (call : Program σ → Act σ Reply) (writes : Bool) (s : Session σ) : Prop where
  /-- Nothing of a line that has been handed on is left, however its handling has ended. -/
  accepted : ∀ k r t, Stroke.EndsLine (s, k) → (pressKey call k).result s = (r, t) →
    t.Fresh writes ∧ t.EntersAnew call
  /-- A line that an interrupt throws away is emptied, -/
  cleared : s.input.isSome → (s.receiveSignal .interrupt).editor.line = {}
  /-- and the history is entered anew if it had not been entered, -/
  unentered : s.input.isSome → s.editor.recalled = none →
    (s.receiveSignal .interrupt).EntersAnew call
  /-- but a walk goes on from where it was, the draft being that of the discarded line. -/
  walked : s.input.isSome → ∀ own entries w d pieces, KeepsWalks call own → s.Offers own →
    s.editor.WalksAs entries w → d.stalled = false →
    (∀ x ∈ strokes call ((s.receiveSignal .interrupt).setDecoder d) pieces, Stroke.Stays x) →
    WalkLaw call own entries w ((s.receiveSignal .interrupt).setDecoder d) pieces

theorem receiveSignal_interrupt (attached : s.input.isSome) :
    s.receiveSignal .interrupt = s.discardLine.onEditor (·.redisplay) :=
  if_pos attached

/-- A completed line ends the walk over the history, and a line that is thrown away does not. -/
theorem freshLaw {depth : Nat} (follows : s.Follows (keylessRules writes))
    (installed : s.editor.installed = true) : FreshLaw (Program.exec depth) writes s where
  accepted k r t ends run := by
    have left := fresh_of_endsLine (closed_fresh.exec depth) follows installed ends
    have fresh : t.Fresh writes := by
      cases r with
      | error i => exact left.error run
      | ok _ => exact left.ok run
    exact ⟨fresh, entersAnew_of_recalled fresh.recalled⟩
  cleared attached := by
    rw [receiveSignal_interrupt attached]
    rfl
  unentered attached fresh := by
    rw [receiveSignal_interrupt attached]
    exact entersAnew_of_recalled fresh
  walked attached own entries w d pieces keeps offers walks free stays := by
    rw [receiveSignal_interrupt attached] at stays ⊢
    have walking : (((s.discardLine).onEditor (·.redisplay)).setDecoder d).Walking own entries w :=
      ⟨installed, walks.congr rfl rfl rfl, offers.generators, offers.hooks, offers.shown⟩
    exact walking.law keeps free pieces stays

/-- A shell with an input in which the newest of two entries is shown, with `abc` typed before. -/
def recallingShell : Session Unit :=
  { rememberingShell with input := some .unknown }.onEditor fun e =>
    { e with line := .ofText "two".toList, recalled := some 1, draft := "abc".toList }

/-- Behind an interrupt the discarded text comes back, and behind a completed line it does not. -/
theorem draft_recallingShell :
    (recallingShell.receiveSignal .interrupt).editor.line = {} ∧
      WalkLaw (Program.exec 1) (fun p => ∃ reply, p = .done reply) ["one", "two"]
        ⟨1, "abc".toList⟩ (recallingShell.receiveSignal .interrupt) [['\x1b', '[', 'B']] ∧
      ((feed (Program.exec 1) ['\x1b', '[', 'B']).result
        (recallingShell.receiveSignal .interrupt)).2.editor.line = .ofText "abc".toList ∧
      ((pressKey (Program.exec 1) .carriageReturn).result recallingShell).2.EntersAnew
        (Program.exec 1) := by
  have follows : recallingShell.Follows (keylessRules false) := by
    have go : ∀ e ∈ [goCommand], e.Follows (keylessRules false) := by
      intro e he
      cases List.mem_singleton.1 he
      refine ⟨fun _ => .done .nothing, fun g hg text number => ?_, fun _ hf => nomatch hf⟩
      cases hg
      exact .done _
    have bare : (bareShell [goCommand] ()).Follows (keylessRules false) :=
      follows_bareShell (fun _ _ => trivial) trivial trivial go
    exact bare.congr rfl rfl rfl rfl
  have law : FreshLaw (Program.exec 1) false recallingShell := freshLaw follows rfl
  have offers : recallingShell.Offers fun p => ∃ reply, p = .done reply :=
    ⟨offers_rememberingShell.generators, offers_rememberingShell.hooks,
      offers_rememberingShell.shown⟩
  have walks : recallingShell.editor.WalksAs ["one", "two"] ⟨1, "abc".toList⟩ :=
    ⟨rfl, by decide, rfl, fun _ => rfl⟩
  refine ⟨law.cleared rfl, ?_, by decide +kernel, (law.accepted _ _ _ (.inl rfl) rfl).2⟩
  exact law.walked rfl _ _ _ {} _ keepsWalks_done offers walks rfl (by decide +kernel)

end LineShell
