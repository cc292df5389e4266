import LineShell.Proofs.Consumers
import LineShell.Proofs.Inputs

/-!
# What is shown before the line

The request that is waiting is kept by the shell, its text by the editor, in place of the prompt and
with the message of before put aside. The two are changed one after the other, and callbacks that
ask again are run in between. They agree in every state of a run, each prompt that is given, each
request that begins and each that is over leaving the agreement in force.
-/

namespace LineShell

open Act Edit Session

variable {σ : Type} {s₀ s s' t : Session σ}

/-- Operations that do not handle messages themselves and do not tear the shell down. -/
def Operation.LeavesMessage : Operation → Prop
  | savePrompt | restorePrompt | message _ | clearMessage | tearDown => False
  | _ => True

/-- Programs may use all operations that leave the message to requests. -/
def promptRules : Rules where
  uses op := op.LeavesMessage
  blanks := True
  callbacksGiveUp := true

/-- The request that began last, with the text that it shows, the newest deed being first. -/
def Deed.asked? : List (Deed σ) → Option (PendingRequest σ × String)
  | [] => none
  | .asked r colours label message :: _ => some (r, requestMessage colours label message)
  | _ :: older => asked? older

/-- What decides on the text that is shown before the line. -/
structure Signs (σ : Type) where
  request : Option (PendingRequest σ)
  message : Option String
  saved : List (Option String)
  prompt : String
  given : List String

def Signs.give (x : Signs σ) (text : String) : Signs σ :=
  { x with prompt := text, given := text :: x.given }

def Session.signs (s : Session σ) : Signs σ :=
  ⟨s.request, s.editor.message, s.editor.saved, s.editor.prompt, s.editor.given⟩

/-! ### The signs of changed states -/

@[simp] theorem signs_redisplayIfInstalled (s : Session σ) :
    (s.onEditor (·.redisplayIfInstalled)).signs = s.signs := by
  simp only [signs, onEditor, Editor.redisplayIfInstalled]
  split <;> rfl

theorem signs_give (s : Session σ) (text : String) :
    (s.onEditor (·.setPrompt text)).signs = s.signs.give text :=
  signs_redisplayIfInstalled (s.onEditor (·.give text))

theorem signs_setPrompt (begun : s.loop.isSome = true) (text : String) :
    (s.setPrompt text).signs = s.signs.give text := by
  rw [setPrompt, if_pos begun]
  exact signs_give s text

theorem signs_answered (s : Session σ) (r : PendingRequest σ) (answer : String) :
    (s.answered r answer).signs =
      ⟨none, s.editor.saved.headD none, s.editor.saved.tail, s.editor.prompt, s.editor.given⟩ := by
  have restored := signs_redisplayIfInstalled (s.onEditor fun e =>
    { e with message := e.saved.headD none, saved := e.saved.tail })
  exact congrArg (fun x : Signs σ => { x with request := none }) restored

theorem signs_asked (s : Session σ) (r : PendingRequest σ) (deed : Deed σ) (text : String) :
    ({ (s.record deed).onEditor fun e => e.savePrompt.showMessage text with
        request := some r } : Session σ).signs =
      ⟨some r, some text, s.editor.message :: s.editor.saved, s.editor.prompt,
        s.editor.given⟩ := by
  have shown := signs_redisplayIfInstalled (s.onEditor fun e =>
    { e.savePrompt with message := some text })
  exact congrArg (fun x : Signs σ => { x with request := some r }) shown

@[simp] theorem signs_log (s : Session σ) (e : Log.Event) : (s.log e).signs = s.signs := by
  obtain ⟨_, _, _, h⟩ := s.log_frame e
  rw [h]
  rfl

theorem signs_requestInput_of_waiting {r : PendingRequest σ} (waiting : s.request = some r)
    (label message : String) (callback : Option (String → Datum → Program σ)) (data : Datum) :
    (s.requestInput label message callback data).signs = s.signs := by
  simp only [requestInput, waiting]
  exact signs_log ..

/-! ### Requests and messages agree -/

/-- Request, message and prompt are as the deeds and the prompts that were given say, `prompt` being
the prompt before and `older` those that were given before. -/
structure Signs.Agree (prompt : String) (older : List String) (deeds : List (Deed σ))
    (x : Signs σ) : Prop where
  prompt : ∃ given, x.given = given ++ older ∧ x.prompt = given.headD prompt
  idle : x.request = none → x.message = none ∧ x.saved = []
  waiting : ∀ r, x.request = some r → ∃ text, Deed.asked? deeds = some (r, text) ∧
    x.message = some text ∧ x.saved = [none]

/-- A state of a run agrees with what happened in it. -/
def Session.Agrees (s₀ s : Session σ) : Prop :=
  s.signs.Agree s₀.editor.prompt s₀.editor.given s.journal

theorem Session.Agrees.aside (h : Agrees s₀ s) (signs : t.signs = s.signs)
    (journal : t.journal = s.journal) : Agrees s₀ t := by
  unfold Agrees
  rwa [signs, journal]

theorem Session.Agrees.give {text : String} (h : Agrees s₀ s)
    (signs : t.signs = s.signs.give text) (journal : t.journal = s.journal) : Agrees s₀ t := by
  obtain ⟨given, earlier, -⟩ := h.prompt
  unfold Agrees
  rw [signs, journal]
  refine ⟨⟨text :: given, ?_, rfl⟩, h.idle, h.waiting⟩
  exact congrArg (text :: ·) earlier

theorem agrees_change {f : Session σ → Session σ} (h : Agrees s₀ s)
    (c : Change promptRules s f) : Agrees s₀ (f s) := by
  cases c with
  | print text =>
      obtain ⟨_, _, printed⟩ := s.editor.print_frame text
      exact h.aside (by simp only [printText, onEditor, printed]; rfl) rfl
  | @ask label message callback data idle called =>
      obtain ⟨shown, kept⟩ := h.idle idle
      unfold Agrees
      rw [signs_asked, show s.editor.message = none from shown,
        show s.editor.saved = [] from kept]
      refine ⟨h.prompt, fun free => absurd free (Option.some_ne_none _), fun r hr => ?_⟩
      cases hr
      exact ⟨_, rfl, rfl, rfl⟩
  | refuse waiting vain => exact ⟨h.prompt, h.idle, h.waiting⟩
  | @answer r waiting answer =>
      obtain ⟨text, -, -, kept⟩ := h.waiting r waiting
      unfold Agrees
      rw [signs_answered, show s.editor.saved = [none] from kept]
      exact ⟨h.prompt, fun _ => ⟨rfl, rfl⟩, fun r hr => absurd hr.symm (Option.some_ne_none r)⟩
  | prompt text =>
      cases begun : s.loop.isSome with
      | true =>
          exact h.give (signs_setPrompt begun text) (journal_of_core (core_setPrompt s text))
      | false => simpa [setPrompt, begun] using h
  | begin starts => exact h.give rfl rfl
  | install installs => exact h.give rfl rfl
  | _ => exact h.aside rfl rfl

theorem agrees_key {f : Session σ → Session σ} (h : Agrees s₀ s)
    (c : KeyChange promptRules s f) : Agrees s₀ (f s) := by
  cases c with
  | newer =>
      obtain ⟨_, _, recalled⟩ := s.editor.recallNewer_frame
      exact h.aside (by simp only [onEditor, recalled]; rfl) rfl
  | older | astray =>
      obtain ⟨_, _, _, recalled, -⟩ := s.editor.recallOlder_frame
      exact h.aside (by simp only [onEditor, recalled]; rfl) rfl
  | _ => exact h.aside rfl rfl

theorem keys_agrees :
    KeysPreserve promptRules (Agrees s₀) (Agrees s₀) fun _ => Agrees s₀ where
  change := agrees_key
  failed := id
  begin := by
    intro s h _
    refine h.aside ?_ rfl
    simp only [beginLine, onEditor, signs, Editor.endRow]
    split <;> rfl
  leave := fun {s} h => h.aside (signs_redisplayIfInstalled s.leaveLine) rfl
  givenUp := fun h _ => h.aside rfl rfl
  endInput := fun h => h.aside rfl rfl
  drop := fun h _ => h.aside rfl rfl
  broken := fun h => h.aside rfl rfl

theorem stable_agrees : Stable promptRules (Invariant promptRules (Agrees s₀)) :=
  .ofInvariant agrees_change

theorem Session.Agrees.onEditor {rules : Rules} {f : Editor → Editor}
    (h : Invariant rules (Agrees s₀) s s') (kept : Agrees s₀ s → Agrees s₀ (s.onEditor f)) :
    Invariant rules (Agrees s₀) (s.onEditor f) (s'.onEditor f) := by
  obtain ⟨rfl, h, follows⟩ := h
  exact ⟨rfl, kept h, follows.congr rfl rfl rfl rfl⟩

theorem agrees_edit {op : Operation} {f : Editor → Editor} (h : Agrees s₀ s)
    (allowed : op.LeavesMessage) (edits : op.edits? = some f) : Agrees s₀ (s.onEditor f) := by
  cases op with
  | editorPrompt prompt =>
      cases edits
      exact h.give (signs_give s prompt) rfl
  | savePrompt | restorePrompt | message | clearMessage => exact allowed.elim
  | write text =>
      cases edits
      refine h.aside ?_ rfl
      simp only [onEditor, signs, Editor.write]
      split <;> rfl
  | remove | redisplay | newRow | replaceLine | insertText | movePoint =>
      cases edits
      exact h.aside rfl rfl
  | _ => cases edits

/-- What leaves all but the input and the writes alone leaves the agreement in force. -/
theorem Session.Agrees.lockstep {α : Type} {m : Act σ α}
    (aside : ∀ s : Session σ, s.Aside (m.result s).2) :
    Lockstep (Invariant promptRules (Agrees s₀)) m (Invariant promptRules (Agrees s₀))
      fun _ => Invariant promptRules (Agrees s₀) := by
  rintro s _ ⟨rfl, agrees, follows⟩
  obtain ⟨_, _, _, _, _, _, h⟩ := aside s
  have left : Invariant promptRules (Agrees s₀) (m.result s).2 (m.result s).2 := by
    rw [h]
    exact ⟨rfl, agrees.aside rfl rfl, follows.congr rfl rfl rfl rfl⟩
  rcases hm : m.result s with ⟨_ | _, t⟩ <;> rw [hm] at left
  · exact (ends_error ..).2 left
  · exact (ends_ok ..).2 left

theorem closed_agrees : Closed promptRules (Invariant promptRules (Agrees s₀)) := by
  refine Closed.ofKeys (keys_agrees.keep stable_agrees stable_agrees) ?edit ?quit ?blank ?resume
    (fun d _ => ?attach) (fun _ => ?detach) fun h => h.elim
  case edit => exact fun h allowed edits => Agrees.onEditor h fun a => agrees_edit a allowed edits
  case quit => exact fun h => Agrees.onEditor h fun a => a.aside rfl rfl
  case blank =>
    refine fun _ h => Agrees.onEditor h fun a => a.aside ?_ rfl
    simp only [Session.onEditor, signs, Editor.blank]
    split <;> rfl
  case resume => exact fun line _ h => Agrees.onEditor h fun a => a.aside rfl rfl
  case attach => exact Agrees.lockstep (aside_attach d)
  case detach => exact Agrees.lockstep aside_detach

/-- What stands before the line, `prompt` being the one that was given last, and how it goes on from
there. -/
structure PromptLaw (prompt : String) (s : Session σ) : Prop where
  /-- Where no request is waiting, the prompt given last is shown, and no message is left behind. -/
  idle : s.request = none → s.editor.message = none ∧ s.editor.saved = [] ∧
    s.editor.visiblePrompt = prompt
  /-- A request that is waiting is the one that began last. Its text is shown, and the message put
  aside for it is none. -/
  waiting : ∀ r, s.request = some r → ∃ text, Deed.asked? s.journal = some (r, text) ∧
    s.editor.message = some text ∧ s.editor.saved = [none] ∧ s.editor.visiblePrompt = text
  /-- A shell that is started anew is given the prompt of its settings. -/
  begun : s.beginRun.signs = s.signs.give s.settings.shell.prompt
  /-- While a request is waiting no other one leaves a trace. -/
  further : ∀ r, s.request = some r → ∀ label message callback data,
    (s.requestInput label message callback data).signs = s.signs
  /-- A prompt that is given is shown at once if no request is waiting. -/
  given : s.request = none → s.loop.isSome = true → ∀ text,
    (s.setPrompt text).editor.given = text :: s.editor.given ∧
      (s.setPrompt text).editor.visiblePrompt = text
  /-- Otherwise it is shown as soon as the request is over, and not before. -/
  deferred : ∀ r, s.request = some r → s.loop.isSome = true → ∀ text answer,
    (s.setPrompt text).editor.visiblePrompt = s.editor.visiblePrompt ∧
      ((s.setPrompt text).answered r answer).editor.visiblePrompt = text

theorem visiblePrompt_of_signs {x : Signs σ} (h : s.signs = x) :
    s.editor.visiblePrompt = x.message.getD x.prompt := by
  rw [← h]
  rfl

theorem Session.Agrees.promptLaw (h : Agrees s₀ s) : PromptLaw s.editor.prompt s where
  idle := by
    intro idle
    obtain ⟨message, saved⟩ := h.idle idle
    refine ⟨message, saved, (visiblePrompt_of_signs rfl).trans ?_⟩
    rw [message]
    rfl
  waiting := by
    intro r waiting
    obtain ⟨text, asked, message, saved⟩ := h.waiting r waiting
    refine ⟨text, asked, message, saved, (visiblePrompt_of_signs rfl).trans ?_⟩
    rw [message]
    rfl
  begun := rfl
  further := fun _ waiting => signs_requestInput_of_waiting waiting
  given := by
    intro idle begun text
    have given := signs_setPrompt begun text
    refine ⟨congrArg Signs.given given, ?_⟩
    rw [visiblePrompt_of_signs given, Signs.give, (h.idle idle).1]
    rfl
  deferred := by
    intro r waiting begun text answer
    obtain ⟨shown, -, message, saved⟩ := h.waiting r waiting
    have given := signs_setPrompt begun text
    constructor
    · rw [visiblePrompt_of_signs given, visiblePrompt_of_signs rfl, Signs.give, message]
      rfl
    · have behind := visiblePrompt_of_signs (signs_answered (s.setPrompt text) r answer)
      have kept : (s.setPrompt text).editor.saved = [none] :=
        (congrArg Signs.saved given).trans saved
      have prompt : (s.setPrompt text).editor.prompt = text := congrArg Signs.prompt given
      rw [kept, prompt] at behind
      exact behind

/-- In every run of a new shell the request that is waiting and the text before the line agree,
whatever callbacks ask for again and commands answer themselves: the text of the request is shown
while it is waiting, and otherwise the prompt given last, which is that of before if none has been
given. -/
theorem promptLaw_of_reached {depth : Nat} (follows : s₀.Follows promptRules)
    (fresh : s₀.request = none) (message : s₀.editor.message = none)
    (saved : s₀.editor.saved = [])
    (reached : Reached promptRules depth (fun _ _ => True) s₀ s) :
    ∃ given, s.editor.given = given ++ s₀.editor.given ∧
      PromptLaw (given.headD s₀.editor.prompt) s := by
  have first : Agrees s₀ s₀ :=
    ⟨⟨[], rfl, rfl⟩, fun _ => ⟨message, saved⟩, fun r hr => nomatch fresh.symm.trans hr⟩
  obtain ⟨agrees, -⟩ := reached.invariant keys_agrees closed_agrees closed_agrees
    (fun _ _ h _ => h) first follows
  obtain ⟨given, earlier, prompt⟩ := agrees.prompt
  refine ⟨given, earlier, ?_⟩
  have law := agrees.promptLaw
  rwa [show s.editor.prompt = _ from prompt] at law

theorem follows_inquiry (n : Nat) : (inquiry n).Follows promptRules true := by
  induction n with
  | zero => exact .done .nothing
  | succ n ih =>
      refine .request ?_ (.done .nothing)
      rintro f hf code data
      cases hf
      exact .note ih

theorem follows_inquiringShell : inquiringShell.Follows promptRules := by
  refine follows_bareShell (fun _ _ => trivial) trivial trivial fun e he => ?_
  obtain rfl := List.mem_singleton.1 he
  exact ⟨fun _ => follows_inquiry 2, fun _ hg => (nomatch hg), fun _ hf => (nomatch hf)⟩

/-- A new prompt is given while the second code is asked for. -/
def renamed : Session (List String) :=
  (((Program.single (.setPrompt "% ")).exec 4).result inquiring.2).2

/-- The request goes on to be shown, and the new prompt stands behind it. -/
theorem visiblePrompt_renamed : renamed.editor.visiblePrompt = "[box] Code: " ∧
    (renamed.onEditor (·.restorePrompt)).editor.visiblePrompt = "% " ∧
    ∃ given, renamed.editor.given = given ++ inquiringShell.beginRun.editor.given ∧
      PromptLaw (given.headD "[cmdshell]# ") renamed := by
  have run : inquiring.1.isOk = true ∧ renamed.editor.visiblePrompt = "[box] Code: " ∧
      (renamed.onEditor (·.restorePrompt)).editor.visiblePrompt = "% " := by
    decide +kernel
  obtain ⟨ok, shown, behind⟩ := run
  have typed : Reached promptRules 4 (fun _ _ => True) inquiringShell.beginRun inquiring.2 :=
    .fed .start _ ok
  have reached : Reached promptRules 4 (fun _ _ => True) inquiringShell.beginRun renamed :=
    typed.ran (.perform trivial (.inl rfl) fun reply => .done reply)
  exact ⟨shown, behind, promptLaw_of_reached (follows_inquiringShell.congr rfl rfl rfl rfl)
    rfl rfl rfl reached⟩

end LineShell
