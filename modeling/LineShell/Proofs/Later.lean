import LineShell.Proofs.Editor
import LineShell.Proofs.Lockstep
import LineShell.Session.EventLoop

/-!
# Requests in their turn

A shell keeps a journal of what becomes of requests. Whatever it does, a request begins only where
none is waiting and is refused only where one is, and only the request that is waiting is answered.
So the requests that have begun are, in order, those that were answered and the one that is waiting.
All else that a shell does leaves requests and the handlers of signals alone.
-/

namespace LineShell

open Act Session

variable {σ α β : Type}

/-! ### Deeds -/

/-- Each deed, the newest being first, is in its turn: `start` is waiting before them and `now`
behind them. -/
inductive Turns (start : Option (PendingRequest σ)) :
    List (Deed σ) → Option (PendingRequest σ) → Prop
  | still : Turns start [] start
  | asked {deeds : List (Deed σ)} (before : Turns start deeds none) (r : PendingRequest σ)
      (colours : Bool) (label message : String) :
      Turns start (.asked r colours label message :: deeds) (some r)
  | refused {deeds : List (Deed σ)} {r : PendingRequest σ} (before : Turns start deeds (some r))
      (vain : PendingRequest σ) : Turns start (.refused vain :: deeds) (some r)
  | answered {deeds : List (Deed σ)} {r : PendingRequest σ} (before : Turns start deeds (some r))
      (answer : String) : Turns start (.answered r answer :: deeds) none

def begun : List (Deed σ) → List (PendingRequest σ)
  | [] => []
  | .asked r .. :: older => begun older ++ [r]
  | _ :: older => begun older

def settled : List (Deed σ) → List (PendingRequest σ)
  | [] => []
  | .answered r _ :: older => settled older ++ [r]
  | _ :: older => settled older

namespace Turns

variable {start now : Option (PendingRequest σ)} {deeds : List (Deed σ)}

/-- Each request is answered in its turn, or is the one that is waiting. -/
theorem balance (h : Turns start deeds now) :
    start.toList ++ begun deeds = settled deeds ++ now.toList := by
  induction h with
  | still => simp [begun, settled]
  | asked _ r colours label message ih =>
      simp only [begun, settled, Option.toList_none, List.append_nil, Option.toList_some] at ih ⊢
      rw [← List.append_assoc, ih]
  | refused _ vain ih => exact ih
  | answered _ answer ih => simpa [begun, settled] using ih

/-- Deeds in their turn go on with deeds in their turn. -/
theorem append {more : List (Deed σ)} {last : Option (PendingRequest σ)}
    (h : Turns start deeds now) (rest : Turns now more last) :
    Turns start (more ++ deeds) last := by
  induction rest with
  | still => exact h
  | asked _ r colours label message ih => exact ih.asked r colours label message
  | refused _ vain ih => exact ih.refused vain
  | answered _ answer ih => exact ih.answered answer

end Turns

/-! ### Signal handlers -/

namespace SignalBridge

/-- The handlers of a loop are those of the bridge, and can be taken away. -/
def Sound (b : SignalBridge) : Prop :=
  ∃ loop, b.loop = some loop ∧ loop.removalFault = none ∧ loop.registered ⊆ b.installed

theorem takeAway_of_no_fault {loop : SignalLoop} (free : loop.removalFault = none)
    (signals : List Signal) :
    takeAway loop signals =
      ([], { loop with registered := loop.registered.filter (· ∉ signals) }, [], none) := by
  obtain ⟨registered, faults, _⟩ := loop
  cases free
  induction signals generalizing registered with
  | nil =>
      have all : registered.filter (fun _ => true) = registered :=
        List.filter_eq_self.2 fun _ _ => rfl
      simp [takeAway, all]
  | cons s rest ih =>
      simp only [takeAway, ih, List.filter_filter]
      simp [Bool.and_comm]

theorem Sound.uninstall {b : SignalBridge} (h : b.Sound) :
    ∃ loop, loop.registered = [] ∧ loop.removalFault = none ∧
      b.uninstall = { bridge := { b with installed := [], loop := some loop } } := by
  obtain ⟨loop, hl, free, registered⟩ := h
  have gone : loop.registered.filter (· ∉ b.installed.reverse) = [] := by
    refine List.filter_eq_nil_iff.2 fun s hs => ?_
    simpa using registered hs
  refine ⟨{ loop with registered := [] }, rfl, free, ?_⟩
  rw [SignalBridge.uninstall, hl]
  simp only
  rw [takeAway_of_no_fault free, gone]
  rfl

end SignalBridge

/-! ### Later states -/

namespace Session

/-- What only programs, requests, menus and the end of the signal handling change. -/
def core (s : Session σ) : Option (PendingRequest σ) × List (Deed σ) × σ ×
    Command.Registry (Program σ) × List Signal × Option SignalLoop :=
  (s.request, s.journal, s.programs, s.registry, s.bridge.installed, s.bridge.loop)

/-- What holds between a state of a shell and a later one. -/
structure Later (s t : Session σ) : Prop where
  /-- Every deed in between was in its turn. -/
  turns : ∃ deeds, t.journal = deeds ++ s.journal ∧ Turns s.request deeds t.request
  /-- The handlers of the signals stay those of the bridge. -/
  sound : s.bridge.Sound → t.bridge.Sound

variable {s t u : Session σ}

theorem request_of_core (h : t.core = s.core) : t.request = s.request :=
  congrArg (·.1) h

theorem journal_of_core (h : t.core = s.core) : t.journal = s.journal :=
  congrArg (·.2.1) h

theorem bridge_of_core (h : t.core = s.core) :
    t.bridge.installed = s.bridge.installed ∧ t.bridge.loop = s.bridge.loop := by
  simp only [core, Prod.mk.injEq] at h
  exact h.2.2.2.2

theorem Later.of_core (same : t.core = s.core) : s.Later t where
  turns := ⟨[], journal_of_core same, request_of_core same ▸ .still⟩
  sound := by
    obtain ⟨installed, loop⟩ := bridge_of_core same
    rw [SignalBridge.Sound, SignalBridge.Sound, installed, loop]
    exact id

theorem Later.refl (s : Session σ) : s.Later s := .of_core rfl

theorem Later.trans (first : s.Later t) (rest : t.Later u) : s.Later u where
  turns := by
    obtain ⟨deeds, ht, turns⟩ := first.turns
    obtain ⟨more, hu, others⟩ := rest.turns
    exact ⟨more ++ deeds, by rw [hu, ht, List.append_assoc], turns.append others⟩
  sound h := rest.sound (first.sound h)

theorem later_uninstall (s : Session σ) :
    s.Later { s with bridge := s.bridge.uninstall.bridge } where
  turns := ⟨[], rfl, .still⟩
  sound h := by
    obtain ⟨loop, registered, free, gone⟩ := h.uninstall
    rw [gone]
    exact ⟨loop, rfl, free, by simp [registered]⟩

/-! ### What leaves the core alone -/

@[simp] theorem core_onEditor (s : Session σ) (f : Edit.Editor → Edit.Editor) :
    (s.onEditor f).core = s.core := rfl

@[simp] theorem core_printText (s : Session σ) (text : String) :
    (s.printText text).core = s.core := rfl

@[simp] theorem core_reportLine (s : Session σ) (line : String) :
    (s.reportLine line).core = s.core := rfl

theorem core_foldl {f : Session σ → α → Session σ} (step : ∀ s a, (f s a).core = s.core)
    (s : Session σ) (l : List α) : (l.foldl f s).core = s.core := by
  induction l generalizing s with
  | nil => rfl
  | cons a l ih => exact (ih _).trans (step s a)

@[simp] theorem core_log (s : Session σ) (e : Log.Event) : (s.log e).core = s.core := by
  obtain ⟨_, _, _, h⟩ := s.log_frame e
  rw [h]
  rfl

@[simp] theorem core_logAll (s : Session σ) (es : List Log.Event) : (s.logAll es).core = s.core :=
  core_foldl core_log s es

@[simp] theorem core_printHighlighted (s : Session σ) (text : String) :
    (s.printHighlighted text).core = s.core := rfl

@[simp] theorem core_dump (s : Session σ) (bytes : List UInt8) : (s.dump bytes).core = s.core :=
  core_foldl (fun s _ => s.core_printText _) _ _

@[simp] theorem core_printMenu (s : Session σ) : s.printMenu.core = s.core :=
  core_foldl (fun s _ => s.core_printText _) _ _

@[simp] theorem core_commandFailed (s : Session σ) (name : String) (f : Failure) :
    (s.commandFailed name f).core = s.core := by
  simp [commandFailed]

@[simp] theorem core_quit (s : Session σ) : s.quit.core = s.core := by
  unfold quit
  simp only [core]
  exact core_log _ _

@[simp] theorem core_hangUp (s : Session σ) : s.hangUp.core = s.core := by
  simp [hangUp]

@[simp] theorem core_setPrompt (s : Session σ) (prompt : String) :
    (s.setPrompt prompt).core = s.core := by
  unfold setPrompt
  split <;> rfl

@[simp] theorem core_terminate (s : Session σ) : s.terminate.core = s.core := by
  unfold terminate
  split
  · rfl
  · simp [discardLine]
    rfl

@[simp] theorem core_receiveSignal (s : Session σ) (signal : Signal) :
    (s.receiveSignal signal).core = s.core := by
  cases signal with
  | interrupt =>
      unfold receiveSignal
      simp only
      split
      · rfl
      · exact s.core_terminate
  | terminate => exact s.core_terminate
  | hangUp => rfl

/-! ### Requests -/

/-- A request is granted where none is waiting, and refused otherwise. -/
theorem later_requestInput (s : Session σ) (label message : String)
    (callback : Option (String → Datum → Program σ)) (data : Datum) :
    s.Later (s.requestInput label message callback data) := by
  unfold requestInput
  cases waiting : s.request with
  | none =>
      refine ⟨⟨[_], rfl, ?_⟩, id⟩
      rw [waiting]
      exact .asked .still ..
  | some r =>
      have refused : s.Later (s.record (.refused ⟨callback, data⟩)) := by
        refine ⟨⟨[_], rfl, ?_⟩, id⟩
        change Turns s.request _ s.request
        rw [waiting]
        exact .refused .still _
      exact refused.trans (.of_core (core_log ..))

theorem later_answered {r : PendingRequest σ} (waiting : s.request = some r) (answer : String) :
    s.Later (s.answered r answer) where
  turns := by
    refine ⟨[_], rfl, ?_⟩
    rw [waiting]
    exact .answered .still answer
  sound := id

end Session

/-! ### Actions -/

namespace Act

variable {s t : Session σ}

/-- An action leaves the core alone. -/
def Aloof (m : Act σ α) (s : Session σ) : Prop := (m.result s).2.core = s.core

theorem Aloof.bind {m : Act σ α} {k : α → Act σ β} (h : m.Aloof s) (hk : ∀ a t, (k a).Aloof t) :
    (m >>= k).Aloof s := by
  unfold Aloof at h ⊢
  rw [result_bind]
  rcases hm : m.result s with ⟨i | a, t⟩
  · rw [hm] at h
    exact h
  · rw [hm] at h
    exact (hk a t).trans h

/-- An action leads to a later state, however it ends. -/
def Advances (m : Act σ α) (s : Session σ) : Prop := s.Later (m.result s).2

theorem Aloof.advances {m : Act σ α} (h : m.Aloof s) : m.Advances s := .of_core h

@[simp] theorem advances_pure (a : α) : (pure a : Act σ α).Advances s := .refl s

@[simp] theorem advances_throw (i : Interrupt) : (throw i : Act σ α).Advances s := .refl s

@[simp] theorem advances_fail (f : Failure) : (fail f : Act σ α).Advances s := .refl s

theorem advances_modify {f : Session σ → Session σ} (h : (f s).core = s.core) :
    (modify f : Act σ PUnit).Advances s := .of_core h

@[simp] theorem advances_fail_bind (f : Failure) (k : α → Act σ β) :
    ((fail f : Act σ α) >>= k).Advances s := .refl s

@[simp] theorem advances_get_bind {k : Session σ → Act σ β} :
    (get >>= k).Advances s ↔ (k s).Advances s := .rfl

theorem Advances.bind {m : Act σ α} {k : α → Act σ β} (h : m.Advances s)
    (hk : ∀ a t, m.result s = (.ok a, t) → (k a).Advances t) : (m >>= k).Advances s := by
  unfold Advances at h ⊢
  rw [result_bind]
  rcases hm : m.result s with ⟨i | a, t⟩
  · rw [hm] at h
    exact h
  · rw [hm] at h
    exact h.trans (hk a t hm)

theorem advances_modify_bind {f : Session σ → Session σ} {k : PUnit → Act σ β}
    (h : (f s).core = s.core) (hk : (k ⟨⟩).Advances (f s)) : (modify f >>= k).Advances s :=
  (advances_modify h).bind fun _ _ ht => by cases ht; exact hk

theorem Advances.ensuring {m : Act σ α} {f : Session σ → Session σ} (h : m.Advances s)
    (hf : ∀ t, (f t).core = t.core) : (ensuring m f).Advances s :=
  Session.Later.trans h (.of_core (hf _))

theorem Advances.outcome_bind {m : Act σ α} {k : Except Interrupt α → Act σ β}
    (h : m.Advances s) (hk : ∀ r t, m.result s = (r, t) → (k r).Advances t) :
    (outcome m >>= k).Advances s :=
  Advances.bind (m := outcome m) h fun r t ht => by
    cases ht
    exact hk _ _ rfl

theorem Advances.forM {f : α → Act σ PUnit} (hf : ∀ a t, (f a).Advances t) (l : List α) :
    (l.forM f).Advances s := by
  induction l generalizing s with
  | nil => exact advances_pure _
  | cons a l ih => exact (hf a s).bind fun _ _ _ => ih

end Act

end LineShell
