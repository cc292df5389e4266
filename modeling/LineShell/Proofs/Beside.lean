import LineShell.Proofs.Runs

/-!
# Programs beside the input

Where the input comes from concerns only the operations that give it up, once one is attached.
Programs that use none of these run in lockstep in states that differ in nothing else, and leave the
input as it is.
-/

namespace LineShell

open Act Edit Session

variable {σ : Type} {s s' : Session σ}

def Session.inlet (s : Session σ) : Option Attachment × Option Input.Source × Input.Channel :=
  (s.input, s.reader, s.channel)

theorem Session.Alike.exists_eq (h : s.Alike s') :
    ∃ input reader channel, s' = { s with input, reader, channel } ∧
      input.isSome = s.input.isSome := by
  refine ⟨s'.input, s'.reader, s'.channel, ?_, h.input⟩
  obtain ⟨hh, he, hr, hc, hn, hq, hj, -, hl, hb, hu, ht, hs, ho, hp⟩ := h
  cases s
  cases s'
  simp_all

theorem Session.Alike.trans {s'' : Session σ} (h : s.Alike s') (h' : s'.Alike s'') :
    s.Alike s'' := by
  obtain ⟨i, r, c, rfl, hi⟩ := h.exists_eq
  obtain ⟨i', r', c', rfl, hi'⟩ := h'.exists_eq
  exact { Alike.refl s with input := hi'.trans hi }

theorem Session.Alike.symm (h : s.Alike s') : s'.Alike s := by
  obtain ⟨i, r, c, rfl, hi⟩ := h.exists_eq
  exact { Alike.refl _ with input := hi.symm }

/-- States that differ only in the input are the same if they agree on that too. -/
theorem Session.Alike.eq (h : s.Alike s') (hi : s'.inlet = s.inlet) : s' = s := by
  obtain ⟨i, r, c, rfl, -⟩ := h.exists_eq
  cases hi
  rfl

def besideRules : Rules where
  uses
    | .detach | .tearDown => False
    | _ => True
  blanks := True
  callbacksGiveUp := true

/-- Two states differ only in the input, each having one of its own. -/
structure Beside (x y : Option Attachment × Option Input.Source × Input.Channel)
    (s s' : Session σ) : Prop where
  alike : s.Alike s'
  attached : s.input.isSome = true
  follows : s.Follows besideRules
  left : s.inlet = x
  right : s'.inlet = y

variable {x y : Option Attachment × Option Input.Source × Input.Channel}

theorem Beside.onEditor (h : Beside x y s s') (f : Editor → Editor) :
    Beside x y (s.onEditor f) (s'.onEditor f) where
  alike := { h.alike with editor := congrArg f h.alike.editor }
  attached := h.attached
  follows := h.follows.congr rfl rfl rfl rfl
  left := h.left
  right := h.right

theorem Beside.attached_of_inlet {t : Session σ} (h : Beside x y s s') (left : t.inlet = s.inlet) :
    t.input.isSome = true :=
  (congrArg (·.1.isSome) left).trans h.attached

theorem Change.beside {rules : Rules} {f : Session σ → Session σ} (c : Change rules s f)
    (h : s.Alike s') : (f s).Alike (f s') ∧ (f s).inlet = s.inlet ∧ (f s').inlet = s'.inlet := by
  obtain ⟨input, reader, channel, rfl, hi⟩ := h.exists_eq
  cases c with
  | prompt text =>
      simp only [Session.setPrompt]
      split
      · exact ⟨{ Alike.refl _ with input := hi }, rfl, rfl⟩
      · exact ⟨{ Alike.refl _ with input := hi }, rfl, rfl⟩
  | _ => exact ⟨{ Alike.refl _ with input := hi }, rfl, rfl⟩

theorem stable_beside : Stable (σ := σ) besideRules (Beside x y) := by
  refine Exact.stable ⟨fun h => h.alike.similar, fun h => held_custom.2 h.follows, fun h c => ?_⟩
  obtain ⟨alike, left, right⟩ := c.beside h.alike
  exact ⟨alike, h.attached_of_inlet left, c.follows h.follows, left.trans h.left,
    right.trans h.right⟩

theorem KeyChange.beside {rules : Rules} {f : Session σ → Session σ} (c : KeyChange rules s f)
    (h : s.Alike s') : (f s).Alike (f s') ∧ (f s).inlet = s.inlet ∧ (f s').inlet = s'.inlet := by
  obtain ⟨input, reader, channel, rfl, hi⟩ := h.exists_eq
  cases c <;> exact ⟨{ Alike.refl _ with input := hi }, rfl, rfl⟩

theorem keys_beside :
    KeysKeep (σ := σ) besideRules (Beside x y) (Beside x y) fun _ => Beside x y where
  idle := stable_beside
  busy := stable_beside
  keyed h := h.alike.editor ▸ .refl _
  change h c := by
    obtain ⟨alike, left, right⟩ := c.beside h.alike
    exact ⟨alike, h.attached_of_inlet left, c.follows h.follows, left.trans h.left,
      right.trans h.right⟩
  failed h := h
  begin h _ := h.onEditor _
  leave h := (h.onEditor _).onEditor _
  givenUp h _ := h.onEditor _
  endInput h := by
    obtain ⟨alike, attached, follows, left, right⟩ := h.onEditor fun e =>
      ((({ e with handling := true }.insertText "quit".toList).redisplay).newRow).remove
    exact ⟨{ alike with quitting := rfl }, attached, follows.congr rfl rfl rfl rfl, left, right⟩
  drop h _ := h.onEditor _
  broken h := h.onEditor _

/-- Whatever is left over from the common operations is in lockstep beside the input. -/
theorem closed_beside : Closed (σ := σ) besideRules (Beside x y) := by
  refine Closed.ofKeys keys_beside (fun h _ _ => h.onEditor _) (fun h => h.onEditor _)
    (fun _ h => h.onEditor _) (fun _ _ h => h.onEditor _) ?_ (fun h => h.elim) fun h => h.elim
  intro descriptor _ s s' h
  have taken : ∀ t : Session σ, t.input.isSome = true →
      (attach descriptor).result t = (.ok false, t) := by
    intro t attached
    simp only [attach, result_get_bind, attached]
    rfl
  rw [taken s h.attached, taken s' (h.alike.input.trans h.attached)]
  exact (ends_ok ..).2 h

end LineShell
