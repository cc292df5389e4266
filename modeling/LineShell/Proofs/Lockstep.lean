import LineShell.Session.Execution

/-!
# Actions in lockstep

An action that is run in two related states is in lockstep if it ends in the same way in both, with
the same value or the same interrupt, and leaves related states behind. A property of single states
is the relation of every state that has it with itself, so invariants of runs and the independence
of runs from a part of the state are proved by the same rules.
-/

namespace LineShell

variable {σ α β : Type}

/-- A relation between the states of two shells. -/
abbrev Link (σ : Type) := Session σ → Session σ → Prop

namespace Act

def result (m : Act σ α) (s : Session σ) : Except Interrupt α × Session σ := m.run.run s

/-! ### Results of the building blocks -/

@[simp] theorem result_pure (a : α) (s : Session σ) :
    (pure a : Act σ α).result s = (.ok a, s) := rfl

@[simp] theorem result_throw (i : Interrupt) (s : Session σ) :
    (throw i : Act σ α).result s = (.error i, s) := rfl

@[simp] theorem result_fail (f : Failure) (s : Session σ) :
    (fail f : Act σ α).result s = (.error (.failure f), s) := rfl

@[simp] theorem result_modify (f : Session σ → Session σ) (s : Session σ) :
    (modify f : Act σ PUnit).result s = (.ok ⟨⟩, f s) := rfl

theorem result_bind (m : Act σ α) (k : α → Act σ β) (s : Session σ) :
    (m >>= k).result s =
      match m.result s with
      | (.ok a, t) => (k a).result t
      | (.error i, t) => (.error i, t) := by
  change ((m.run >>= ExceptT.bindCont k).run s : _ × _) = _
  change ((ExceptT.bindCont k (m.result s).1).run (m.result s).2 : _ × _) = _
  rcases m.result s with ⟨_ | _, t⟩ <;> rfl

-- The proofs stand in parentheses so that `simp` rewrites with these. As definitional equations
-- they would leave it to the kernel to compare whole actions by unfolding them.

@[simp] theorem result_pure_bind (a : α) (k : α → Act σ β) (s : Session σ) :
    (pure a >>= k).result s = (k a).result s := (rfl)

@[simp] theorem result_get_bind (k : Session σ → Act σ β) (s : Session σ) :
    (get >>= k).result s = (k s).result s := (rfl)

@[simp] theorem result_modify_bind (f : Session σ → Session σ) (k : PUnit → Act σ β)
    (s : Session σ) : (modify f >>= k).result s = (k ⟨⟩).result (f s) := (rfl)

@[simp] theorem result_fail_bind (f : Failure) (k : α → Act σ β) (s : Session σ) :
    ((fail f : Act σ α) >>= k).result s = (.error (.failure f), s) := (rfl)

@[simp] theorem result_throw_bind (i : Interrupt) (k : α → Act σ β) (s : Session σ) :
    ((throw i : Act σ α) >>= k).result s = (.error i, s) := (rfl)

@[simp] theorem result_ensuring (m : Act σ α) (after : Session σ → Session σ) (s : Session σ) :
    (ensuring m after).result s = ((m.result s).1, after (m.result s).2) := rfl

@[simp] theorem result_outcome (m : Act σ α) (s : Session σ) :
    (outcome m).result s = (.ok (m.result s).1, (m.result s).2) := rfl

theorem result_forM_cons {α : Type} (f : α → Act σ PUnit) (a : α) (l : List α) (s : Session σ) :
    ((a :: l).forM f).result s =
      match (f a).result s with
      | (.ok _, t) => (l.forM f).result t
      | (.error i, t) => (.error i, t) := by
  change (f a >>= fun _ => l.forM f).result s = _
  rw [result_bind]
  rcases (f a).result s with ⟨_ | _, t⟩ <;> rfl

/-! ### Ends in lockstep -/

def Ends (Q : Link σ) (E : Interrupt → Link σ) (x y : Except Interrupt α × Session σ) : Prop :=
  x.1 = y.1 ∧
    match x.1 with
    | .ok _ => Q x.2 y.2
    | .error i => E i x.2 y.2

/-- From related states an action ends in lockstep. -/
def Lockstep (R : Link σ) (m : Act σ α) (Q : Link σ) (E : Interrupt → Link σ) : Prop :=
  ∀ s s', R s s' → Ends Q E (m.result s) (m.result s')

variable {R Q M : Link σ} {E F : Interrupt → Link σ}

@[simp] theorem ends_ok (a : α) (t t' : Session σ) :
    Ends Q E (Except.ok a, t) (Except.ok a, t') ↔ Q t t' := by
  simp [Ends]

@[simp] theorem ends_error (i : Interrupt) (t t' : Session σ) :
    Ends Q E ((Except.error i, t) : Except Interrupt α × _) (.error i, t') ↔ E i t t' := by
  simp [Ends]

theorem Ends.weaken {x y : Except Interrupt α × Session σ} {Q' : Link σ} {E' : Interrupt → Link σ}
    (h : Ends Q E x y) (hq : ∀ t t', Q t t' → Q' t t') (he : ∀ i t t', E i t t' → E' i t t') :
    Ends Q' E' x y := by
  obtain ⟨x, t⟩ := x
  obtain ⟨y, t'⟩ := y
  obtain ⟨rfl, h⟩ := h
  cases x with
  | ok a => exact (ends_ok a t t').2 (hq t t' h)
  | error i => exact (ends_error i t t').2 (he i t t' h)

/-- Ends that leave one relation behind, whether a value was reached or not. -/
theorem Ends.exists_eq {x y : Except Interrupt α × Session σ}
    (h : Ends R (fun _ => R) x y) : ∃ r t t', x = (r, t) ∧ y = (r, t') ∧ R t t' := by
  obtain ⟨x, t⟩ := x
  obtain ⟨y, t'⟩ := y
  obtain ⟨rfl, h⟩ := h
  refine ⟨x, t, t', rfl, rfl, ?_⟩
  cases x with
  | ok a => exact h
  | error i => exact h

/-- What follows a first action goes on from what it has left, with the same value. -/
theorem Ends.bind_of_result {m m' : Act σ α} {k k' : α → Act σ β} {s s' : Session σ}
    (h : Ends M E (m.result s) (m'.result s'))
    (hk : ∀ a t t', m.result s = (.ok a, t) → M t t' →
      Ends Q E ((k a).result t) ((k' a).result t')) :
    Ends Q E ((m >>= k).result s) ((m' >>= k').result s') := by
  rw [result_bind, result_bind]
  revert h hk
  rcases m.result s with ⟨x, t⟩
  rcases m'.result s' with ⟨y, t'⟩
  rintro ⟨hxy, h⟩ hk
  cases hxy
  cases x with
  | ok a => exact hk a t t' rfl h
  | error i => exact (ends_error i t t').2 h

theorem Ends.bind {m m' : Act σ α} {k k' : α → Act σ β} {s s' : Session σ}
    (h : Ends M E (m.result s) (m'.result s'))
    (hk : ∀ a t t', M t t' → Ends Q E ((k a).result t) ((k' a).result t')) :
    Ends Q E ((m >>= k).result s) ((m' >>= k').result s') :=
  h.bind_of_result fun a t t' _ => hk a t t'

theorem Ends.ensuring {m m' : Act σ α} {f : Session σ → Session σ} {s s' : Session σ}
    (h : Ends M F (m.result s) (m'.result s')) (hq : ∀ t t', M t t' → Q (f t) (f t'))
    (he : ∀ i t t', F i t t' → E i (f t) (f t')) :
    Ends Q E ((Act.ensuring m f).result s) ((Act.ensuring m' f).result s') := by
  simp only [result_ensuring]
  obtain ⟨hv, h⟩ := h
  refine ⟨hv, ?_⟩
  cases hm : (m.result s).1 with
  | ok a => exact hq _ _ (by simpa [hm] using h)
  | error i => exact he i _ _ (by simpa [hm] using h)

theorem Ends.outcome_bind {m m' : Act σ α} {k k' : Except Interrupt α → Act σ β}
    {s s' : Session σ} (h : Ends M F (m.result s) (m'.result s'))
    (hok : ∀ a t t', M t t' → Ends Q E ((k (.ok a)).result t) ((k' (.ok a)).result t'))
    (herr : ∀ i t t', F i t t' → Ends Q E ((k (.error i)).result t) ((k' (.error i)).result t')) :
    Ends Q E ((outcome m >>= k).result s) ((outcome m' >>= k').result s') := by
  rw [result_bind, result_bind, result_outcome, result_outcome]
  revert h
  rcases m.result s with ⟨x, t⟩
  rcases m'.result s' with ⟨y, t'⟩
  rintro ⟨hxy, h⟩
  cases hxy
  cases x with
  | ok a => exact hok a t t' h
  | error i => exact herr i t t' h

theorem Ends.forM {f : α → Act σ PUnit}
    (hf : ∀ a s s', R s s' → Ends R E ((f a).result s) ((f a).result s')) (l : List α)
    {s s' : Session σ} (h : R s s') :
    Ends R E ((l.forM f).result s) ((l.forM f).result s') := by
  induction l generalizing s s' with
  | nil => simpa [List.forM_nil] using h
  | cons a l ih => exact Ends.bind (hf a s s' h) fun _ t t' ht => ih ht

/-! ### The level of the log -/

theorem result_checkLevel_of_none {settings : Settings} (ranked : settings.levelFailure = none)
    (s : Session σ) : (Session.checkLevel settings).result s = (.ok ⟨⟩, s) := by
  rw [Session.checkLevel, ranked]
  rfl

theorem result_checkLevel_of_some {settings : Settings} {fault : Failure}
    (unranked : settings.levelFailure = some fault) (s : Session σ) :
    (Session.checkLevel settings).result s = (.error (.failure fault), s) := by
  rw [Session.checkLevel, unranked]
  rfl

/-- The check of one level ends alike in all states, and changes nothing. -/
theorem Ends.checkLevel (settings : Settings) {s s' : Session σ} (h : R s s')
    (he : ∀ i, E i s s') :
    Ends R E ((Session.checkLevel settings).result s)
      ((Session.checkLevel settings).result s') := by
  cases level : settings.levelFailure with
  | none =>
      rw [result_checkLevel_of_none level, result_checkLevel_of_none level]
      exact (ends_ok ..).2 h
  | some fault =>
      rw [result_checkLevel_of_some level, result_checkLevel_of_some level]
      exact (ends_error ..).2 (he _)

/-- Two shells whose logs have one level are closed down alike, up to the loop if it is none. -/
theorem Ends.closeDown {s s' : Session σ} (level : s'.host.settings.log = s.host.settings.log)
    (left : R s.leaveScreen s'.leaveScreen)
    (ended : ∀ {t t' : Session σ}, R t t' → R { t with loop := none } { t' with loop := none }) :
    Ends R (fun _ => R) (Session.closeDown.result s) (Session.closeDown.result s') := by
  simp only [Session.closeDown, result_modify_bind, result_get_bind]
  have same : s'.leaveScreen.host.settings.levelFailure =
      s.leaveScreen.host.settings.levelFailure := by
    change s'.host.settings.levelFailure = s.host.settings.levelFailure
    rw [Settings.levelFailure, Settings.levelFailure, level]
  have checked : (Session.checkLevel s'.leaveScreen.host.settings : Act σ Unit) =
      Session.checkLevel s.leaveScreen.host.settings := by
    rw [Session.checkLevel, Session.checkLevel, same]
  rw [checked]
  exact Ends.bind (Ends.checkLevel _ left fun _ => left) fun _ t t' ht => (ends_ok ..).2 (ended ht)

end Act

end LineShell
