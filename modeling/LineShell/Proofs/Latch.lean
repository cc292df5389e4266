import LineShell.Proofs.Courses

/-!
# Termination is latched

Of all signals that are delivered to a shell at most one asks it to end. An interrupt that finds an
input attached is not among them: it throws the edit line away and draws the prompt on a new row.
It does so as well when the shell has been asked to end; all other signals count for nothing then.
-/

namespace LineShell

open Act Edit Session

variable {σ : Type} {s t : Session σ} {n : Nat}

/-- Programs may do everything but deliver signals. -/
def handlerRules : Rules where
  uses
    | .signal _ => False
    | _ => True
  blanks := True
  callbacksGiveUp := true

/-! ### Programs -/

def Session.Latched (n : Nat) (s : Session σ) : Prop := s.bridge.terminated.toNat = n

theorem latched_change {f : Session σ → Session σ} (h : s.Latched n)
    (c : Change handlerRules s f) : (f s).Latched n := by
  cases c with
  | prompt text =>
      simp only [Session.setPrompt]
      split <;> exact h
  | latch signals | interrupt _ signals => exact signals.elim
  | _ => exact h

theorem unattached_latched : Unattached (σ := σ) (Latched n) where
  inlet := fun _ _ _ h => h
  handlers := by
    intro s h
    have same : s.bridge.uninstall.bridge.terminated = s.bridge.terminated := by
      unfold SignalBridge.uninstall
      split <;> rfl
    exact (congrArg Bool.toNat same).trans h
  torn := fun h => h
  left := fun h => h
  ended := fun h => h

theorem keys_latched : KeysPreserve (σ := σ) handlerRules (Latched n) (Latched n)
    fun _ => Latched n where
  change := by
    intro s f h c
    cases c <;> exact h
  failed := id
  begin := fun h _ => h
  leave := fun h => h
  givenUp := fun h _ => h
  endInput := fun h => h
  drop := fun h _ => h
  broken := id

theorem closed_latched : Closed handlerRules (Invariant (σ := σ) handlerRules (Latched n)) :=
  unattached_latched.toClosed latched_change keys_latched (fun h _ _ => h) (fun h => h)
    (fun h => h) fun _ h => h

theorem latched_receiveSignal {signal : Signal} (h : s.Latched n) :
    (s.receiveSignal signal).Latched (n + if Delivery.ends ⟨s, signal⟩ then 1 else 0) := by
  obtain ⟨ends, -, same⟩ | ⟨ends, -, same⟩ | ⟨ends, -, same⟩ := receiveSignal_cases s signal <;>
    rw [same, ends]
  · have first : s.bridge.terminated = false := Delivery.first_of_ends ends
    have before : n = 0 := by simpa [Latched, first] using h.symm
    obtain ⟨_, _, _, framed⟩ := terminate_frame first
    rw [framed, before]
    rfl
  · exact h
  · exact h

/-! ### The law -/

/-- What the signals that are delivered to a shell on its way from `s₀` to `s` have done, and what
the next one will do. -/
structure LatchLaw (s₀ : Session σ) (ds : List (Delivery σ)) (s : Session σ) : Prop where
  /-- At most one of them has asked the shell to end, -/
  once : ds.countP Delivery.ends ≤ 1
  /-- and the shell is latched if there is one or if it was before, which excludes each other. -/
  balance : s₀.bridge.terminated.toNat + ds.countP Delivery.ends = s.bridge.terminated.toNat
  /-- A signal that asks a shell to end throws the line away and quits. -/
  ends : ∀ signal, Delivery.ends ⟨s, signal⟩ = true → s.receiveSignal signal =
    (({ s with bridge := { s.bridge with terminated := true } } : Session σ).log
      ⟨.info, "Termination requested by signal", []⟩).discardLine.quit
  /-- An interrupt that finds an input leaves an empty line and the prompt on a new row. Neither the
  request that is waiting nor whether the shell is to end is touched. -/
  clears : ∀ signal, Delivery.clears ⟨s, signal⟩ = true → s.receiveSignal signal =
    { s with editor := { s.editor with
      line := .ofText [], midRow := false
      writes := .redraw false s.editor.visiblePrompt (.ofText []) s.editor.phase :: .newRow ::
        s.editor.writes } }
  /-- Once the shell is latched, all other signals are without effect. -/
  idle : s.bridge.terminated = true → ∀ signal, Delivery.clears ⟨s, signal⟩ = false →
    s.receiveSignal signal = s

/-- However signals come between what else happens to a shell, at most one of them asks it to end.
An interrupt that finds an input throws the line away, before that and behind it; behind it every
other signal is without effect. -/
theorem latchLaw_of_course {depth : Nat} {s₀ : Session σ} {ds : List (Delivery σ)}
    (course : Course handlerRules depth s₀ ds s) (follows : s₀.Follows handlerRules) :
    LatchLaw s₀ ds s := by
  have latched : s.Latched (s₀.bridge.terminated.toNat + ds.countP Delivery.ends) := by
    refine (course.invariant
      (P := fun ds => Latched (s₀.bridge.terminated.toNat + ds.countP Delivery.ends))
      (fun _ => closed_latched) ?_ (fun _ h => h) rfl follows).1
    intro ds s signal h _
    rw [List.countP_append, List.countP_singleton, ← Nat.add_assoc]
    exact latched_receiveSignal h
  have bound : s.bridge.terminated.toNat ≤ 1 := Bool.toNat_le _
  constructor
  case once =>
    unfold Latched at latched
    omega
  case balance => exact latched.symm
  case ends =>
    intro signal ends
    obtain ⟨-, -, same⟩ | ⟨endless, -⟩ | ⟨endless, -⟩ := receiveSignal_cases s signal
    · exact same.trans (terminate_of_first (Delivery.first_of_ends ends))
    · cases ends.symm.trans endless
    · cases ends.symm.trans endless
  case clears =>
    intro signal clears
    obtain ⟨-, clearless, -⟩ | ⟨-, -, same⟩ | ⟨-, clearless, -⟩ := receiveSignal_cases s signal
    · cases clears.symm.trans clearless
    · exact same
    · cases clears.symm.trans clearless
  case idle =>
    intro latched signal clearless
    obtain ⟨ends, -⟩ | ⟨-, clears, -⟩ | ⟨-, -, same⟩ := receiveSignal_cases s signal
    · cases latched.symm.trans (Delivery.first_of_ends ends)
    · cases clears.symm.trans clearless
    · exact same

def attachedShell : Session Unit := { bareShell [] () with input := some .unknown }.beginRun

def latchedShell : Session Unit :=
  (attachedShell.receiveSignal .interrupt).receiveSignal .terminate

/-- Another request to terminate is without effect, but another interrupt draws the prompt. -/
theorem latched_interrupted : latchedShell.bridge.terminated = true ∧
    latchedShell.editor.installed = false ∧
    latchedShell.receiveSignal .terminate = latchedShell ∧
    (latchedShell.receiveSignal .interrupt).editor.writes =
      .redraw false latchedShell.editor.visiblePrompt (.ofText []) .removed :: .newRow ::
        latchedShell.editor.writes := by
  have follows : attachedShell.Follows handlerRules := by
    have bare : (bareShell [] () : Session Unit).Follows handlerRules :=
      follows_bareShell (fun _ _ => trivial) trivial trivial fun _ he => (nomatch he)
    exact bare.congr rfl rfl rfl rfl
  have course : Course handlerRules 1 attachedShell _ latchedShell :=
    .signal (.signal .start .interrupt) .terminate
  have law := latchLaw_of_course course follows
  refine ⟨rfl, rfl, law.idle rfl .terminate rfl, ?_⟩
  rw [law.clears .interrupt rfl]
  rfl

end LineShell
