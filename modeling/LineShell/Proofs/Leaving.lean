import LineShell.Proofs.Keys

/-!
# What actions leave

An action that is run in a state reaches a value or is given up, and leaves a state either way. The
rules below say what is left by an action made of parts, by a key, and by the completion of a word,
where the programs that are run for it may do as they like within what is to be kept.
-/

namespace LineShell

open Act Edit Session

variable {σ α β : Type} {s t : Session σ} {m : Act σ α} {k : α → Act σ β}
  {Q : α → Session σ → Prop} {W : β → Session σ → Prop} {E : Interrupt → Session σ → Prop}

namespace Act

/-- An action that is run in a state leaves `Q` with the value that it reaches, or `E` with what it
was given up with. -/
def Leaves (m : Act σ α) (s : Session σ) (Q : α → Session σ → Prop)
    (E : Interrupt → Session σ → Prop) : Prop :=
  match m.result s with
  | (.ok a, t) => Q a t
  | (.error i, t) => E i t

@[simp] theorem leaves_pure (a : α) : (pure a : Act σ α).Leaves s Q E ↔ Q a s := .rfl

@[simp] theorem leaves_get_bind (k : Session σ → Act σ β) :
    (get >>= k).Leaves s W E ↔ (k s).Leaves s W E := .rfl

@[simp] theorem leaves_modify_bind (f : Session σ → Session σ) (k : PUnit → Act σ β) :
    (modify f >>= k).Leaves s W E ↔ (k ⟨⟩).Leaves (f s) W E := .rfl

theorem Leaves.of_ends {R : Link σ} {F : Interrupt → Link σ}
    (h : Ends R F (m.result s) (m.result s)) :
    m.Leaves s (fun _ t => R t t) fun i t => F i t t := by
  unfold Leaves
  rcases run : m.result s with ⟨i | a, t⟩
  · rw [run] at h
    exact (ends_error ..).1 h
  · rw [run] at h
    exact (ends_ok ..).1 h

theorem Leaves.ok (h : m.Leaves s Q E) {a : α} (run : m.result s = (.ok a, t)) : Q a t := by
  rwa [Leaves, run] at h

theorem Leaves.error (h : m.Leaves s Q E) {i : Interrupt} (run : m.result s = (.error i, t)) :
    E i t := by
  rwa [Leaves, run] at h

/-- What is left however an action ends is left in its last state. -/
theorem leaves_iff {P : Session σ → Prop} :
    m.Leaves s (fun _ => P) (fun _ => P) ↔ P (m.result s).2 := by
  unfold Leaves
  rcases m.result s with ⟨_ | _, t⟩ <;> rfl

theorem Leaves.weaken {Q' : α → Session σ → Prop} {E' : Interrupt → Session σ → Prop}
    (h : m.Leaves s Q E) (hq : ∀ a t, Q a t → Q' a t) (he : ∀ i t, E i t → E' i t) :
    m.Leaves s Q' E' := by
  unfold Leaves at h ⊢
  split
  · rename_i run
    rw [run] at h
    exact hq _ _ h
  · rename_i run
    rw [run] at h
    exact he _ _ h

/-- What follows from the value that is reached, and is left otherwise, is left in any case. -/
theorem Leaves.last {P : Session σ → Prop} (h : m.Leaves s Q fun _ => P)
    (reached : ∀ a t, Q a t → P t) : P (m.result s).2 :=
  leaves_iff.1 (h.weaken reached fun _ _ ht => ht)

theorem Leaves.and {Q' : α → Session σ → Prop} {E' : Interrupt → Session σ → Prop}
    (h : m.Leaves s Q E) (h' : m.Leaves s Q' E') :
    m.Leaves s (fun a t => Q a t ∧ Q' a t) fun i t => E i t ∧ E' i t := by
  unfold Leaves at h h' ⊢
  rcases run : m.result s with ⟨i | a, t⟩
  · rw [run] at h h'
    exact ⟨h, h'⟩
  · rw [run] at h h'
    exact ⟨h, h'⟩

theorem Leaves.bind (h : m.Leaves s Q E) (hk : ∀ a t, Q a t → (k a).Leaves t W E) :
    (m >>= k).Leaves s W E := by
  unfold Leaves at h ⊢
  rw [result_bind]
  rcases run : m.result s with ⟨i | a, t⟩
  · rw [run] at h
    exact h
  · rw [run] at h
    exact hk a t h

theorem Leaves.ensuring {f : Session σ → Session σ} {Q' : α → Session σ → Prop}
    {E' : Interrupt → Session σ → Prop} (h : m.Leaves s Q E) (hq : ∀ a t, Q a t → Q' a (f t))
    (he : ∀ i t, E i t → E' i (f t)) : (Act.ensuring m f).Leaves s Q' E' := by
  unfold Leaves at h ⊢
  rw [result_ensuring]
  rcases run : m.result s with ⟨i | a, t⟩
  · rw [run] at h
    exact he i t h
  · rw [run] at h
    exact hq a t h

theorem Leaves.outcome_bind {k : Except Interrupt α → Act σ β} {F : Interrupt → Session σ → Prop}
    (h : m.Leaves s Q F) (hok : ∀ a t, Q a t → (k (.ok a)).Leaves t W E)
    (herr : ∀ i t, F i t → (k (.error i)).Leaves t W E) :
    (outcome m >>= k).Leaves s W E := by
  unfold Leaves at h
  have next : (outcome m >>= k).result s = (k (m.result s).1).result (m.result s).2 := by
    rw [result_bind, result_outcome]
  unfold Leaves
  rw [next]
  rcases run : m.result s with ⟨i | a, t⟩
  · rw [run] at h
    exact herr i t h
  · rw [run] at h
    exact hok a t h

theorem Leaves.forM {P : Session σ → Prop} {f : α → Act σ PUnit}
    (hf : ∀ a s, P s → (f a).Leaves s (fun _ => P) E) (l : List α) (h : P s) :
    (l.forM f).Leaves s (fun _ => P) E := by
  induction l generalizing s with
  | nil => exact h
  | cons a l ih => exact Leaves.bind (hf a s h) fun _ t ht => ih ht

end Act

variable {call : Program σ → Act σ Reply} {P : Session σ → Prop} {C : String → Prop}

/-! ### Completion -/

/-- The display hook of a changed state of completion is that of before, or one that is known. -/
theorem Completion.hook_of_map {engine? : Option (Completion.Engine (Program σ))}
    {H : (String → List String → Nat → Program σ) → Prop}
    {change : Completion.Engine (Program σ) → Completion.Engine (Program σ)}
    (before : ∀ engine, engine? = some engine → ∀ f, engine.displayHook = some f → H f)
    (hook : ∀ engine f, (change engine).displayHook = some f →
      engine.displayHook = some f ∨ H f) :
    ∀ engine, engine?.map change = some engine → ∀ f, engine.displayHook = some f → H f := by
  intro _ changed f hf
  obtain ⟨engine, he, rfl⟩ := Option.map_eq_some_iff.1 changed
  rcases hook engine f hf with hf | hf
  · exact before engine he f hf
  · exact hf

/-- What is left by asking a generator for completions, by one number after the other. -/
theorem leaves_collect {g : String → Nat → Program σ} {text : String}
    (log : ∀ {s} event, P s → P (s.log event))
    (generates : ∀ number t, P t → (call (g text number)).Leaves t
      (fun reply t => P t ∧ ∀ found, reply = .candidate (some found) → C found) E)
    (left number : Nat) (h : P s) : (Session.collect call g text left number).Leaves s
      (fun found t => P t ∧ ∀ c ∈ found, C c) E := by
  induction left generalizing number s with
  | zero => exact ⟨log _ h, List.forall_mem_nil _⟩
  | succ left ih =>
      unfold Session.collect
      refine (generates number s h).bind fun reply t ht => ?_
      split
      · rename_i found
        refine (ih (number + 1) ht.1).bind fun rest u hu => ?_
        exact ⟨hu.1, List.forall_mem_cons.2 ⟨ht.2 found rfl, hu.2⟩⟩
      · exact ⟨ht.1, List.forall_mem_nil _⟩

/-- What looking for completions and listing them leaves alone: `P` holds all along, `C` of every
completion that is offered, and `E` where one of the programs that are asked for completions, or
that show them, was given up. -/
structure Searches (call : Program σ → Act σ Reply) (P : Session σ → Prop) (C : String → Prop)
    (E : Interrupt → Session σ → Prop) : Prop where
  log : ∀ {s} event, P s → P (s.log event)
  attempt : ∀ {s} nothing, P s → P (s.setAttemptOver nothing)
  unhook : ∀ {s}, P s → P (s.setDisplayHook none)
  hook : ∀ {s name e g}, P s → s.registry.resolveGenerator? name = some (e, g) →
    P (s.setDisplayHook e.displayHook)
  names : ∀ {s} text, P s → ∀ name ∈ s.registry.namesFrom text, C name
  generates : ∀ {s name e g}, P s → s.registry.resolveGenerator? name = some (e, g) →
    ∀ text number t, P t → (call (g text number)).Leaves t
      (fun reply t => P t ∧ ∀ found, reply = .candidate (some found) → C found) E
  shows : ∀ {s engine f}, P s → s.completion = some engine → engine.displayHook = some f →
    ∀ word found longest, (call (f word found longest)).Leaves s (fun _ => P) E
  list : ∀ {s} rows, P s → P (s.onEditor (·.emit (.listing rows)))
  draw : ∀ {s}, P s → P (s.onEditor (·.redisplay))

/-- What completion leaves alone, the line being changed. -/
structure Completes (call : Program σ → Act σ Reply) (P : Session σ → Prop) (C : String → Prop)
    (E : Interrupt → Session σ → Prop) : Prop extends Searches call P C E where
  replace : ∀ {s} n (only : String), C only → P s → P (s.onEditor fun e =>
    { e with line := (e.line.deleteBefore n).insert (only.toList ++ [' ']) }.redisplay)
  extend : ∀ {s} before n (found : List String), (∀ c ∈ found, C c) → P s → P (s.onEditor fun e =>
    (e.insertText (Completion.commonSuffix before n (found.map String.toList))).redisplay)

namespace Searches

/-- Completions of an attempt, each of which is as it should be. -/
def Found (P : Session σ → Prop) (C : String → Prop) (found : List String) (t : Session σ) : Prop :=
  P t ∧ ∀ c ∈ found, C c

theorem collect (k : Searches call P C E) {name : String} {e : Command.Entry (Program σ)}
    {g : String → Nat → Program σ} {s₀ : Session σ} (before : P s₀)
    (resolved : s₀.registry.resolveGenerator? name = some (e, g)) (text : String)
    (left number : Nat) (h : P s) :
    (Session.collect call g text left number).Leaves s (Found P C) E :=
  leaves_collect k.log (k.generates before resolved text) left number h

theorem complete (k : Searches call P C E) (text : String) (start : Int) (line : List Char)
    (h : P s) : (Session.complete call text start line).Leaves s (Found P C) E := by
  have begun := k.attempt false h
  simp only [Session.complete, leaves_modify_bind]
  refine Leaves.bind (Q := Found P C) ?_ fun found t ht => ?_
  · unfold candidates
    split
    · simp only [leaves_modify_bind, leaves_get_bind, leaves_pure]
      exact ⟨k.unhook begun, k.names _ (k.unhook begun)⟩
    · simp only [completeArgument]
      split
      · exact ⟨begun, List.forall_mem_nil _⟩
      · simp only [leaves_get_bind]
        split
        · exact ⟨begun, List.forall_mem_nil _⟩
        · rename_i resolved
          exact k.collect begun resolved _ _ _ (k.hook begun resolved)
  · split
    · exact ⟨k.attempt true ht.1, ht.2⟩
    · exact ht

theorem completeWord (k : Searches call P C E) (l : Line) (h : P s) :
    (Session.completeWord call l).Leaves s (Found P C) E :=
  k.complete _ _ _ h

theorem showCompletions (k : Searches call P C E) (word : String) (found : List String) (h : P s) :
    (Session.showCompletions call word found).Leaves s (fun _ => P) E := by
  simp only [Session.showCompletions, leaves_get_bind]
  split
  · rename_i f hook
    obtain ⟨engine, he, hf⟩ := Option.bind_eq_some_iff.1 hook
    exact (k.shows h he hf word found _).bind fun _ t ht => k.draw ht
  · exact k.draw (k.list _ h)

end Searches

theorem Completes.completeKey (k : Completes call P C E) (h : P s) :
    (Session.completeKey call).Leaves s (fun _ => P) E := by
  simp only [Session.completeKey, leaves_get_bind]
  split
  · exact h
  · refine (k.completeWord _ h).bind fun found t ht => ?_
    split
    · exact ht.1
    · exact k.replace _ _ (ht.2 _ (List.mem_singleton_self _)) ht.1
    · split
      · exact k.showCompletions _ _ ht.1
      · exact k.extend _ _ _ ht.2 ht.1

/-! ### Menus -/

/-- What is left by offering a menu: it is refused, or it comes to be the menu. -/
theorem leaves_setMenu {menu : Option (List (Command.Entry (Program σ)))} (still : P s)
    (log : ∀ event, P (s.log event))
    (taken : ∀ entries table, menu = some entries → Command.Table.ofList entries = .ok table →
      P { s with registry := (s.registry.setMenu (some table)).2 }) :
    (Session.setMenu menu).Leaves s (fun _ => P) fun _ => P := by
  have offered : ∀ table, (∀ m, table = some m → ∃ entries, menu = some entries ∧
      Command.Table.ofList entries = .ok m) →
      (offerMenu table).Leaves s (fun _ => P) fun _ => P := by
    intro table known
    simp only [offerMenu, leaves_get_bind]
    split
    · rename_i accepted
      cases table with
      | none => simp [Command.Registry.setMenu] at accepted
      | some m =>
          obtain ⟨entries, given, made⟩ := known m rfl
          exact taken entries m given made
    · exact log _
  unfold Session.setMenu menuTable
  split
  · exact offered none fun m hm => absurd hm (Option.some_ne_none m).symm
  · rename_i entries
    split
    · rename_i made
      refine offered _ fun m hm => ⟨entries, rfl, ?_⟩
      cases hm
      exact made
    · simp only [Leaves, result_fail_bind]
      exact still

/-! ### Completed lines -/

/-- What is left by handing a line on: the handling keeps `P`, and behind it, or where it was given
up, the editor is no longer busy with it. -/
theorem leaves_acceptLine {rules : Rules} {Q : Session σ → Prop}
    (st : Stable rules (Invariant rules P)) (hc : Runs rules (Invariant rules P) call)
    (begun : P s.beginLine) (follows : s.Follows rules)
    (leave : ∀ t, P t → t.Follows rules → Q (t.leaveLine.onEditor (·.redisplayIfInstalled)))
    (givenUp : ∀ i t, P t → t.Follows rules → E i t.leaveLine) :
    (acceptLine call).Leaves s (fun _ => Q) E := by
  have consumed : (consume call (some s.editor.line.toString)).Leaves s.beginLine
      (fun _ t => P t ∧ t.Follows rules) fun _ t => P t ∧ t.Follows rules := by
    have consumer : s.beginLine.consumer = .commands := follows.consumer
    simp only [consume, leaves_get_bind, consumer]
    have handled := st.completeLine hc s.editor.line.toString
      ⟨rfl, begun, follows.congr rfl rfl rfl rfl⟩
    exact (Leaves.of_ends handled).weaken (fun _ _ ht => ht.2) fun _ _ ht => ht.1.2
  simp only [acceptLine, leaves_get_bind, leaves_modify_bind]
  refine Leaves.bind (Q := fun _ t => Q (t.onEditor (·.redisplayIfInstalled)))
    (consumed.ensuring ?_ ?_) fun _ _ ht => ht
  · exact fun _ t ht => leave t ht.1 ht.2
  · exact fun i t ht => givenUp i t ht.1 ht.2

/-! ### Keys -/

def Session.lineAfter (s : Session σ) (call : Program σ → Act σ Reply) (k : Key) : Line :=
  ((pressKey call k).result s).2.editor.line

/-- What is left by a key that is pressed while keys are accepted: it may belong to the carriage
return before it, end the input, edit the line, or do more. -/
theorem leaves_pressKey {key : Key} {W : Unit → Session σ → Prop}
    (removed : s.editor.installed = false → W () s)
    (paired : key = .lineFeed → s.editor.afterReturn = true →
      W () (s.onEditor fun e => { e with afterReturn := false }))
    (ends : s.editor.installed = true → key = .controlD → s.editor.line.text = [] →
      (endOfInput call).Leaves (s.onEditor fun e => { e with afterReturn := false }) W E)
    (edits : ∀ line, Editor.edit? s.editor.line key = some line → ∀ b,
      W () (s.onEditor fun e => { e with afterReturn := b, line }.redisplay))
    (special : s.editor.installed = true → (key = .lineFeed → s.editor.afterReturn = false) →
      (specialKey call key).Leaves
        (s.onEditor fun e => { e with afterReturn := key = .carriageReturn }) W E) :
    (pressKey call key).Leaves s W E := by
  simp only [pressKey, leaves_get_bind]
  split
  · rename_i accepted
    exact removed (by simpa using accepted)
  · rename_i accepted
    have installed : s.editor.installed = true := by simpa using accepted
    split
    · rename_i pair
      rw [Bool.and_eq_true, decide_eq_true_eq] at pair
      exact paired pair.1 pair.2
    · rename_i unpaired
      simp only [leaves_modify_bind]
      split
      · rename_i last
        rw [Bool.and_eq_true, decide_eq_true_eq, List.isEmpty_iff] at last
        obtain ⟨rfl, empty⟩ := last
        exact ends installed rfl empty
      · split
        · rename_i line edited
          exact edits line edited _
        · refine special installed fun feed => ?_
          simpa [feed] using unpaired

/-- What is left by the keys that a character settles, and by the decoder behind them. -/
theorem leaves_handled {keys : List Key} {P : Session σ → Prop} {F : Interrupt → Session σ → Prop}
    {W : Unit → Session σ → Prop}
    (delivered : (keys.forM (deliverKey call)).Leaves s (fun _ => P) F)
    (ready : ∀ t, P t → W () t.readyKeys) (broken : ∀ i t, F i t → E i t.breakKeys) :
    (Act.ensuring (handleKeys call keys) breakKeys).Leaves s W E := by
  unfold Leaves at delivered ⊢
  rw [result_handled]
  rcases run : (keys.forM (deliverKey call)).result s with ⟨i | _, t⟩
  · rw [run] at delivered
    exact broken i t delivered
  · rw [run] at delivered
    exact ready t delivered

end LineShell
