import LineShell.Proofs.Keys

/-!
# Runs of a shell

A run is made of moves: text is fed, or code beside the shell runs a program. What keys and programs
keep holds in every state that a run reaches.
-/

namespace LineShell

open Act Session

variable {σ : Type}

/-- The states that runs from a state reach, programs keeping to rules and leading to others down to
a depth. Feeding a text may be given up as far as that is tolerated in the state it leaves. -/
inductive Reached (rules : Rules) (depth : Nat) (tolerated : Interrupt → Session σ → Prop)
    (s₀ : Session σ) : Session σ → Prop
  | start : Reached rules depth tolerated s₀ s₀
  /-- Text is fed. -/
  | keys {s t : Session σ} {r : Except Interrupt Unit} (before : Reached rules depth tolerated s₀ s)
      (text : List Char) (fed : (feed (Program.exec depth) text).result s = (r, t))
      (givenUp : ∀ i, r = .error i → tolerated i t) : Reached rules depth tolerated s₀ t
  /-- A program is run, and may be given up. -/
  | program {s t : Session σ} {r : Except Interrupt Reply}
      (before : Reached rules depth tolerated s₀ s) {p : Program σ} (follows : p.Follows rules true)
      (run : (p.exec depth).result s = (r, t)) : Reached rules depth tolerated s₀ t

theorem Reached.fed {rules : Rules} {depth : Nat} {tolerated : Interrupt → Session σ → Prop}
    {s₀ s : Session σ} (before : Reached rules depth tolerated s₀ s) (text : List Char)
    (ok : ((feed (Program.exec depth) text).result s).1.isOk = true) :
    Reached rules depth tolerated s₀ ((feed (Program.exec depth) text).result s).2 := by
  rcases h : (feed (Program.exec depth) text).result s with ⟨_ | _, t⟩
  · rw [h] at ok
    cases ok
  · exact .keys before text h fun _ hi => (nomatch hi)

/-- A run goes on with a program that keeps to the rules. -/
theorem Reached.ran {rules : Rules} {depth : Nat} {tolerated : Interrupt → Session σ → Prop}
    {s₀ s : Session σ} (before : Reached rules depth tolerated s₀ s) {p : Program σ}
    (follows : p.Follows rules true) :
    Reached rules depth tolerated s₀ ((p.exec depth).result s).2 :=
  .program before follows rfl

/-- Operations in order keep to all rules that allow each of them. -/
theorem Program.Follows.sequence {rules : Rules} {ops : List Operation}
    (h : ∀ op ∈ ops, rules.uses op) : (Program.sequence ops : Program σ).Follows rules true := by
  induction ops with
  | nil => exact .done .nothing
  | cons op ops ih =>
      exact .perform (h op (List.mem_cons_self ..)) (.inl rfl) fun _ =>
        ih fun o ho => h o (List.mem_cons_of_mem _ ho)

/-! ### A new shell -/

theorem held_defaultCommands {custom : Custom σ}
    (prints : ∀ template args, custom.held true (.single (.print template args)))
    (lists : custom.held true (.single .printMenu)) (quits : custom.held true (.single .quit))
    {e : Command.Entry (Program σ)} (he : e ∈ defaultCommands) : e.Held custom := by
  simp only [defaultCommands, List.mem_cons, List.not_mem_nil, or_false] at he
  rcases he with rfl | rfl | rfl | rfl
  · exact ⟨fun _ => prints _ _, fun _ hg => (nomatch hg), fun _ hf => (nomatch hf)⟩
  · exact ⟨fun _ => quits, fun _ hg => (nomatch hg), fun _ hf => (nomatch hf)⟩
  · exact ⟨fun _ => quits, fun _ hg => (nomatch hg), fun _ hf => (nomatch hf)⟩
  · exact ⟨fun _ => lists, fun _ hg => (nomatch hg), fun _ hf => (nomatch hf)⟩

/-- A new shell on a system without files, with some commands beside the default ones. -/
def bareShell (menu : List (Command.Entry (Program σ))) (programs : σ) : Session σ :=
  let places : UserPlaces := { home := {}, settingsFile := {}, historyFile := {} }
  let settings : Settings := .default places
  { host := { places, logTime := "", entryTime := "", settings }
    registry := { defaults := ⟨defaultCommands⟩, menu := some ⟨menu⟩ }
    settings, programs }

theorem held_bareShell {custom : Custom σ} {menu : List (Command.Entry (Program σ))} {programs : σ}
    (prints : ∀ template args, custom.held true (.single (.print template args)))
    (lists : custom.held true (.single .printMenu)) (quits : custom.held true (.single .quit))
    (commands : ∀ e ∈ menu, e.Held custom) : (bareShell menu programs).Held custom where
  consumer := rfl
  commands := by
    intro table ht e he
    rcases Command.Registry.mem_tables.1 ht with ht | rfl
    · cases ht
      exact commands e he
    · exact held_defaultCommands prints lists quits he
  request := fun _ hr => (nomatch hr)
  hook := by
    rintro engine he f hf
    cases he
    cases hf

theorem follows_bareShell {rules : Rules} {menu : List (Command.Entry (Program σ))} {programs : σ}
    (prints : ∀ template args, rules.uses (.print template args)) (lists : rules.uses .printMenu)
    (quits : rules.uses .quit) (commands : ∀ e ∈ menu, e.Follows rules) :
    (bareShell menu programs).Follows rules := by
  have single : ∀ {op}, rules.uses op → (Program.single op : Program σ).Follows rules true :=
    fun allowed => .perform allowed (.inl rfl) fun reply => .done reply
  exact held_custom.1 (held_bareShell (fun template args => single (prints template args))
    (single lists) (single quits) fun e he => Command.Entry.held_custom.2 (commands e he))

/-! ### Invariants of keys and of runs -/

/-- Properties that keys keep: `P` between keys, `Q` while a completed line is handled, and `F`
where a key was given up. -/
structure KeysPreserve (rules : Rules) (P Q : Session σ → Prop) (F : Interrupt → Session σ → Prop) :
    Prop where
  change : ∀ {s f}, P s → KeyChange rules s f → P (f s)
  failed : ∀ {i s}, P s → F i s
  begin : ∀ {s}, P s → s.editor.installed = true → Q s.beginLine
  leave : ∀ {s}, Q s → P (s.leaveLine.onEditor (·.redisplayIfInstalled))
  givenUp : ∀ {i s}, Q s → s.MayEndLine rules i → F i s.leaveLine
  endInput : ∀ {s}, P s → Q s.showQuit
  drop : ∀ {s}, Q s → s.editor.installed = false → P s.dropLine
  broken : ∀ {i s}, F i s → F i s.breakKeys

/-- Keys leave programs that are bound. -/
theorem KeyChange.held {custom : Custom σ} {s : Session σ} {f : Session σ → Session σ}
    (c : KeyChange custom s f) (h : s.Held custom) : (f s).Held custom := by
  have engine : ∀ {change : Completion.Engine (Program σ) → Completion.Engine (Program σ)},
      (∀ e g, (change e).displayHook = some g → e.displayHook = some g ∨
        ∀ word found longest, custom.held true (g word found longest)) →
      ({ s with completion := s.completion.map change } : Session σ).Held custom := by
    intro change hc
    refine ⟨h.consumer, h.commands, h.request, ?_⟩
    intro e he g hg
    obtain ⟨e₀, he₀, rfl⟩ := Option.map_eq_some_iff.1 he
    rcases hc e₀ g hg with hg | hg
    · exact h.hook e₀ he₀ g hg
    · exact hg
  cases c with
  | hook g held => exact engine fun e g' hg => .inr (held g' hg)
  | attempt nothing => exact engine fun e g' hg => .inl hg
  | _ => exact h.congr rfl rfl rfl rfl

theorem KeyChange.follows {rules : Rules} {s : Session σ} {f : Session σ → Session σ}
    (c : KeyChange rules.custom s f) (h : s.Follows rules) : (f s).Follows rules :=
  held_custom.1 (c.held (held_custom.2 h))

theorem KeysPreserve.keep {rules : Rules} {P Q : Session σ → Prop}
    {F : Interrupt → Session σ → Prop} (k : KeysPreserve rules P Q F)
    (idle : Stable rules (Invariant rules P)) (busy : Stable rules (Invariant rules Q)) :
    KeysKeep rules (Invariant rules P) (Invariant rules Q) fun i => Invariant rules (F i) where
  idle := idle
  busy := busy
  keyed := by
    rintro s _ ⟨rfl, -, -⟩
    exact .refl _
  change := by
    rintro s _ f ⟨rfl, hp, hf⟩ hc
    exact ⟨rfl, k.change hp hc, hc.follows hf⟩
  failed := by
    rintro i s _ ⟨rfl, hp, hf⟩
    exact ⟨rfl, k.failed hp, hf⟩
  begin := by
    rintro s _ ⟨rfl, hp, hf⟩ installed
    exact ⟨rfl, k.begin hp installed, hf.congr rfl rfl rfl rfl⟩
  leave := by
    rintro s _ ⟨rfl, hp, hf⟩
    exact ⟨rfl, k.leave hp, hf.congr rfl rfl rfl rfl⟩
  givenUp := by
    rintro i s _ ⟨rfl, hp, hf⟩ hi
    exact ⟨rfl, k.givenUp hp hi, hf.congr rfl rfl rfl rfl⟩
  endInput := by
    rintro s _ ⟨rfl, hp, hf⟩
    exact ⟨rfl, k.endInput hp, hf.congr rfl rfl rfl rfl⟩
  drop := by
    rintro s _ ⟨rfl, hp, hf⟩ removed
    exact ⟨rfl, k.drop hp removed, hf.congr rfl rfl rfl rfl⟩
  broken := by
    rintro i s _ ⟨rfl, hi, hf⟩
    exact ⟨rfl, k.broken hi, hf.congr rfl rfl rfl rfl⟩

/-- How an action that keeps an invariant ends. -/
theorem Invariant.of_ends {α : Type} {rules : Rules} {P : Session σ → Prop}
    {F : Interrupt → Session σ → Prop} {x : Except Interrupt α × Session σ}
    (h : Ends (Invariant rules P) (fun i => Invariant rules (F i)) x x) :
    x.2.Follows rules ∧ ((∃ i, x.1 = .error i ∧ F i x.2) ∨ P x.2) := by
  obtain ⟨r | a, t⟩ := x
  · obtain ⟨-, hf, hs⟩ := (ends_error ..).1 h
    exact ⟨hs, .inl ⟨r, rfl, hf⟩⟩
  · obtain ⟨-, hp, hs⟩ := (ends_ok ..).1 h
    exact ⟨hs, .inr hp⟩

/-- An action that keeps a property however it ends. -/
theorem Invariant.left {α : Type} {rules : Rules} {P : Session σ → Prop}
    {x : Except Interrupt α × Session σ}
    (h : Ends (Invariant rules P) (fun _ => Invariant rules P) x x) :
    P x.2 ∧ x.2.Follows rules := by
  obtain ⟨follows, ⟨-, -, hp⟩ | hp⟩ := Invariant.of_ends h
  · exact ⟨hp, follows⟩
  · exact ⟨hp, follows⟩

/-- A program keeps what every change keeps, also if it is given up. -/
theorem Closed.left {rules : Rules} {P : Session σ → Prop}
    (closed : Closed rules (Invariant rules P)) (depth : Nat) {p : Program σ}
    (follows : p.Follows rules true) {s : Session σ} (h : P s ∧ s.Follows rules) :
    P ((p.exec depth).result s).2 ∧ ((p.exec depth).result s).2.Follows rules :=
  Invariant.left ((closed.exec depth _ _ follows s s ⟨rfl, h⟩).weaken (fun _ _ ht => ht)
    fun _ _ _ ht => ht.1)

/-- An invariant of keys and programs holds in every state reached from one in which it holds, where
giving up is tolerated only if it leaves the invariant in force. -/
theorem Reached.invariant {rules : Rules} {P Q : Session σ → Prop}
    {F : Interrupt → Session σ → Prop} {depth : Nat} {tolerated : Interrupt → Session σ → Prop}
    {s₀ s : Session σ} (reached : Reached rules depth tolerated s₀ s)
    (k : KeysPreserve rules P Q F) (idle : Closed rules (Invariant rules P))
    (busy : Closed rules (Invariant rules Q)) (restored : ∀ i t, F i t → tolerated i t → P t)
    (h₀ : P s₀) (follows : s₀.Follows rules) : P s ∧ s.Follows rules := by
  induction reached with
  | start => exact ⟨h₀, follows⟩
  | keys _ text fed givenUp ih =>
      have ends := (k.keep idle.toStable busy.toStable).feed (idle.exec depth) (busy.exec depth)
        text ⟨rfl, ih⟩
      rw [fed] at ends
      obtain ⟨hf, ⟨i, hi, hfail⟩ | hp⟩ := Invariant.of_ends ends
      · exact ⟨restored i _ hfail (givenUp i hi), hf⟩
      · exact ⟨hp, hf⟩
  | program _ hp run ih =>
      have kept := idle.left depth hp ih
      rwa [run] at kept

end LineShell
