import LineShell.Proofs.Leaving

/-!
# The keys that a text presses

Text that is fed in pieces presses keys one after the other: those that its characters are read as,
and each paste as a whole. The keys are listed with the sessions that they find, and what is known
of a session and of the keys so far is carried along the list.
-/

namespace LineShell

open Act Edit Session

variable {σ α β γ : Type}

abbrev Stroke (σ : Type) := Session σ × Key

/-- The key hands the line on; a line feed behind a carriage return does not. -/
def Stroke.EndsLine (x : Stroke σ) : Prop :=
  x.2 = .carriageReturn ∨ x.2 = .lineFeed ∧ x.1.editor.afterReturn = false

/-- What is seen in the states in which actions for the items of a list begin, up to the first one
that is given up. -/
def Act.visits (f : α → Act σ PUnit) (seen : Session σ → α → List β) :
    Session σ → List α → List β
  | _, [] => []
  | s, a :: l => seen s a ++
    match (f a).result s with
    | (.ok _, t) => visits f seen t l
    | (.error _, _) => []

theorem Act.mem_visits {f : α → Act σ PUnit} {seen : Session σ → α → List β} {s : Session σ}
    {l : List α} {x : β} (h : x ∈ visits f seen s l) : ∃ t, ∃ a ∈ l, x ∈ seen t a := by
  induction l generalizing s with
  | nil => cases h
  | cons a l ih =>
      rw [visits] at h
      rcases List.mem_append.1 h with first | later
      · exact ⟨s, a, List.mem_cons_self .., first⟩
      · split at later
        · obtain ⟨t, b, there, seen⟩ := ih later
          exact ⟨t, b, List.mem_cons_of_mem _ there, seen⟩
        · cases later

namespace Session

/-- The keys that are pressed of some that were read; the one that begins a paste is none. -/
def keyStrokes (call : Program σ → Act σ Reply) : Session σ → List Key → List (Stroke σ) :=
  visits (deliverKey call) fun s k => if k = .pasteStart then [] else [(s, k)]

/-- The keys that a character presses. -/
def charStrokes (call : Program σ → Act σ Reply) (s : Session σ) (c : Char) : List (Stroke σ) :=
  match s.editor.decoder.paste with
  | some received =>
    match KeyDecoder.readPaste received c with
    | .inl content => [(s, .pasted content)]
    | .inr _ => []
  | none =>
    if s.editor.decoder.stalled then []
    else
      let (keys, d) := s.editor.decoder.read c
      keyStrokes call (s.setDecoder { d with progress := .busy }) keys

def textStrokes (call : Program σ → Act σ Reply) (s : Session σ) (text : List Char) :
    List (Stroke σ) :=
  if s.editor.installed then visits (feedChar call) (charStrokes call) s text else []

def strokes (call : Program σ → Act σ Reply) : Session σ → List (List Char) → List (Stroke σ) :=
  visits (feed call) (textStrokes call)

end Session

variable {call : Program σ → Act σ Reply} {s t : Session σ} {I J : γ → Session σ → Prop}
  {next : γ → Stroke σ → γ} {allowed : Stroke σ → Prop} {E : Interrupt → Session σ → Prop}
  {g : γ} {xs ys : List (Stroke σ)} {m : Act σ PUnit}

/-- Along some strokes every session is as it is known to be, what is known changing with each. -/
def Along (I : γ → Session σ → Prop) (next : γ → Stroke σ → γ) : γ → List (Stroke σ) → Prop
  | _, [] => True
  | g, x :: xs => I g x.1 ∧ Along I next (next g x) xs

theorem along_append :
    Along I next g (xs ++ ys) ↔ Along I next g xs ∧ Along I next (xs.foldl next g) ys := by
  induction xs generalizing g with
  | nil => simp [Along]
  | cons x xs ih => simp only [List.cons_append, Along, ih, List.foldl_cons, and_assoc]

/-- What is known where a stroke is made. -/
theorem Along.at {k : Key} (h : Along I next g (xs ++ (s, k) :: ys)) : I (xs.foldl next g) s :=
  (along_append.1 h).2.1

theorem Along.mem (h : Along I next g xs) {x : Stroke σ} (hx : x ∈ xs) : ∃ g, I g x.1 := by
  obtain ⟨before, after, rfl⟩ := List.append_of_mem hx
  exact ⟨_, h.at⟩

/-- An action and the strokes made in it: each of them finds what is known then, and so does what
comes after the action. -/
structure Carries (I J : γ → Session σ → Prop) (next : γ → Stroke σ → γ)
    (E : Interrupt → Session σ → Prop) (g : γ) (m : Act σ PUnit) (s : Session σ)
    (xs : List (Stroke σ)) : Prop where
  along : Along I next g xs
  leaves : m.Leaves s (fun _ => J (xs.foldl next g)) E

theorem Carries.forM {f : α → Act σ PUnit} {seen : Session σ → α → List (Stroke σ)}
    (h : ∀ g s a, J g s → (∀ x ∈ seen s a, allowed x) → Carries I J next E g (f a) s (seen s a))
    (l : List α) (hs : J g s) (all : ∀ x ∈ visits f seen s l, allowed x) :
    Carries I J next E g (l.forM f) s (visits f seen s l) := by
  induction l generalizing g s with
  | nil => exact ⟨trivial, hs⟩
  | cons a l ih =>
      rw [visits] at all ⊢
      have first := h g s a hs fun x hx => all x (List.mem_append_left _ hx)
      rcases run : (f a).result s with ⟨i | _, t⟩
      · rw [run] at all
        simp only [List.append_nil]
        refine ⟨first.along, ?_⟩
        rw [Leaves, result_forM_cons, run]
        exact first.leaves.error run
      · rw [run] at all
        have later := ih (first.leaves.ok run) fun x hx => all x (List.mem_append_right _ hx)
        refine ⟨along_append.2 ⟨first.along, later.along⟩, ?_⟩
        rw [Leaves, result_forM_cons, run, List.foldl_append]
        exact later.leaves

/-- What keys keep, wherever characters are decoded, is carried along the strokes of any text. -/
structure Strikes (call : Program σ → Act σ Reply) (I : γ → Session σ → Prop)
    (next : γ → Stroke σ → γ) (allowed : Stroke σ → Prop) (E : Interrupt → Session σ → Prop) :
    Prop where
  decode : ∀ {g s} d, I g s → I g (s.setDecoder d)
  press : ∀ {g s k}, I g s → allowed (s, k) →
    (pressKey call k).Leaves s (fun _ => I (next g (s, k))) E
  broken : ∀ {i s}, E i s → E i s.breakKeys

/-- No character is waited for in vain: none has been given up, or that is tolerated. -/
def Session.Free (I : γ → Session σ → Prop) (E : Interrupt → Session σ → Prop) (g : γ)
    (s : Session σ) : Prop :=
  I g s ∧ (s.editor.decoder.stalled = false ∨
    ∀ d g t, I g t → E (.failure (stallFailure d)) t)

namespace Strikes

theorem keys (k : Strikes call I next allowed E) (keys : List Key) (h : I g s)
    (all : ∀ x ∈ keyStrokes call s keys, allowed x) :
    Carries I I next E g (keys.forM (deliverKey call)) s (keyStrokes call s keys) := by
  refine Carries.forM (fun g s key hs all => ?_) keys h all
  by_cases mark : key = .pasteStart
  · rw [deliverKey, if_pos mark, if_pos mark]
    exact ⟨trivial, k.decode _ hs⟩
  · rw [if_neg mark] at all
    rw [deliverKey, if_neg mark, if_neg mark]
    exact ⟨⟨hs, trivial⟩, k.press hs (all _ (List.mem_singleton_self _))⟩

theorem char (k : Strikes call I next allowed E) (c : Char) (h : s.Free I E g)
    (all : ∀ x ∈ charStrokes call s c, allowed x) :
    Carries I (Session.Free I E) next E g (feedChar call c) s (charStrokes call s c) := by
  obtain ⟨hs, free⟩ := h
  cases paste : s.editor.decoder.paste with
  | some received =>
      cases read : KeyDecoder.readPaste received c with
      | inl content =>
          simp only [charStrokes, paste, read] at all ⊢
          refine ⟨⟨hs, trivial⟩, ?_⟩
          simp only [feedChar, leaves_get_bind, paste, read]
          obtain ⟨t, pasted, -, same⟩ := result_pressKey_pasted call s content
          have pressed := (k.press hs (all _ (List.mem_singleton_self _))).ok pasted
          rw [Leaves, result_bind, pasted]
          refine ⟨k.decode _ pressed, free.imp_left fun fresh => ?_⟩
          rw [← same] at fresh
          exact fresh
      | inr received =>
          simp only [charStrokes, paste, read]
          refine ⟨trivial, ?_⟩
          simp only [feedChar, leaves_get_bind, paste, read]
          exact ⟨k.decode _ hs, free⟩
  | none =>
      by_cases stalled : s.editor.decoder.stalled = true
      · simp only [charStrokes, paste, stalled, if_true]
        refine ⟨trivial, ?_⟩
        simp only [feedChar, leaves_get_bind, paste, stalled, if_true]
        exact free.resolve_left (by simp [stalled]) _ g s hs
      · rcases read : s.editor.decoder.read c with ⟨keys, d⟩
        simp only [charStrokes, paste, stalled, read] at all ⊢
        have delivered := k.keys keys (k.decode { d with progress := .busy } hs) all
        refine ⟨delivered.along, ?_⟩
        simp only [feedChar, leaves_get_bind, paste, stalled, read]
        exact leaves_handled delivered.leaves (fun _ ht => ⟨k.decode _ ht, .inl rfl⟩)
          fun _ _ ht => k.broken ht

theorem feed (k : Strikes call I next allowed E) (text : List Char) (h : s.Free I E g)
    (all : ∀ x ∈ textStrokes call s text, allowed x) :
    Carries I (Session.Free I E) next E g (Session.feed call text) s
      (textStrokes call s text) := by
  unfold textStrokes at all ⊢
  by_cases installed : s.editor.installed = true
  · rw [if_pos installed] at all ⊢
    have fed := Carries.forM (fun g s c hs all => k.char c hs all) text h all
    refine ⟨fed.along, ?_⟩
    simp only [Session.feed, leaves_get_bind, installed, if_true]
    exact fed.leaves
  · rw [if_neg installed]
    refine ⟨trivial, ?_⟩
    simp only [Session.feed, leaves_get_bind, installed]
    exact h

theorem pieces (k : Strikes call I next allowed E) (pieces : List (List Char))
    (h : s.Free I E g) (all : ∀ x ∈ strokes call s pieces, allowed x) :
    Carries I (Session.Free I E) next E g (pieces.forM (Session.feed call)) s
      (strokes call s pieces) :=
  Carries.forM (fun _ _ text hs all => k.feed text hs all) pieces h all

end Strikes

end LineShell
