import LineShell.Colour
import LineShell.Edit.Screen

/-!
# Texts without their colour codes

A colour code is an escape, a bracket, digits and semicolons, and the letter m. A text is read
character by character to take such codes out of it, so that what is left of a text that is written
in parts can be told from the parts: a code may begin in one of them and end in the next.
-/

namespace LineShell.Colour

/-- What has been read of a colour code. -/
inductive Scan where
  | text
  | escape
  /-- The escape and the bracket, and the parameters behind them, the latest first. -/
  | code (parameters : List Char)
  deriving DecidableEq, Repr

namespace Scan

/-- What is text after all if no code comes of it. -/
def pending : Scan → List Char
  | text => []
  | escape => ['\x1b']
  | code parameters => '\x1b' :: '[' :: parameters.reverse

def isParameter (c : Char) : Bool := c.isDigit || c = ';'

def accept (s : Scan) (c : Char) : Option Scan :=
  match s with
  | text => none
  | escape => if c = '[' then some (code []) else none
  | code parameters =>
    if c = 'm' then some text
    else if isParameter c then some (code (c :: parameters)) else none

def step (s : Scan) (c : Char) : List Char × Scan :=
  match s.accept c with
  | some next => ([], next)
  | none => if c = '\x1b' then (s.pending, escape) else (s.pending ++ [c], text)

def run (s : Scan) : List Char → List Char × Scan
  | [] => ([], s)
  | c :: rest =>
    let (now, next) := s.step c
    let (later, last) := next.run rest
    (now ++ later, last)

@[simp] theorem run_nil (s : Scan) : s.run [] = ([], s) := rfl

theorem run_cons (s : Scan) (c : Char) (rest : List Char) :
    s.run (c :: rest) =
      ((s.step c).1 ++ ((s.step c).2.run rest).1, ((s.step c).2.run rest).2) := rfl

/-- A text may be read in any number of pieces. -/
theorem run_append (s : Scan) (a b : List Char) :
    s.run (a ++ b) = ((s.run a).1 ++ ((s.run a).2.run b).1, ((s.run a).2.run b).2) := by
  induction a generalizing s with
  | nil => simp
  | cons c a ih => simp [run_cons, ih]

/-- A text begins with a character that belongs to no code that has begun before. -/
def Opens (t : List Char) : Prop :=
  ∃ c rest, t = c :: rest ∧ c ≠ '[' ∧ c ≠ 'm' ∧ isParameter c = false

theorem Opens.append {t : List Char} (h : Opens t) (u : List Char) : Opens (t ++ u) := by
  obtain ⟨c, rest, rfl, other⟩ := h
  exact ⟨c, rest ++ u, rfl, other⟩

/-- Where no code is open, or the text belongs to none, it is read afresh. -/
theorem run_afresh {s : Scan} {t : List Char} (h : s = text ∨ Opens t) :
    s.run t = (s.pending ++ (text.run t).1, (text.run t).2) := by
  obtain rfl | ⟨c, rest, rfl, bracket, letter, parameter⟩ := h
  · rfl
  · -- No state takes the character for a part of its code, so that what is open is text after all.
    have refused : ∀ s : Scan, s.accept c = none := by
      intro s
      cases s <;> simp [accept, bracket, letter, parameter]
    simp only [run_cons, step, refused]
    split <;> simp [pending]

/-- White space closes whatever is open. -/
theorem snd_run_concat (s : Scan) (t : List Char) {c : Char} (blank : c = ' ' ∨ c = '\n') :
    (s.run (t ++ [c])).2 = text := by
  rw [run_append]
  obtain rfl | rfl := blank
  · rw [run_afresh (.inr ⟨' ', [], rfl, by decide, by decide, by decide⟩)]
    rfl
  · rw [run_afresh (.inr ⟨'\n', [], rfl, by decide, by decide, by decide⟩)]
    rfl

theorem run_parameters (before ps t : List Char) (h : ps.all isParameter = true) :
    (code before).run (ps ++ 'm' :: t) = text.run t := by
  induction ps generalizing before with
  | nil => simp [run_cons, step, accept]
  | cons p ps ih =>
      obtain ⟨hp, hps⟩ : isParameter p = true ∧ ps.all isParameter = true := by simpa using h
      have other : p ≠ 'm' := by
        rintro rfl
        exact absurd hp (by decide)
      rw [List.cons_append, run_cons]
      simp [step, accept, other, hp, ih (p :: before) hps]

/-- A whole code leaves nothing of itself, and no code open. -/
theorem run_code (s : Scan) (ps t : List Char) (h : ps.all isParameter = true) :
    s.run ('\x1b' :: '[' :: (ps ++ 'm' :: t)) = (s.pending ++ (text.run t).1, (text.run t).2) := by
  rw [run_afresh (.inr ⟨'\x1b', _, rfl, by decide, by decide, by decide⟩)]
  have begun : text.run ('\x1b' :: '[' :: (ps ++ 'm' :: t)) = (code []).run (ps ++ 'm' :: t) := by
    simp [run_cons, step, accept, pending]
  rw [begun, run_parameters [] ps t h]

theorem run_colour (s : Scan) (c : Colour) (t : List Char) :
    s.run (c.code.toList ++ t) = (s.pending ++ (text.run t).1, (text.run t).2) := by
  cases c with
  | red => exact s.run_code ['0', ';', '9', '1'] t (by decide)
  | green => exact s.run_code ['0', ';', '9', '2'] t (by decide)
  | yellow => exact s.run_code ['0', ';', '9', '3'] t (by decide)
  | blue => exact s.run_code ['0', ';', '9', '4'] t (by decide)
  | highlight => exact s.run_code ['1', ';', '3', '9'] t (by decide)

theorem run_off (s : Scan) (t : List Char) :
    s.run (off.toList ++ t) = (s.pending ++ (text.run t).1, (text.run t).2) :=
  s.run_code ['0'] t (by decide)

/-- A painted text reads as the text alone, where no code is open before it or it belongs to none,
and likewise behind it. -/
theorem run_paint {s : Scan} {t u : List Char} (c : Colour) (before : s = text ∨ Opens t)
    (behind : (text.run t).2 = text ∨ Opens u) :
    s.run (c.code.toList ++ (t ++ (off.toList ++ u))) = s.run (t ++ u) := by
  have inner : text.run (t ++ (off.toList ++ u)) = text.run (t ++ u) := by
    rw [run_append, run_append text t u, run_off, run_afresh behind]
  rw [run_colour, inner, run_afresh (before.imp_right fun opens => opens.append u)]

/-- A text without an escape is left as it is. -/
theorem run_plain {t : List Char} (h : '\x1b' ∉ t) : text.run t = (t, text) := by
  induction t with
  | nil => rfl
  | cons c t ih =>
      obtain ⟨hc, ht⟩ := List.ne_and_not_mem_of_not_mem_cons h
      simp [run_cons, step, accept, pending, Ne.symm hc, ih ht]

end Scan

/-! ### Whole texts -/

/-- A text without its colour codes, and what it leaves open. -/
def unpaint (t : String) : List Char × Scan := Scan.text.run t.toList

def strip (t : String) : String :=
  String.ofList ((unpaint t).1 ++ (unpaint t).2.pending)

theorem unpaint_append (t u : String) :
    unpaint (t ++ u) = ((unpaint t).1 ++ ((unpaint t).2.run u.toList).1,
      ((unpaint t).2.run u.toList).2) := by
  rw [unpaint, String.toList_append, Scan.run_append]
  rfl

/-! ### Texts that differ in their colours -/

/-- Two texts differ in nothing but colour codes, if reading begins in one of some states. They are
empty together, and end together with a line feed. -/
structure Twins (outset : Scan → Prop) (t t' : String) : Prop where
  reads : ∀ s, outset s → s.run t'.toList = s.run t.toList
  empty : t' = "" ↔ t = ""
  ends : t'.toList.getLast? = some '\n' ↔ t.toList.getLast? = some '\n'

theorem Twins.refl (outset : Scan → Prop) (t : String) : Twins outset t t :=
  ⟨fun _ _ => rfl, .rfl, .rfl⟩

theorem toList_paint (c : Colour) (enabled : Bool) (t : String) :
    (c.paint enabled t).toList =
      if enabled then c.code.toList ++ (t.toList ++ off.toList) else t.toList := by
  cases enabled <;> simp [paint, wrap]

/-- Whether a part of a text is painted does not matter to the rest. -/
theorem run_painted {s : Scan} {t u : List Char} (c : Colour) (enabled : Bool) {text : String}
    (before : (s.run t).2 = .text ∨ Scan.Opens text.toList)
    (behind : (Scan.text.run text.toList).2 = .text ∨ Scan.Opens u) :
    s.run (t ++ ((c.paint enabled text).toList ++ u)) = s.run (t ++ (text.toList ++ u)) := by
  cases enabled with
  | false => simp [paint]
  | true =>
      rw [toList_paint, Scan.run_append, Scan.run_append s t]
      simp only [ite_true, List.append_assoc]
      rw [Scan.run_paint c before behind]

theorem unpaint_paint (c : Colour) (enabled : Bool) {t : String} (plain : '\x1b' ∉ t.toList) :
    unpaint (c.paint enabled t) = (t.toList, .text) := by
  have kept : Scan.text.run t.toList = (t.toList, .text) := Scan.run_plain plain
  have before : (Scan.text.run []).2 = .text ∨ Scan.Opens t.toList := .inl rfl
  have painted := run_painted (u := []) c enabled before (.inl (congrArg Prod.snd kept))
  simpa [unpaint, kept] using painted

theorem strip_paint (c : Colour) (enabled : Bool) {t : String} (plain : '\x1b' ∉ t.toList) :
    strip (c.paint enabled t) = t := by
  simp [strip, unpaint_paint c enabled plain, Scan.pending]

/-- A line with a painted part. -/
theorem twins_painted {outset : Scan → Prop} (c : Colour) (enabled enabled' : Bool)
    (before text behind : String)
    (opens : ∀ s, outset s → (s.run before.toList).2 = .text ∨ Scan.Opens text.toList)
    (closes : (Scan.text.run text.toList).2 = .text ∨ Scan.Opens (behind ++ "\n").toList) :
    Twins outset (before ++ c.paint enabled text ++ behind ++ "\n")
      (before ++ c.paint enabled' text ++ behind ++ "\n") where
  reads s hs := by
    have plain : ∀ b, s.run (before ++ c.paint b text ++ behind ++ "\n").toList =
        s.run (before.toList ++ (text.toList ++ (behind ++ "\n").toList)) := by
      intro b
      rw [← run_painted c b (opens s hs) closes]
      simp only [String.toList_append, List.append_assoc]
    rw [plain, plain]
  empty := by
    have full : ∀ t : String, t ++ "\n" ≠ "" := by
      intro t h
      simpa using congrArg String.toList h
    exact ⟨fun h => absurd h (full _), fun h => absurd h (full _)⟩
  ends := by simp

end LineShell.Colour

namespace LineShell.Edit

open Colour

/-- An emptied row begins with no code open. -/
theorem run_clearRow (s : Scan) :
    s.run clearRow.toList = (s.pending ++ clearRow.toList, .text) := by
  have opens : Scan.Opens clearRow.toList :=
    ⟨'\r', ['\x1b', '[', 'K'], rfl, by decide, by decide, by decide⟩
  rw [Scan.run_afresh (.inr opens)]
  rfl

/-- The edit line is drawn alike behind prompts that differ in their colours. -/
theorem run_redraw {p p' : String} (same : unpaint p' = unpaint p) (fresh : Bool) (l : Line)
    (phase : Phase) (s : Scan) : s.run (Write.redraw fresh p' l phase).text.toList =
      s.run (Write.redraw fresh p l phase).text.toList := by
  have behind : ∀ u, Scan.text.run (p'.toList ++ u) = Scan.text.run (p.toList ++ u) := by
    intro u
    rw [Scan.run_append, Scan.run_append,
      show Scan.text.run p'.toList = Scan.text.run p.toList from same]
  simp only [Write.text, drawn, String.toList_append, List.append_assoc]
  rw [Scan.run_append, Scan.run_append s, Scan.run_append, Scan.run_append _ clearRow.toList,
    run_clearRow, behind]

theorem unpaint_textOf_cons (w : Write) (ws : List Write) :
    unpaint (textOf (w :: ws)) =
      ((unpaint (textOf ws)).1 ++ ((unpaint (textOf ws)).2.run w.text.toList).1,
        ((unpaint (textOf ws)).2.run w.text.toList).2) := by
  rw [textOf_cons, unpaint_append]

end LineShell.Edit
