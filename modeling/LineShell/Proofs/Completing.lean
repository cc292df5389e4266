import LineShell.Proofs.CommandWord
import LineShell.Proofs.Walking
import Mathlib.Data.List.DropRight

/-!
# Completing the word before the point

The completion key edits the word that ends at the point, and nothing else of the line. A single
completion takes its place, with a space behind it. Several ones extend it by the text that all of
them go on with; where there is none, or where one of them does not even begin with the word, they
are listed and the line stays as it is.
-/

namespace LineShell

open Act Edit Session

variable {σ : Type} {call : Program σ → Act σ Reply} {own : Program σ → Prop} {s t : Session σ}
  {found : List String}

/-! ### The word -/

namespace Completion

variable {before s : List Char}

theorem word_eq_rtakeWhile (before : List Char) :
    word before = before.rtakeWhile (!isWordBreak ·) := by
  have parts : before.rdropWhile (!isWordBreak ·) ++ before.rtakeWhile (!isWordBreak ·) = before :=
    List.rdropWhile_append_rtakeWhile
  calc word before
      = (before.rdropWhile (!isWordBreak ·) ++ before.rtakeWhile (!isWordBreak ·)).drop
          (before.rdropWhile (!isWordBreak ·)).length := by rw [parts]; rfl
    _ = before.rtakeWhile (!isWordBreak ·) := List.drop_left

theorem word_suffix (before : List Char) : word before <:+ before :=
  List.drop_suffix ..

/-- No longer text before the point is free of word breaks. -/
theorem suffix_word (ends : s <:+ before) (solid : ∀ c ∈ s, isWordBreak c = false) :
    s <:+ word before := by
  obtain ⟨left, rfl⟩ := ends
  have kept : ∀ c ∈ s.reverse, (!isWordBreak c) = true := by simpa using solid
  rw [word_eq_rtakeWhile, List.rtakeWhile, List.reverse_append,
    List.takeWhile_append_of_pos kept, List.reverse_append, List.reverse_reverse]
  exact List.suffix_append ..

/-! ### What several completions have in common -/

/-- The common start of two texts is the longest one. -/
theorem prefix_commonStart {a b : List Char} : s <+: commonStart a b ↔ s <+: a ∧ s <+: b := by
  induction a generalizing b s with
  | nil => simpa [commonStart] using fun h : s = [] => h ▸ List.nil_prefix
  | cons x a ih =>
      cases b with
      | nil => simpa [commonStart] using fun h : s = [] => h ▸ List.nil_prefix
      | cons y b =>
          cases s with
          | nil => simp
          | cons c s =>
              by_cases same : x = y
              · subst same
                simp only [commonStart, if_true, List.cons_prefix_cons, ih]
                tauto
              · simp only [commonStart, if_neg same, List.cons_prefix_cons, List.prefix_nil]
                simp only [reduceCtorEq, false_iff]
                rintro ⟨⟨rfl, -⟩, rfl, -⟩
                exact same rfl

theorem prefix_foldl_commonStart {a : List Char} {cs : List (List Char)} :
    s <+: cs.foldl commonStart a ↔ s <+: a ∧ ∀ c ∈ cs, s <+: c := by
  induction cs generalizing a with
  | nil => simp
  | cons b cs ih => rw [List.foldl_cons, ih, prefix_commonStart, List.forall_mem_cons, and_assoc]

theorem prefix_commonStartOf {cs : List (List Char)} (some : cs ≠ []) :
    s <+: commonStartOf cs ↔ ∀ c ∈ cs, s <+: c := by
  cases cs with
  | nil => exact absurd rfl some
  | cons c cs => rw [commonStartOf, prefix_foldl_commonStart, List.forall_mem_cons]

/-- A text is the longest one that goes on with a word in all of some completions, and it is empty
where one of them does not begin with the word. -/
def Agreed (w : List Char) (cs : List (List Char)) (s : List Char) : Prop :=
  if ∀ c ∈ cs, w <+: c then (∀ c ∈ cs, w ++ s <+: c) ∧ ∀ x, (∀ c ∈ cs, w ++ x <+: c) → x <+: s
  else s = []

theorem Agreed.unique {w x : List Char} {cs : List (List Char)} (h : Agreed w cs s)
    (h' : Agreed w cs x) : s = x := by
  unfold Agreed at h h'
  split at h
  · rename_i start
    rw [if_pos start] at h'
    have there := h'.2 s h.1
    exact there.eq_of_length_le (h.2 x h'.1).length_le
  · rename_i apart
    rw [if_neg apart] at h'
    rw [h, h']

theorem append_prefix_iff {w x c : List Char} (start : w <+: c) :
    w ++ x <+: c ↔ x <+: c.drop w.length := by
  obtain ⟨rest, rfl⟩ := start
  rw [List.prefix_append_right_inj, List.drop_left]

/-- A completion that is as long as the word and leaves the text before the point alone begins with
the word. -/
theorem prefix_of_take_suffix {w c : List Char} (ends : w <:+ before)
    (kept : c.take w.length <:+ before) (long : w.length ≤ c.length) : w <+: c := by
  have same : c.take w.length = w :=
    (List.suffix_of_suffix_length_le kept ends (List.length_take_le ..)).eq_of_length
      (List.length_take_of_le long)
  rw [← same]
  exact List.take_prefix ..

/-- The text that several completions add to a word is the one that they agree on. -/
theorem agreed_commonSuffix {w : List Char} {cs : List (List Char)} (ends : w <:+ before)
    (some : cs ≠ []) : Agreed w cs (commonSuffix before w.length cs) := by
  have more : cs.map (·.drop w.length) ≠ [] := by simpa using some
  by_cases start : ∀ c ∈ cs, w <+: c
  · have kept : cs.all (fun c => (c.take w.length).isSuffixOf before) = true := by
      rw [List.all_eq_true]
      intro c member
      rw [List.isSuffixOf_iff_suffix, ← List.prefix_iff_eq_take.mp (start c member)]
      exact ends
    have common : ∀ x, x <+: commonSuffix before w.length cs ↔ ∀ c ∈ cs, w ++ x <+: c := by
      intro x
      rw [commonSuffix, if_pos kept, prefix_commonStartOf more, List.forall_mem_map]
      exact forall₂_congr fun c member => (append_prefix_iff (start c member)).symm
    rw [Agreed, if_pos start]
    exact ⟨(common _).mp List.prefix_rfl, fun x => (common x).mpr⟩
  · rw [Agreed, if_neg start]
    obtain ⟨c, member, other⟩ : ∃ c ∈ cs, ¬ w <+: c := by simpa using start
    unfold commonSuffix
    split
    · rename_i kept
      -- A shorter completion may well end the text before the point; it goes on with nothing.
      have short : c.length < w.length := by
        by_contra long
        have kept := List.all_eq_true.mp kept c member
        exact other (prefix_of_take_suffix ends (List.isSuffixOf_iff_suffix.mp kept)
          (Nat.le_of_not_lt long))
      have shared := (prefix_commonStartOf more).mp List.prefix_rfl (c.drop w.length)
        (List.mem_map_of_mem member)
      rwa [List.drop_eq_nil_of_le (Nat.le_of_lt short), List.prefix_nil] at shared
    · rfl

/-! ### What becomes of the line -/

/-- What is done with the completions of a word. -/
inductive Outcome where
  | nothing
  /-- Another line is drawn. -/
  | line (l : Line)
  /-- They are listed, by the hook of their command or in columns. -/
  | listed
  deriving DecidableEq

def outcome (l : Line) : List String → Outcome
  | [] => .nothing
  | [only] =>
    .line (.ofParts (l.before.take (wordStart l.before) ++ only.toList ++ [' ']) l.after)
  | found =>
    let common := commonSuffix l.before (word l.before).length (found.map String.toList)
    if common.isEmpty then .listed else .line (.ofParts (l.before ++ common) l.after)

def Outcome.lineFrom (l : Line) : Outcome → Line
  | .line m => m
  | _ => l

/-- How the key ends that has found some completions of a word, the session being `t` then. They are
listed by the hook in force, which is run once with the word, the completions and the length of the
longest, or else in columns; prompt and line are drawn behind them. -/
def Outcome.ended (call : Program σ → Act σ Reply) (word : String) (found : List String)
    (t : Session σ) : Outcome → Except Interrupt Unit × Session σ
  | .nothing => (.ok ⟨⟩, t)
  | .line l => (.ok ⟨⟩, t.onEditor fun e => { e with line := l }.redisplay)
  | .listed =>
    match t.completion.bind (·.displayHook) with
    | some hook =>
      match (call (hook word found (Columns.longest found))).result t with
      | (.ok _, u) => (.ok ⟨⟩, u.onEditor (·.redisplay))
      | (.error i, u) => (.error i, u)
    | none =>
      (.ok ⟨⟩, t.onEditor fun e =>
        (e.emit (.listing (Columns.layout found (Columns.terminalWidth t.host.env)))).redisplay)

theorem result_showCompletions_ended (call : Program σ → Act σ Reply) (word : String) :
    (showCompletions call word found).result t = Outcome.listed.ended call word found t := by
  simp only [showCompletions, result_get_bind, Outcome.ended]
  cases t.completion.bind (·.displayHook) with
  | none => rfl
  | some hook =>
      simp only
      rw [result_bind]
      rcases (call (hook word found (Columns.longest found))).result t with ⟨_ | _, _⟩ <;> rfl

/-- The word before the point goes, and another text comes. -/
theorem insert_deleteBefore_word (l : Line) (text : List Char) :
    (l.deleteBefore (word l.before).length).insert text =
      .ofParts (l.before.take (wordStart l.before) ++ text) l.after := by
  have inside := wordStart_le l.before
  rw [Line.length_before] at inside
  have length : (word l.before).length = l.point - wordStart l.before := by
    rw [word, List.length_drop, Line.length_before]
  rw [Line.deleteBefore_of_le (by omega), length, Nat.sub_sub_self inside, Line.insert,
    Line.before_ofParts, Line.after_ofParts]

theorem agreed_of_several (l : Line) (several : 2 ≤ found.length) :
    Agreed (word l.before) (found.map String.toList)
      (commonSuffix l.before (word l.before).length (found.map String.toList)) := by
  refine agreed_commonSuffix (word_suffix l.before) fun none => ?_
  rw [List.map_eq_nil_iff.mp none] at several
  cases several

/-- Several completions are listed if what they agree on is nothing. -/
theorem outcome_of_several (l : Line) (several : 2 ≤ found.length) {x : List Char}
    (agreed : Agreed (word l.before) (found.map String.toList) x) :
    outcome l found = if x = [] then .listed else .line (.ofParts (l.before ++ x) l.after) := by
  rcases found with _ | ⟨a, _ | ⟨b, found⟩⟩
  · cases several
  · exact absurd several (Nat.not_succ_le_self 1)
  · have common := (agreed_of_several l several).unique agreed
    simp only [outcome, common, List.isEmpty_iff]

end Completion

/-! ### Programs that leave the line alone -/

/-- Some programs leave the edit line alone. On all else they may act as they like; they may also be
given up. -/
def SparesLine (call : Program σ → Act σ Reply) (own : Program σ → Prop) : Prop :=
  ∀ p, own p → ∀ s, s.Offers own → (call p).Leaves s
    (fun _ t => t.Offers own ∧ t.editor.line = s.editor.line) fun _ t =>
      t.editor.line = s.editor.line

/-- The line is the given one, and the programs that may be run leave it alone. -/
structure Session.Untouched (own : Program σ → Prop) (l : Line) (s : Session σ) : Prop where
  line : s.editor.line = l
  offers : s.Offers own

namespace Session.Untouched

variable {l : Line}

theorem log (h : s.Untouched own l) (event : Log.Event) : (s.log event).Untouched own l := by
  obtain ⟨_, _, _, logged⟩ := s.log_frame event
  rw [logged]
  exact ⟨h.line, h.offers.congr rfl rfl⟩

theorem engine (h : s.Untouched own l)
    (change : Completion.Engine (Program σ) → Completion.Engine (Program σ))
    (hook : ∀ engine f, (change engine).displayHook = some f → engine.displayHook = some f ∨
      ∀ word found longest, own (f word found longest)) :
    ({ s with completion := s.completion.map change } : Session σ).Untouched own l :=
  ⟨h.line, h.offers.engine change hook⟩

theorem run (spares : SparesLine call own) {p : Program σ} (ownp : own p) (h : s.Untouched own l) :
    (call p).Leaves s (fun _ => Untouched own l) fun _ t => t.editor.line = l :=
  (spares p ownp s h.offers).weaken (fun _ _ ht => ⟨ht.2.trans h.line, ht.1⟩)
    fun _ _ ht => ht.trans h.line

end Session.Untouched

def Session.asked (s : Session σ) (call : Program σ → Act σ Reply) :
    Except Interrupt (List String) × Session σ :=
  (completeWord call s.editor.line).result (s.onEditor fun e => { e with afterReturn := false })

theorem result_pressKey_tab (installed : s.editor.installed = true) :
    (pressKey call .tab).result s =
      (completeKey call).result (s.onEditor fun e => { e with afterReturn := false }) := by
  simp only [pressKey, result_get_bind, installed]
  rfl

theorem result_tab_of_error {i : Interrupt} (installed : s.editor.installed = true)
    (engine : s.completion.isNone = false) (asked : s.asked call = (.error i, t)) :
    (pressKey call .tab).result s = (.error i, t) := by
  have searched : (completeWord call s.editor.line).result
      (s.onEditor fun e => { e with afterReturn := false }) = (.error i, t) := asked
  rw [result_pressKey_tab installed]
  simp only [completeKey, result_get_bind, onEditor] at searched ⊢
  rw [engine, if_neg Bool.false_ne_true, result_bind, searched]

theorem result_tab_of_ok (installed : s.editor.installed = true)
    (engine : s.completion.isNone = false) (asked : s.asked call = (.ok found, t))
    (spared : t.editor.line = s.editor.line) :
    (pressKey call .tab).result s = (Completion.outcome s.editor.line found).ended call
      (String.ofList (Completion.word s.editor.line.before)) found t := by
  have searched : (completeWord call s.editor.line).result
      (s.onEditor fun e => { e with afterReturn := false }) = (.ok found, t) := asked
  rw [result_pressKey_tab installed]
  simp only [completeKey, result_get_bind, onEditor] at searched ⊢
  rw [engine, if_neg Bool.false_ne_true, result_bind, searched]
  rcases found with _ | ⟨a, _ | ⟨b, found⟩⟩
  · rfl
  · simp only [Completion.outcome, Completion.Outcome.ended, result_modify, spared,
      Completion.insert_deleteBefore_word, List.append_assoc, onEditor]
  · simp only [Completion.outcome]
    split
    · exact Completion.result_showCompletions_ended ..
    · simp only [Completion.Outcome.ended, result_modify, Editor.insertText, Line.insert, spared,
        onEditor]

/-- A command with two arguments, which begin alike. -/
def steerCommand : Command.Entry (Program Unit) :=
  { name := "steer", handler := fun _ => .skip
    generator := some fun _ n => .done (.candidate (["northeast", "northwest"][n]?)) }

end LineShell
