import LineShell.Proofs.Collecting
import LineShell.Proofs.Dispatching
import LineShell.Proofs.WrittenLines

/-!
# The warning that completions are cut off

A generator that has had a completion for every number below the limit is not asked for more, and a
warning tells that its completions are cut off. Whether there is a completion for the next number is
not looked at. So the warning also comes when the generator has come to its end just there, and
nothing of it is cut off; before the limit it never comes.
-/

namespace LineShell

open Act Session

variable {σ : Type} {s t : Session σ}

/-! ### Events that can be seen -/

namespace Log

theorem exists_mem_splitOn {sep c : Char} {text : List Char} (member : c ∈ text)
    (solid : c ≠ sep) : ∃ piece ∈ text.splitOn sep, c ∈ piece := by
  induction text with
  | nil => cases member
  | cons d text ih =>
      rw [List.splitOn_cons_eq_if_modifyHead]
      cases cut : text.splitOn sep with
      | nil => exact absurd cut (List.splitOn_ne_nil sep text)
      | cons piece others =>
          rw [cut] at ih
          rcases List.mem_cons.1 member with rfl | later
          · exact ⟨c :: piece, by simp [solid], List.mem_cons_self⟩
          · obtain ⟨found, among, inside⟩ := ih later
            by_cases separates : d = sep
            · exact ⟨found, by simp [separates, among], inside⟩
            · rcases List.mem_cons.1 among with rfl | behind
              · exact ⟨d :: found, by simp [separates], List.mem_cons_of_mem d inside⟩
              · exact ⟨found, by simp [separates, behind], inside⟩

theorem endedLines_concat (text : List Char) : endedLines (text ++ ['\n']) = allLines text := by
  have cut : (text ++ ['\n']).splitOn '\n' = text.splitOn '\n' ++ [[]] :=
    List.splitOnP_append_cons text [] (beq_self_eq_true '\n')
  rw [endedLines, cut, List.dropLast_concat, allLines]

theorem linesOf_ne_nil {message : String} {c : Char} (member : c ∈ message.toList)
    (visible : c ≠ '\n') : linesOf message ≠ [] := by
  obtain ⟨line, among, inside⟩ := exists_mem_splitOn member visible
  have kept : line ∈ allLines message.toList :=
    List.mem_filter.2 ⟨among, by simpa using List.ne_nil_of_mem inside⟩
  rw [linesOf, write_eq, List.nil_append, endedLines_concat]
  simpa using List.ne_nil_of_mem kept

theorem mem_dropRight {p : Char → Bool} {c : Char} {text : List Char} (member : c ∈ text)
    (stays : p c = false) : c ∈ Text.dropRight p text := by
  have either := List.takeWhile_append_dropWhile (p := p) (l := text.reverse) ▸
    List.mem_reverse.2 member
  rcases List.mem_append.1 either with dropped | kept
  · rw [List.all_eq_true.1 List.all_takeWhile c dropped] at stays
    cases stays
  · exact List.mem_reverse.2 kept

theorem mem_console (time : String) (e : Event) : '[' ∈ (e.console time).toList := by
  rw [Event.console, String.toList_ofList]
  refine mem_dropRight ?_ rfl
  simp [String.toList_intercalate, List.intercalate, String.toList_append]

theorem mem_json (time : String) (e : Event) : '\x7b' ∈ (e.json time).toList := by
  simp [Event.json, Json.write]

/-- An event makes a line exactly if it is not below the threshold. -/
theorem Format.linesOf_eq_nil_iff (f : Format) (time : String) (e : Event) :
    f.linesOf time e = [] ↔ e.level.rank < f.threshold := by
  rw [Format.linesOf]
  by_cases dropped : e.level.rank < f.threshold
  · simp [dropped]
  · rw [if_neg dropped]
    refine iff_of_false ?_ dropped
    split
    · exact Log.linesOf_ne_nil (mem_console time e) (by decide)
    · exact Log.linesOf_ne_nil (mem_json time e) (by decide)

end Log

namespace Session

def Logs (s : Session σ) (level : Log.Level) : Prop :=
  ∃ format toScreen, s.host.log = some (format, toScreen) ∧ format.threshold ≤ level.rank

/-- How often something has been written, on the screen or to the error stream. -/
def volume (s : Session σ) : Nat :=
  s.editor.writes.length + s.host.errors.length

theorem volume_logLine (toScreen : Bool) (s : Session σ) (line : String) :
    s.volume < (s.logLine toScreen line).volume := by
  cases toScreen with
  | true =>
      have nonempty : line ++ "\n" ≠ "" := by simp [String.append_eq_empty_iff]
      obtain ⟨_, _, _, printed, -⟩ := printedOnce_printText (s := s) nonempty
      rw [logLine, if_pos rfl, printed]
      simp only [volume, onEditor, List.length_append, List.length_cons]
      omega
  | false =>
      rw [logLine, if_neg Bool.false_ne_true]
      simp only [volume, reportLine, List.length_cons]
      omega

theorem volume_logLines (toScreen : Bool) (s : Session σ) (lines : List String) :
    s.volume + lines.length ≤ (lines.foldl (logLine toScreen) s).volume := by
  induction lines generalizing s with
  | nil => exact Nat.le_refl _
  | cons line lines ih =>
      have first := volume_logLine toScreen s line
      have rest := ih (s.logLine toScreen line)
      rw [List.foldl_cons, List.length_cons]
      omega

/-- Logging an event changes a session exactly if its log takes events of that level. -/
theorem log_ne_self_iff (s : Session σ) (e : Log.Event) : s.log e ≠ s ↔ s.Logs e.level := by
  rw [log, Logs]
  cases s.host.log with
  | none => simp
  | some log =>
      obtain ⟨format, toScreen⟩ := log
      simp only [Option.some.injEq, Prod.mk.injEq, existsAndEq, and_true, true_and]
      by_cases dropped : format.linesOf s.host.logTime e = []
      · have below := (format.linesOf_eq_nil_iff s.host.logTime e).1 dropped
        simp [dropped, below]
      · have taken := mt (format.linesOf_eq_nil_iff s.host.logTime e).2 dropped
        refine iff_of_true (fun same => ?_) (Nat.le_of_not_lt taken)
        have more := volume_logLines toScreen s (format.linesOf s.host.logTime e)
        rw [same] at more
        exact dropped (List.length_eq_zero_iff.1 (by omega))

end Session

/-! ### Where a generator comes to its end -/

theorem Session.Logs.noted {level : Log.Level} (logs : s.Logs level) (seen : String → Nat → σ → σ)
    (text : String) (count : Nat) : (Completion.noted seen text count s).Logs level := logs

namespace Completion

variable {call : Program σ → Act σ Reply} {g : String → Nat → Program σ} {text : String}
  {f : Nat → Option String} {found : List String} {n : Nat}

/-- A function has completions for all numbers below one, and none for that one. -/
structure EndsAt (f : Nat → Option String) (n : Nat) : Prop where
  before : ∀ i < n, (f i).isSome
  nothing : f n = none

/-- Behind the completions that are taken from a function there is another one. -/
def IsCutOff (f : Nat → Option String) : Prop :=
  ∀ i ≤ limit, (f i).isSome

theorem EndsAt.not_isCutOff (ends : EndsAt f n) (bounded : n ≤ limit) : ¬ IsCutOff f := by
  intro goesOn
  have some := goesOn n bounded
  rw [ends.nothing] at some
  cases some

/-- A function that reaches the limit goes on there, or comes to its end. -/
theorem reaches_iff : (∀ i < limit, (f i).isSome) ↔ IsCutOff f ∨ EndsAt f limit := by
  constructor
  · intro reaches
    cases last : f limit with
    | none => exact .inr ⟨reaches, last⟩
    | some c =>
        refine .inl fun i bounded => ?_
        rcases Nat.lt_or_eq_of_le bounded with less | rfl
        · exact reaches i less
        · rw [last]
          rfl
  · rintro (goesOn | ends) i less
    · exact goesOn i (Nat.le_of_lt less)
    · exact ends.before i less

namespace Collected

/-- There is a completion for each number that one was taken for. -/
theorem isSome_of_lt (collected : Collected f found) {i : Nat} (less : i < found.length) :
    (f i).isSome := by
  rw [collected.each i less, List.getElem?_eq_getElem less]
  rfl

theorem length_of_endsAt (collected : Collected f found) (ends : EndsAt f n) (bounded : n ≤ limit) :
    found.length = n := by
  rcases Nat.lt_trichotomy found.length n with less | same | more
  · have nothing := collected.last (Nat.lt_of_lt_of_le less bounded)
    have some := ends.before _ less
    rw [nothing] at some
    cases some
  · exact same
  · have some := collected.isSome_of_lt more
    rw [ends.nothing] at some
    cases some

/-- As many completions as the limit allows are taken exactly from a function that reaches it. -/
theorem full_iff (collected : Collected f found) :
    found.length = limit ↔ IsCutOff f ∨ EndsAt f limit := by
  rw [← reaches_iff]
  constructor
  · intro full i less
    exact collected.isSome_of_lt (by rwa [full])
  · intro reaches
    rcases Nat.lt_or_eq_of_le collected.bounded with less | full
    · have some := reaches _ less
      rw [collected.last less] at some
      cases some
    · exact full

theorem whole (collected : Collected f found) (ends : EndsAt f n) (bounded : n ≤ limit) :
    found.map some = (List.range n).map f := by
  have length := collected.length_of_endsAt ends bounded
  refine List.ext_getElem (by simp [length]) fun i inside _ => ?_
  have less : i < found.length := by simpa using inside
  simp only [List.getElem_map, List.getElem_range, collected.each i less,
    List.getElem?_eq_getElem less]

end Collected

/-! ### The law -/

/-- When completions that are taken from a function for a text are said to be cut off. The session
is `t` behind the last answer, and `u` when they are taken. -/
structure WarningLaw (f : Nat → Option String) (text : String) (found : List String)
    (t u : Session σ) : Prop where
  collected : Collected f found
  /-- The warning is logged if completions are cut off, and also if the function comes to its end
  just at the limit, -/
  warned : IsCutOff f ∨ EndsAt f limit → u = t.log (truncation text)
  /-- and else nothing is. -/
  silent : ¬ (IsCutOff f ∨ EndsAt f limit) → u = t
  /-- Where the log takes warnings, this can be seen. -/
  seen : t.Logs .warning → (u ≠ t ↔ IsCutOff f ∨ EndsAt f limit)
  /-- So it tells whether completions are cut off, unless the end is just at the limit. -/
  reliable : t.Logs .warning → ((u ≠ t ↔ IsCutOff f) ↔ ¬ EndsAt f limit)
  /-- Of a function that comes to its end at the limit or before, nothing is cut off. -/
  whole : ∀ n ≤ limit, EndsAt f n → ¬ IsCutOff f ∧ found.map some = (List.range n).map f

/-- When the completions that are taken from any generator are said to be cut off. -/
structure TruncationLaw (call : Program σ → Act σ Reply) (g : String → Nat → Program σ)
    (text : String) (s : Session σ) : Prop where
  /-- A program that has a completion for each number below the limit is not asked for another one,
  and the warning follows. -/
  full : ∀ found t, Yields call (g text) 0 s found t → found.length = limit →
    (collect call g text limit 0).result s = (.ok found, t.log (truncation text))
  /-- Behind a program that comes to its end before, nothing is logged. -/
  short : ∀ found t, Yields call (g text) 0 s found t → found.length < limit →
    Ends call (g text found.length) t → (collect call g text limit 0).result s =
      match (call (g text found.length)).result t with
      | (.ok _, u) => (.ok found, u)
      | (.error i, u) => (.error i, u)
  /-- Every program does one or the other. -/
  either : ∃ found t, Yields call (g text) 0 s found t ∧
    (found.length = limit ∨ found.length < limit ∧ Ends call (g text found.length) t)
  /-- If it is a function, whose notes tell by which numbers it was asked, the warning does not
  tell the end at the limit from going on. -/
  function : ∀ depth seen f, call = Program.exec (depth + 1) → g = noting seen f →
    ∃ found u, (collect call g text limit 0).result s = (.ok found, u) ∧
      WarningLaw (f text) text found (noted seen text (min limit (found.length + 1)) s) u

theorem warningLaw_of_collected {f : Nat → Option String} {t u : Session σ}
    (collected : Collected f found)
    (left : u = if found.length = limit then t.log (truncation text) else t) :
    WarningLaw f text found t u := by
  have warned (reaches : IsCutOff f ∨ EndsAt f limit) : u = t.log (truncation text) := by
    rw [left, if_pos (collected.full_iff.2 reaches)]
  have silent (stops : ¬ (IsCutOff f ∨ EndsAt f limit)) : u = t := by
    rw [left, if_neg (mt collected.full_iff.1 stops)]
  have seen (logs : t.Logs .warning) : u ≠ t ↔ IsCutOff f ∨ EndsAt f limit := by
    constructor
    · intro changed
      by_contra stops
      exact changed (silent stops)
    · intro reaches
      rw [warned reaches]
      exact (t.log_ne_self_iff _).2 logs
  refine ⟨collected, warned, silent, seen, fun logs => ?_, fun n bounded ends => ?_⟩
  · rw [seen logs]
    constructor
    · intro tells ends
      exact ends.not_isCutOff (Nat.le_refl limit) (tells.1 (.inr ends))
    · intro goesOn
      simp [goesOn]
  · exact ⟨ends.not_isCutOff bounded, collected.whole ends bounded⟩

/-- The warning that completions are cut off follows exactly the last of as many completions as the
limit allows, whether there would be another one or not. -/
theorem truncationLaw (call : Program σ → Act σ Reply) (g : String → Nat → Program σ)
    (text : String) (s : Session σ) : TruncationLaw call g text s where
  full _ _ := collect_of_full
  short _ _ := collect_of_short
  either := by
    obtain ⟨found, t, asked⟩ := asked call g text s
    exact ⟨found, t, asked.yields, (Nat.lt_or_eq_of_le asked.bounded).symm.imp_right fun less =>
      ⟨less, (asked.last less).1⟩⟩
  function := by
    rintro depth seen f rfl rfl
    obtain ⟨found, t, collected, whole, rfl⟩ := result_collect_noting depth seen f text s
    exact ⟨found, _, collected, warningLaw_of_collected whole rfl⟩

def loggingShell : Session Nat :=
  (bareShell [] 0).configureLog

/-- A generator with as many completions as the limit allows, and no more. -/
def endingText (text : String) (n : Nat) : Option String :=
  if n < limit then some text else none

theorem endsAt_endingText (text : String) : EndsAt (endingText text) limit where
  before i less := by simp [endingText, less]
  nothing := by simp [endingText]

/-- The warning comes although all completions are taken. -/
theorem warned_loggingShell : ¬ IsCutOff (endingText "a") ∧ ∃ found t u,
    (collect (Program.exec 1) (noting (fun _ n _ => n + 1) endingText) "a" limit 0).result
      loggingShell = (.ok found, u) ∧
    found.map some = (List.range limit).map (endingText "a") ∧
    t.Logs .warning ∧ u = t.log (truncation "a") ∧ u ≠ t := by
  have ends := endsAt_endingText "a"
  obtain ⟨found, u, collected, law⟩ := (truncationLaw (Program.exec 1)
    (noting (fun _ n _ => n + 1) endingText) "a" loggingShell).function 0 _ _ rfl rfl
  obtain ⟨uncut, whole⟩ := law.whole limit (Nat.le_refl limit) ends
  have logs : loggingShell.Logs .warning :=
    ⟨.ofSettings loggingShell.host.settings.log, false, rfl, by decide +kernel⟩
  have heard := logs.noted (fun _ n _ => n + 1) "a" (min limit (found.length + 1))
  exact ⟨uncut, found, _, u, collected, whole, heard, law.warned (.inr ends),
    (law.seen heard).2 (.inr ends)⟩

end Completion

end LineShell
