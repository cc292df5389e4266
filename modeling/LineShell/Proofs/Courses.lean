import LineShell.Proofs.Runs
import LineShell.Session.EventLoop

/-!
# Courses of a shell

A shell comes along a course by programs that are run one after the other, by signals that are
delivered between them, and by its input, which moves on by itself. Text that arrives is fed by a
program, so the event loop of a shell is such a course. What every change of a program keeps, and
every signal, holds along the course.
-/

namespace LineShell

open Act Session

variable {σ : Type} {rules : Rules} {depth : Nat} {s₀ s : Session σ}

/-! ### The input and the end of a shell -/

/-- A property to which neither the input nor the handlers of the signals matter, and which holds on
when a shell is closed. -/
structure Unattached (P : Session σ → Prop) : Prop where
  inlet : ∀ {s : Session σ} input reader channel, P s → P { s with input, reader, channel }
  handlers : ∀ {s : Session σ}, P s → P { s with bridge := s.bridge.uninstall.bridge }
  torn : ∀ {s : Session σ}, P s → P { s with tornDown := true }
  left : ∀ {s : Session σ}, P s → P s.leaveScreen
  ended : ∀ {s : Session σ}, P s → P { s with loop := none }

namespace Unattached

variable {P : Session σ → Prop}

theorem moved (free : Unattached P) {t : Session σ} (h : Invariant rules P t t)
    (input : Option Attachment) (reader : Option Input.Source) (channel : Input.Channel) :
    Invariant rules P { t with input, reader, channel } { t with input, reader, channel } :=
  ⟨rfl, free.inlet input reader channel h.2.1, h.2.2.congr rfl rfl rfl rfl⟩

theorem attach (free : Unattached P) (st : Stable rules (Invariant rules P)) (descriptor : Nat) :
    Lockstep (Invariant rules P) (Session.attach descriptor) (Invariant rules P)
      fun _ => Invariant rules P := by
  rintro s _ ⟨rfl, hp, hf⟩
  simp only [Session.attach, result_get_bind]
  split
  · exact (ends_ok ..).2 ⟨rfl, hp, hf⟩
  · split
    · exact (ends_error ..).2 ⟨rfl, hp, hf⟩
    · let opened := (Input.Source.mk descriptor false none .start).openOn s.channel
      have logged := st.logAll opened.events
        (free.moved ⟨rfl, hp, hf⟩ s.input s.reader opened.channel)
      simp only [result_modify_bind]
      split
      · exact (ends_error ..).2 logged
      · exact (ends_ok ..).2 (st.log _ (free.moved logged _ _ _))

theorem detach (free : Unattached P) (st : Stable rules (Invariant rules P)) :
    Lockstep (Invariant rules P) Session.detach (Invariant rules P)
      fun _ => Invariant rules P := by
  rintro s _ ⟨rfl, hp, hf⟩
  simp only [Session.detach, result_get_bind]
  split
  · exact (ends_ok ..).2 ⟨rfl, hp, hf⟩
  · exact (ends_ok ..).2 (free.moved ⟨rfl, hp, hf⟩ none s.reader s.channel)
  · rename_i source _
    let closed := source.closeOn s.channel
    have logged := st.logAll closed.events
      (free.moved ⟨rfl, hp, hf⟩ none s.reader closed.channel)
    simp only [result_modify_bind]
    split
    · exact (ends_error ..).2 logged
    · exact (ends_ok ..).2 (st.log _ (free.moved logged _ none _))

theorem uninstall (free : Unattached P) (st : Stable rules (Invariant rules P))
    (h : Invariant rules P s s) :
    Ends (Invariant rules P) (fun _ => Invariant rules P)
      ((adoptBridge s.bridge.uninstall).result s) ((adoptBridge s.bridge.uninstall).result s) := by
  have gone : Invariant rules P { s with bridge := s.bridge.uninstall.bridge }
      { s with bridge := s.bridge.uninstall.bridge } :=
    ⟨rfl, free.handlers h.2.1, h.2.2.congr rfl rfl rfl rfl⟩
  have reported := Steady.foldl (f := reportLine) (R := Invariant rules P)
    (fun line _ _ ht => st.change ht (.report line)) s.bridge.uninstall.lines gone
  have logged := st.logAll s.bridge.uninstall.events reported
  simp only [adoptBridge, result_modify_bind]
  split
  · exact (ends_error ..).2 logged
  · exact (ends_ok ..).2 logged

theorem tearDown (free : Unattached P) (st : Stable rules (Invariant rules P))
    {call : Program σ → Act σ Reply} (hc : Runs rules (Invariant rules P) call) :
    Lockstep (Invariant rules P) (Session.tearDown call) (Invariant rules P)
      fun _ => Invariant rules P := by
  rintro s _ ⟨rfl, hp, hf⟩
  simp only [Session.tearDown, result_get_bind]
  split
  · exact (ends_ok ..).2 ⟨rfl, hp, hf⟩
  · simp only [result_modify_bind]
    have begun : Invariant rules P { s with tornDown := true } { s with tornDown := true } :=
      ⟨rfl, free.torn hp, hf.congr rfl rfl rfl rfl⟩
    refine Ends.bind ((st.release hc "" begun).weaken (fun _ _ ht => ht) fun _ _ _ ht => ht.1) ?_
    intro _ t t' ht
    refine Ends.bind (free.detach st t t' ht) fun _ u u' hu => ?_
    obtain rfl := hu.1
    simp only [result_get_bind]
    refine Ends.bind (free.uninstall st hu) ?_
    rintro _ v _ ⟨rfl, hv, follows⟩
    refine Ends.closeDown rfl ⟨rfl, free.left hv, follows.congr rfl rfl rfl rfl⟩ ?_
    rintro w _ ⟨rfl, hw, follows⟩
    exact ⟨rfl, free.ended hw, follows.congr rfl rfl rfl rfl⟩

/-- A property that changes, keys and edits keep is kept by all programs that keep to the rules. -/
theorem toClosed (free : Unattached P) (change : ∀ {s f}, P s → Change rules s f → P (f s))
    (keys : KeysPreserve rules P P fun _ => P)
    (edit : ∀ {s op f}, P s → rules.uses op → op.edits? = some f → P (s.onEditor f))
    (quit : ∀ {s}, P s → P (s.onEditor fun e => ((e.insertText "quit".toList).redisplay).newRow))
    (blank : ∀ {s}, P s → P (s.onEditor (·.blank)))
    (resume : ∀ {s} line, P s → P (s.onEditor (·.resume line))) :
    Closed rules (Invariant rules P) := by
  have st : Stable rules (Invariant rules P) := .ofInvariant change
  have edited : ∀ {s s' : Session σ} {f}, (P s → P (s.onEditor f)) → Invariant rules P s s' →
      Invariant rules P (s.onEditor f) (s'.onEditor f) := by
    rintro s _ f hf ⟨rfl, hp, follows⟩
    exact ⟨rfl, hf hp, follows.congr rfl rfl rfl rfl⟩
  exact .ofKeys (keys.keep st st) (fun h allowed edits => edited (edit · allowed edits) h)
    (edited quit) (fun _ => edited blank) (fun line _ => edited (resume line))
    (fun d _ => free.attach st d) (fun _ => free.detach st) fun _ => free.tearDown st

end Unattached

/-! ### Signals -/

structure Delivery (σ : Type) where
  shell : Session σ
  signal : Signal

namespace Delivery

/-- The signal asks the shell to end. -/
def ends (d : Delivery σ) : Bool :=
  !d.shell.bridge.terminated &&
    match d.signal with
    | .interrupt => d.shell.input.isNone
    | .terminate => true
    | .hangUp => false

/-- The signal throws the edit line away, and the shell goes on. -/
def clears (d : Delivery σ) : Bool := d.signal = .interrupt && d.shell.input.isSome

theorem first_of_ends {d : Delivery σ} (ends : d.ends = true) :
    d.shell.bridge.terminated = false := by
  simp only [Delivery.ends, Bool.and_eq_true, Bool.not_eq_true'] at ends
  exact ends.1

end Delivery

/-- The first signal that ends a shell is noted and logged, the line is thrown away, and the shell
quits. -/
theorem Session.terminate_of_first (first : s.bridge.terminated = false) :
    s.terminate = (({ s with bridge := { s.bridge with terminated := true } } : Session σ).log
      ⟨.info, "Termination requested by signal", []⟩).discardLine.quit :=
  if_neg (by simp [first])

theorem Session.terminate_of_latched (latched : s.bridge.terminated = true) : s.terminate = s :=
  if_pos latched

/-- A signal ends the shell, or throws the line away, or does nothing. -/
theorem receiveSignal_cases (s : Session σ) (signal : Signal) :
    (Delivery.ends ⟨s, signal⟩ = true ∧ Delivery.clears ⟨s, signal⟩ = false ∧
      s.receiveSignal signal = s.terminate) ∨
    (Delivery.ends ⟨s, signal⟩ = false ∧ Delivery.clears ⟨s, signal⟩ = true ∧
      s.receiveSignal signal = s.discardLine.onEditor (·.redisplay)) ∨
    (Delivery.ends ⟨s, signal⟩ = false ∧ Delivery.clears ⟨s, signal⟩ = false ∧
      s.receiveSignal signal = s) := by
  cases latched : s.bridge.terminated with
  | true =>
      have idle := terminate_of_latched latched
      cases signal with
      | interrupt => cases h : s.input <;> simp [Delivery.ends, Delivery.clears, latched, h,
          receiveSignal, idle]
      | terminate => simp [Delivery.ends, Delivery.clears, latched, receiveSignal, idle]
      | hangUp => simp [Delivery.ends, Delivery.clears, receiveSignal]
  | false =>
      cases signal with
      | interrupt => cases h : s.input <;> simp [Delivery.ends, Delivery.clears, latched, h,
          receiveSignal]
      | terminate => simp [Delivery.ends, Delivery.clears, latched, receiveSignal]
      | hangUp => simp [Delivery.ends, Delivery.clears, receiveSignal]

theorem Session.Follows.receiveSignal (h : s.Follows rules) (signal : Signal) :
    (s.receiveSignal signal).Follows rules := by
  obtain ⟨ends, -, same⟩ | ⟨-, -, same⟩ | ⟨-, -, same⟩ := receiveSignal_cases s signal <;> rw [same]
  · obtain ⟨_, _, _, framed⟩ := terminate_frame (Delivery.first_of_ends ends)
    rw [framed]
    exact h.congr rfl rfl rfl rfl
  · exact h.congr rfl rfl rfl rfl
  · exact h

/-! ### Courses -/

/-- The states that courses of a shell reach, programs keeping to rules and leading to others down
to a depth, with the signals that have been delivered on the way. -/
inductive Course (rules : Rules) (depth : Nat) (s₀ : Session σ) :
    List (Delivery σ) → Session σ → Prop
  | start : Course rules depth s₀ [] s₀
  /-- A program is run, and may be given up. -/
  | program {ds : List (Delivery σ)} {s t : Session σ} {r : Except Interrupt Reply}
      (before : Course rules depth s₀ ds s) {p : Program σ} (follows : p.Follows rules true)
      (run : (p.exec depth).result s = (r, t)) : Course rules depth s₀ ds t
  | signal {ds : List (Delivery σ)} {s : Session σ} (before : Course rules depth s₀ ds s)
      (signal : Signal) : Course rules depth s₀ (ds ++ [⟨s, signal⟩]) (s.receiveSignal signal)
  /-- Bytes arrive at the channel of the input, or have been read from it. -/
  | inlet {ds : List (Delivery σ)} {s : Session σ} (before : Course rules depth s₀ ds s)
      {input : Option Attachment} (same : input.isSome = s.input.isSome)
      (reader : Option Input.Source) (channel : Input.Channel) :
      Course rules depth s₀ ds { s with input, reader, channel }

namespace Course

variable {ds : List (Delivery σ)}

/-- A property of the signals delivered so far and the present state that programs and signals keep
holds along a course. -/
theorem invariant {P : List (Delivery σ) → Session σ → Prop} (course : Course rules depth s₀ ds s)
    (programs : ∀ ds, Closed rules (Invariant rules (P ds)))
    (signals : ∀ {ds s} signal, P ds s → s.Follows rules →
      P (ds ++ [⟨s, signal⟩]) (s.receiveSignal signal))
    (inlets : ∀ {ds} {s : Session σ} {input reader channel}, input.isSome = s.input.isSome →
      P ds s → P ds { s with input, reader, channel })
    (h₀ : P [] s₀) (follows : s₀.Follows rules) : P ds s ∧ s.Follows rules := by
  induction course with
  | start => exact ⟨h₀, follows⟩
  | program _ hp run ih =>
      -- A program that is given up keeps the property as well; the course goes on behind it.
      have kept := (programs _).left depth hp ih
      rwa [run] at kept
  | signal _ signal ih => exact ⟨signals signal ih.1 ih.2, ih.2.receiveSignal signal⟩
  | inlet _ same reader channel ih => exact ⟨inlets same ih.1, ih.2.congr rfl rfl rfl rfl⟩

theorem single {limit : Nat} (course : Course rules (limit + 1) s₀ ds s) {op : Operation}
    (allowed : rules.uses op) {f : Session σ → Session σ}
    (does : ∀ call, (perform call op).result s = (.ok .nothing, f s)) :
    Course rules (limit + 1) s₀ ds (f s) := by
  have run : ((Program.single op : Program σ).exec (limit + 1)).result s = (.ok .nothing, f s) := by
    change (perform (Program.exec limit) op >>= fun reply => pure reply).result s = _
    rw [result_bind, does]
    rfl
  exact course.program (.perform allowed (.inl rfl) fun reply => .done reply) run

end Course

/-! ### The event loop -/

def Session.afterReading (s : Session σ) (source : Input.Source) : Session σ :=
  let read := (source.receive s.channel.read.1).2
  { s with channel := s.channel.read.2, reader := some read, input := s.input.map fun
    | .source _ => .source read
    | .unknown => .unknown }

/-- From every state of a course an action leads on along the course. -/
def Act.Onward {α : Type} (rules : Rules) (s₀ : Session σ) (m : Act σ α) : Prop :=
  ∀ ds s, Course rules Program.depthLimit s₀ ds s →
    ∃ more, Course rules Program.depthLimit s₀ (ds ++ more) (m.result s).2

namespace Act.Onward

variable {α β : Type}

/-- No signal is delivered. -/
theorem still {ds : List (Delivery σ)} {t : Session σ}
    (course : Course rules Program.depthLimit s₀ ds t) :
    ∃ more, Course rules Program.depthLimit s₀ (ds ++ more) t :=
  ⟨[], by rwa [List.append_nil]⟩

theorem pure (a : α) : Onward rules s₀ (Pure.pure a : Act σ α) :=
  fun _ _ course => still course

theorem bind {m : Act σ α} {k : α → Act σ β} (hm : Onward rules s₀ m)
    (hk : ∀ a, Onward rules s₀ (k a)) : Onward rules s₀ (m >>= k) := by
  intro ds s course
  obtain ⟨more, first⟩ := hm ds s course
  rw [result_bind]
  rcases h : m.result s with ⟨i | a, t⟩
  · rw [h] at first
    exact ⟨more, first⟩
  · rw [h] at first
    obtain ⟨rest, last⟩ := hk a _ t first
    exact ⟨more ++ rest, by rwa [← List.append_assoc]⟩

theorem get_bind {k : Session σ → Act σ β} (hk : ∀ s, Onward rules s₀ (k s)) :
    Onward rules s₀ (get >>= k) :=
  fun ds s course => hk s ds s course

theorem modify {op : Operation} (allowed : rules.uses op) {f : Session σ → Session σ}
    (does : ∀ call s, (perform call op).result s = (.ok .nothing, f s)) :
    Onward rules s₀ (modify f : Act σ PUnit) :=
  fun _ s course => still (course.single allowed (does · s))

theorem execute {p : Program σ} (follows : p.Follows rules true) : Onward rules s₀ p.execute :=
  fun _ _ course => still (course.program follows rfl)

theorem forM {f : α → Act σ PUnit} {l : List α} (hf : ∀ a ∈ l, Onward rules s₀ (f a)) :
    Onward rules s₀ (l.forM f) := by
  induction l with
  | nil => exact pure _
  | cons a l ih =>
      exact (hf a (List.mem_cons_self ..)).bind fun _ =>
        ih fun b hb => hf b (List.mem_cons_of_mem _ hb)

theorem callback {m : Act σ Unit} (hm : Onward rules s₀ m) : Onward rules s₀ (callback m) := by
  refine bind (m := outcome m) hm fun r => ?_
  split
  · exact fun _ _ course => still course
  · exact pure _

variable (feeds : ∀ text, rules.uses (.feed text)) (hangsUp : rules.uses .hangUp)

include feeds hangsUp

/-- A reading takes bytes from the channel and feeds the text that they complete. -/
theorem readInput (source : Input.Source) : Onward (σ := σ) rules s₀ (readInput source) := by
  intro ds s course
  -- The bytes leave the channel before the text is fed: two moves of the course.
  have read : Course rules Program.depthLimit s₀ ds (s.afterReading source) :=
    course.inlet (by simp) _ _
  simp only [Session.readInput, result_get_bind, result_modify_bind]
  split
  · rename_i text _
    have fed : (Program.single (.feed (String.ofList text)) : Program σ).Follows rules true :=
      .perform (feeds _) (.inl rfl) fun reply => .done reply
    exact (execute fed).bind (fun _ => pure _) ds _ read
  · exact still read
  · exact modify hangsUp (fun _ _ => rfl) ds _ read

theorem drain (fuel : Nat) : Onward (σ := σ) rules s₀ (drain fuel) := by
  induction fuel with
  | zero => exact pure _
  | succ fuel ih =>
      refine get_bind fun s => ?_
      split
      · exact pure _
      · split
        · exact pure _
        · exact (callback (readInput feeds hangsUp _)).bind fun _ => ih

omit feeds hangsUp in
theorem turn {occurrences : List (Occurrence σ)}
    (follows : ∀ p, .program p ∈ occurrences → p.Follows rules true) :
    Onward rules s₀ (turn occurrences) := by
  refine callback (forM fun o ho => ?_)
  cases o with
  | bytes data =>
      exact fun _ s course => still (course.inlet rfl s.reader (s.channel.arrive data))
  | signal signal => exact fun _ s course => ⟨[⟨s, signal⟩], course.signal signal⟩
  | program p => exact (execute (follows p ho)).bind fun _ => pure _

variable (quits : rules.uses .quit)

include quits

theorem turns {events : List (List (Occurrence σ))}
    (follows : ∀ os ∈ events, ∀ p, .program p ∈ os → p.Follows rules true) :
    Onward rules s₀ (turns events) := by
  induction events with
  | nil =>
      refine get_bind fun s => ?_
      split
      · exact pure _
      · split
        · exact callback (readInput feeds hangsUp _)
        · exact modify quits fun _ _ => rfl
  | cons occurrences rest ih =>
      obtain ⟨first, later⟩ := List.forall_mem_cons.1 follows
      refine get_bind fun s => ?_
      split
      · exact pure _
      · exact (turn first).bind fun _ => get_bind fun _ =>
          (drain feeds hangsUp _).bind fun _ => ih later

/-- The event loop goes along a course, whatever happens to the shell. -/
theorem loopBody {events : List (List (Occurrence σ))}
    (follows : ∀ os ∈ events, ∀ p, .program p ∈ os → p.Follows rules true) :
    Onward rules s₀ (loopBody events) := by
  refine get_bind fun s => ?_
  split
  · split
    · exact turn (follows _ (List.mem_cons_self ..))
    · exact pure _
  · exact get_bind fun _ =>
      (drain feeds hangsUp _).bind fun _ => turns feeds hangsUp quits follows

end Act.Onward

end LineShell
