import LineShell.Proofs.Switchboard
import LineShell.Session.EventLoop

/-!
# The input of a shell among the sources

What a shell does about its input, one of several sources does. A shell hears its input, and besides
it only sources that it has given up without the loop ceasing to watch for them.
-/

namespace LineShell

open Act Session

section

open Input Switchboard

variable {σ : Type} {s : Session σ} {b : Switchboard} {d : Nat}

/-- Hands what has arrived to a source, which is the input if there is one. -/
def Session.taking (s : Session σ) (source : Source) (bytes : List UInt8) : Session σ :=
  { s with
    reader := some (source.receive bytes).2
    input := s.input.map fun
      | .source _ => .source (source.receive bytes).2
      | .unknown => .unknown }

def Session.heed : Source.Arrival → Act σ Unit
  | .text text => do let _ ← (Program.single (.feed (String.ofList text))).execute
  | .nothing => return
  | .hangUp => modify hangUp

/-- A reading hands on what the source has heard, and does nothing else behind it. -/
theorem result_readInput (s : Session σ) (source : Source) :
    (readInput source).result s = (heed (source.receive s.channel.read.1).1).result
      ({ s with channel := s.channel.read.2 }.taking source s.channel.read.1) := by
  simp only [readInput, result_get_bind, result_modify_bind, taking]
  cases (source.receive s.channel.read.1).1 <;> rfl

/-- What a shell does about its input at a turn, its channel being that of one descriptor. What it
hears is handed on afterwards. -/
def Session.inputTurn (s : Session σ) (u : Turn) : Session σ :=
  let s := { s with channel := s.channel.refusing u.refusals }
  match u.move with
  | .attach descriptor => ((attach descriptor).result s).2
  | .detach => (detach.result s).2
  | .reading _ bytes =>
    match s.reader with
    | none => s
    | some source => s.taking source bytes
  | _ => s

/-- The input, the reader and the channel of a shell are those of sources, but for what has arrived
and has not been read. -/
structure Input.Switchboard.Plugged (b : Switchboard) (d : Nat) (input : Option Attachment)
    (reader : Option Source) (p : Channel) : Prop where
  channel : ∀ r, p.refusing r = ((b.channels d).refusing r).holding p.queue
  input : match b.attached with
    | none => input = none
    | some n => ∃ source, b.sources[n]? = some source ∧ source.descriptor = d ∧
        source.isOpen = true ∧ input = some (.source source) ∧ reader = some source ∧
        b.readers d = some n
  reader : reader.map Source.mouth = (b.readers d).bind fun n => b.sources[n]?.map Source.mouth

/-- The input of a shell that has been started is a source, if it has one. -/
structure Session.Plugged (s : Session σ) (d : Nat) (b : Switchboard) : Prop where
  running : s.loop.isSome
  plugged : b.Plugged d s.input s.reader s.channel

/-- An attempt to take an input leaves the shell with the source if it could be opened. -/
theorem result_attach (idle : s.input = none) (running : s.loop.isSome) {descriptor : Nat}
    {o : Outcome} (opened : (Source.mk descriptor false none .start).openOn s.channel = o) :
    let t := ((attach descriptor).result s).2
    t.loop = s.loop ∧ t.channel = o.channel ∧
      t.input = (if o.failure.isNone then some (.source o.source) else none) ∧
      t.reader = if o.failure.isNone then some o.source else s.reader := by
  obtain ⟨_, _, _, h⟩ := logAll_frame { s with channel := o.channel } o.events
  have present : s.loop.isNone = false := by rw [← Option.not_isSome, running, Bool.not_true]
  simp only [attach, result_get_bind]
  rw [if_neg (by simp [idle]), if_neg (by simp [present]), opened]
  simp only [result_modify_bind, h]
  cases o.failure with
  | some f => exact ⟨rfl, rfl, idle, rfl⟩
  | none =>
      obtain ⟨_, _, _, h'⟩ := log_frame (σ := σ) _ _
      simp only [result_modify_bind, result_pure]
      rw [h']
      exact ⟨rfl, rfl, rfl, rfl⟩

/-- A shell that gives its input up has none; it goes on being read if the loop refuses to cease
watching. -/
theorem result_detach {source : Source} (attached : s.input = some (.source source)) {o : Outcome}
    (closed : source.closeOn s.channel = o) :
    let t := (detach.result s).2
    t.loop = s.loop ∧ t.channel = o.channel ∧ t.input = none ∧
      t.reader = if o.failure.isNone then none else s.reader := by
  obtain ⟨_, _, _, h⟩ := logAll_frame { s with input := none, channel := o.channel } o.events
  simp only [detach, result_get_bind, attached, closed]
  simp only [result_modify_bind, h]
  cases o.failure with
  | some f => exact ⟨rfl, rfl, rfl, rfl⟩
  | none =>
      obtain ⟨_, _, _, h'⟩ := log_frame (σ := σ) _ _
      simp only [result_modify_bind, result_pure]
      rw [h']
      exact ⟨rfl, rfl, rfl, rfl⟩

theorem Input.Switchboard.Plugged.opened {reader : Option Source} {p : Channel} {r : Refusals}
    (plugged : b.Plugged d none reader p) (wired : b.Wired) (free : b.attached = none) {o : Outcome}
    (opened : (Source.mk d false none .start).openOn (p.refusing r) = o) :
    (b.turn ⟨.attach d, r⟩).Plugged d (if o.failure.isNone then some (.source o.source) else none)
      (if o.failure.isNone then some o.source else reader) o.channel := by
  obtain ⟨channel, -, reader⟩ := plugged
  rw [channel r, Source.openOn_holding] at opened
  subst opened
  obtain ⟨failure, isOpen, -⟩ := Source.openOn_eq
    (show (Source.mk d false none .start).isOpen = false from rfl) ((b.channels d).refusing r)
  generalize opened : (Source.mk d false none .start).openOn ((b.channels d).refusing r) = o
    at failure isOpen
  rw [Channel.loopFaults_refusing] at failure isOpen
  have found := found_add b d
  have new : ((b.add d).opened r b.sources.length).sources[b.sources.length]? = some o.source := by
    rw [Switchboard.opened, sources_call, if_pos rfl, found, Option.map_some]
    exact congrArg (fun o => some o.source) opened
  have left : ((b.add d).opened r b.sources.length).channels d = o.channel :=
    (channels_call found _ _).trans (congrArg Outcome.channel opened)
  have known : ((b.add d).opened r b.sources.length).readers d =
      if (r.loop.lookup .watch).isNone then some b.sources.length else b.readers d :=
    (readers_opened found).trans (if_congr (by simp) rfl rfl)
  have descriptor : o.source.descriptor = d :=
    congrArg Prod.fst (opened ▸ Source.mouth_openOn _ _ : o.source.mouth = (d, .start))
  have at_new : ((b.add d).opened r b.sources.length).isOpen b.sources.length = o.source.isOpen := by
    rw [Switchboard.isOpen, new, Option.any_some]
  have unattached : ((b.add d).opened r b.sources.length).attached = none :=
    attached_call.trans free
  simp only [Switchboard.turn, free, Option.isSome_none, Bool.false_eq_true, if_false, at_new]
  simp only [Outcome.holding, failure, isOpen]
  by_cases granted : (r.loop.lookup .watch).isNone = true
  · rw [if_pos granted] at known
    rw [if_pos granted, if_pos granted, if_pos granted]
    refine ⟨fun r' => congrArg (fun q => (q.holding p.queue).refusing r') left.symm,
      ⟨o.source, new, descriptor, isOpen.trans granted, rfl, rfl, known⟩, ?_⟩
    change _ = (((b.add d).opened r b.sources.length).readers d).bind _
    rw [known, Option.bind_some, new]
  · rw [if_neg granted] at known
    rw [if_neg granted, if_neg granted, if_neg granted]
    refine ⟨fun r' => congrArg (fun q => (q.holding p.queue).refusing r') left.symm,
      by rw [unattached], ?_⟩
    rw [known, reader]
    refine Option.bind_congr fun m reads => ?_
    obtain ⟨source, there, -⟩ := Option.map_eq_some_iff.mp (wired d m reads)
    rw [Switchboard.opened, mouth_call Source.mouth_openOn, sources_add there, there]

/-- A source that is closed may still be known to the loop. -/
theorem Input.Switchboard.Plugged.closed {reader : Option Source} {p : Channel} {r : Refusals}
    {source : Source} (plugged : b.Plugged d (some (.source source)) reader p) {o : Outcome}
    (closed : source.closeOn (p.refusing r) = o) :
    (b.turn ⟨.detach, r⟩).Plugged d none (if o.failure.isNone then none else reader) o.channel := by
  obtain ⟨channel, input, reader⟩ := plugged
  rw [channel r, Source.closeOn_holding] at closed
  subst closed
  cases attached : b.attached with
  | none => rw [attached] at input; cases input
  | some n =>
      rw [attached] at input
      obtain ⟨_, found, rfl, isOpen, ⟨⟩, -, reads⟩ := input
      have failure := source.failure_closeOn ((b.channels source.descriptor).refusing r)
      rw [if_pos isOpen, Channel.loopFaults_refusing] at failure
      simp only [Switchboard.turn, attached]
      generalize same : ({ b with attached := none } : Switchboard) = c
      have there : c.sources[n]? = some source := by rw [← same]; exact found
      refine ⟨fun r' => ?_, ?_, ?_⟩
      · rw [Switchboard.closed, channels_call there, ← same]
        rfl
      · rw [Switchboard.closed, attached_call, ← same]
      · rw [readers_closed there]
        simp only [Outcome.holding, failure]
        by_cases granted : (r.loop.lookup .unwatch).isNone = true
        · rw [if_pos granted, if_pos ⟨trivial, isOpen, granted⟩]
          rfl
        · rw [if_neg granted, if_neg (fun h => granted h.2.2), ← same, reader]
          refine Option.bind_congr fun m reads => ?_
          rw [Switchboard.closed, mouth_call Source.mouth_closeOn]

/-- Who reads for the channel of a shell, and what it can hear. -/
theorem Input.Switchboard.Plugged.reads {input : Option Attachment} {source : Source} {p : Channel}
    (plugged : b.Plugged d input (some source) p) :
    ∃ n source', b.readers d = some n ∧ b.sources[n]? = some source' ∧
      source'.mouth = source.mouth := by
  obtain ⟨n, known, there⟩ := Option.bind_eq_some_iff.mp plugged.reader.symm
  obtain ⟨source', found, same⟩ := Option.map_eq_some_iff.mp there
  exact ⟨n, source', known, found, same⟩

theorem Session.Plugged.taking {source : Source} (plugged : s.Plugged d b)
    (present : s.reader = some source) (bytes : List UInt8) (r : Refusals) :
    (s.taking source bytes).Plugged d (b.turn ⟨.reading d bytes, r⟩) := by
  obtain ⟨running, plugged⟩ := plugged
  rw [present] at plugged
  obtain ⟨n, source', known, found, same⟩ := plugged.reads
  have taken : (b.received n bytes).sources[n]? = some (source'.receive bytes).2 := by
    rw [sources_received, if_pos rfl, found, Option.map_some]
  refine ⟨running, ?_⟩
  simp only [Switchboard.turn, known]
  refine ⟨plugged.channel, ?_, ?_⟩
  · have input := plugged.input
    change match b.attached with | none => _ | some n => _
    cases attached : b.attached with
    | none =>
        rw [attached] at input
        simp only [Session.taking, input, Option.map_none]
    | some m =>
        rw [attached] at input
        obtain ⟨_, there, descriptor, isOpen, present', unique, known'⟩ := input
        obtain rfl := Option.some.inj unique
        obtain rfl := Option.some.inj (known.symm.trans known')
        obtain rfl := Option.some.inj (found.symm.trans there)
        obtain ⟨_, h⟩ := source'.source_receive bytes
        refine ⟨_, taken, by rw [h, descriptor], by rw [h, isOpen], ?_, rfl, known⟩
        simp only [Session.taking, present', Option.map_some]
  · change some (source.receive bytes).2.mouth = (b.readers d).bind _
    rw [known, Option.bind_some, taken, Option.map_some]
    exact congrArg some (Source.mouth_receive same bytes).symm

theorem Input.Switchboard.Plugged.unread {input : Option Attachment} {p : Channel}
    (plugged : b.Plugged d input none p) (wired : b.Wired) : b.readers d = none := by
  cases known : b.readers d with
  | none => rfl
  | some n =>
      obtain ⟨source, found, -⟩ := Option.map_eq_some_iff.mp (wired d n known)
      have silent := plugged.reader
      rw [known, Option.bind_some, found] at silent
      cases silent

theorem Session.Plugged.inputTurn (plugged : s.Plugged d b) (wired : b.Wired) {u : Turn}
    (own : u.OfShellOn d) : (s.inputTurn u).Plugged d (b.turn u) := by
  obtain ⟨running, plug⟩ := plugged
  obtain ⟨move, r⟩ := u
  have refusing : ({ s with channel := s.channel.refusing r } : Session σ).Plugged d b :=
    ⟨running, plug.channel, plug.input, plug.reader⟩
  cases move with
  | create | opening | closing => exact own.elim
  | attach e =>
      obtain rfl : e = d := own
      have input := plug.input
      simp only [Session.inputTurn]
      cases attached : b.attached with
      | none =>
          rw [attached] at input
          obtain ⟨loop, channel, taken, reader⟩ := @result_attach _
            { s with channel := s.channel.refusing r } input running e _ rfl
          refine ⟨by rw [loop]; exact running, ?_⟩
          rw [channel, taken, reader]
          exact (input ▸ plug).opened wired attached rfl
      | some n =>
          rw [attached] at input
          obtain ⟨_, -, -, -, present, -⟩ := input
          have kept : (attach e).result { s with channel := s.channel.refusing r } =
              (.ok false, { s with channel := s.channel.refusing r }) := by
            simp only [attach, result_get_bind, present, Option.isSome_some, if_true]
            rfl
          rw [kept]
          simp only [Switchboard.turn, attached, Option.isSome_some, if_true]
          exact refusing
  | detach =>
      have input := plug.input
      simp only [Session.inputTurn]
      cases attached : b.attached with
      | none =>
          rw [attached] at input
          have kept : detach.result { s with channel := s.channel.refusing r } =
              (.ok false, { s with channel := s.channel.refusing r }) := by
            simp only [detach, result_get_bind, input]
            rfl
          rw [kept]
          simp only [Switchboard.turn, attached]
          exact refusing
      | some n =>
          rw [attached] at input
          obtain ⟨source, -, -, -, present, -⟩ := input
          obtain ⟨loop, channel, given, reader⟩ := @result_detach _
            { s with channel := s.channel.refusing r } source present _ rfl
          refine ⟨by rw [loop]; exact running, ?_⟩
          rw [channel, given, reader]
          exact (present ▸ plug).closed rfl
  | reading e bytes =>
      obtain rfl : e = d := own
      simp only [Session.inputTurn]
      cases present : s.reader with
      | none =>
          have unread := (present ▸ plug : b.Plugged e s.input none s.channel).unread wired
          simp only [Switchboard.turn, unread]
          exact present ▸ refusing
      | some source => exact refusing.taking present bytes r

def Session.inputTurns (s : Session σ) (past : List Turn) : Session σ :=
  past.foldr (fun u t => t.inputTurn u) s

theorem plugged_behind (running : s.loop.isSome) (idle : s.input = none) (unread : s.reader = none)
    {past : List Turn} (own : ∀ u ∈ past, u.OfShellOn d) :
    (s.inputTurns past).Plugged d (behind (fun _ => s.channel) past) := by
  induction past with
  | nil => exact ⟨running, fun _ => rfl, idle, by rw [inputTurns, List.foldr_nil, unread]; rfl⟩
  | cons u past ih =>
      exact (ih fun v hv => own v (List.mem_cons_of_mem _ hv)).inputTurn wired_behind
        (own u (List.mem_cons_self ..))

theorem readInput_of_plugged {source : Source} (plugged : s.Plugged d b)
    (present : s.reader = some source) : ∃ t : Session σ,
      t.Plugged d (b.turn ⟨.reading d s.channel.read.1, {}⟩) ∧
      (readInput source).result s =
        (heed ((b.hears d s.channel.read.1).elim .nothing (·.2))).result t := by
  obtain ⟨running, plug⟩ := plugged
  obtain ⟨n, source', known, found, same⟩ := (present ▸ plug).reads
  have read : ({ s with channel := s.channel.read.2 } : Session σ).Plugged d b :=
    ⟨running, fun r => congrArg (·.holding s.channel.read.2.queue) (plug.channel r), plug.input,
      plug.reader⟩
  refine ⟨_, read.taking present _ _, ?_⟩
  have heard := (Source.receive_congr (Prod.mk.inj same).2 s.channel.read.1).1
  rw [result_readInput, hears, known]
  simp only [found, heard]
  split
  · rename_i silent
    rw [silent]
    rfl
  · rfl

/-- Who is heard, of sources that are opened, closed and read in any order, the loop and the terminal
refusing any calls. -/
structure DeliveryLaw (σ : Type) (channels : Nat → Channel) : Prop where
  /-- Who is heard is open, or is stranded. -/
  heard : ∀ past descriptor bytes n a, (behind channels past).hears descriptor bytes = some (n, a) →
    (behind channels past).isOpen n = true ∨ Stranded channels n past
  /-- A source is stranded only if the loop has refused to cease watching. -/
  refused : ∀ past n, Stranded channels n past →
    ∃ u ∈ past, u.refusals.loop.lookup .unwatch ≠ none
  /-- From then on it is closed, and it is heard as before. -/
  stranded : ∀ past u n, u.Strands (behind channels past) n →
    (behind channels (u :: past)).isOpen n = false ∧ ∀ descriptor bytes,
      (behind channels (u :: past)).hears descriptor bytes =
        (behind channels past).hears descriptor bytes
  /-- Of the sources of a shell none is open but its input. -/
  single : ∀ past n, (∀ u ∈ past, u.OfShell) → (behind channels past).isOpen n = true →
    (behind channels past).attached = some n
  /-- The input of a shell is one of its sources, and it hands on what is heard of them. -/
  shell : ∀ (s : Session σ) descriptor past, channels = (fun _ => s.channel) → s.loop.isSome →
    s.input = none → s.reader = none → (∀ u ∈ past, u.OfShellOn descriptor) →
    let b := behind channels past
    let t := s.inputTurns past
    t.Plugged descriptor b ∧ ∀ source, t.reader = some source → ∃ t' : Session σ,
      t'.Plugged descriptor (b.turn ⟨.reading descriptor t.channel.read.1, {}⟩) ∧
      (readInput source).result t =
        (heed ((b.hears descriptor t.channel.read.1).elim .nothing (·.2))).result t'

/-- A source that is closed is heard only if the loop has refused to cease watching for it; then it
is heard on. -/
theorem deliveryLaw (σ : Type) (channels : Nat → Channel) : DeliveryLaw σ channels where
  heard _ _ _ _ _ h := stranded_of_known (readers_of_hears h)
  refused _ _ h := h.refused
  stranded _ _ _ h := hears_of_strands h
  single _ n shell isOpen := sole_behind shell n isOpen
  shell s _ past same running idle unread own := by
    subst same
    have plugged := plugged_behind running idle unread own
    exact ⟨plugged, fun source present => readInput_of_plugged plugged present⟩

/-- A shell gives up its input, which the loop goes on watching, and takes another one; latest
first. -/
def strandingTurns : List Turn :=
  [⟨.attach 7, {}⟩, ⟨.detach, { loop := [(.unwatch, .raised .runtime "unavailable")] }⟩,
    ⟨.attach 8, {}⟩]

/-- Two sources are heard then, the one that is closed and the input. -/
theorem hears_stranded :
    let b := behind (fun _ => {}) strandingTurns
    b.attached = some 1 ∧ b.hears 8 [97] = some (0, .text ['a']) ∧
      b.hears 7 [98] = some (1, .text ['b']) ∧ b.isOpen 0 = false ∧
      Stranded (fun _ => {}) 0 strandingTurns := by
  have heard : (behind (fun _ => {}) strandingTurns).hears 8 [97] = some (0, .text ['a']) := rfl
  have closed : (behind (fun _ => {}) strandingTurns).isOpen 0 = false := rfl
  refine ⟨rfl, heard, rfl, closed, ?_⟩
  exact ((deliveryLaw Unit _).heard _ _ _ _ _ heard).resolve_left (by simp [closed])

end

end LineShell
