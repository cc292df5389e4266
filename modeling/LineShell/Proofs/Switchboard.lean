import LineShell.Proofs.Sources
import Mathlib.Logic.Function.Basic

/-!
# Who is heard

Sources are used side by side; for each descriptor the loop knows at most one reader. A source that
is closed is heard no more, unless the loop refuses to stop watching for it: whatever arrives is
then taken to it as before, until the reader gives way.
-/

namespace LineShell

open Act Session

namespace Input

/-! ### Opening and closing leave most of a source alone -/

namespace Source

theorem source_takeTerminal (source : Source) (p : Channel) :
    ∃ savedMode, (source.takeTerminal p).source = { source with savedMode } := by
  unfold takeTerminal
  split
  · exact ⟨_, rfl⟩
  · simp only
    split <;> exact ⟨_, rfl⟩

theorem source_releaseTerminal (source : Source) (p : Channel) :
    ∃ savedMode, (source.releaseTerminal p).source = { source with savedMode } := by
  unfold releaseTerminal
  split
  · exact ⟨_, rfl⟩
  · simp only
    split <;> exact ⟨_, rfl⟩

theorem source_openOn (source : Source) (p : Channel) :
    ∃ savedMode, (source.openOn p).source = { source with
      savedMode, isOpen := source.isOpen || (p.loopFaults.lookup .watch).isNone } := by
  cases opened : source.isOpen with
  | true =>
      rw [show source.openOn p = { source, channel := p } from if_pos opened]
      exact ⟨source.savedMode, by rw [Bool.true_or, ← opened]⟩
  | false =>
      obtain ⟨-, isOpen, -⟩ := openOn_eq opened p
      have frame : ∃ savedMode isOpen,
          (source.openOn p).source = { source with savedMode, isOpen } := by
        obtain ⟨taken, h⟩ := source.source_takeTerminal p
        unfold openOn
        rw [if_neg (by simp [opened])]
        simp only
        split
        · obtain ⟨released, h'⟩ :=
            (source.takeTerminal p).source.source_releaseTerminal (source.takeTerminal p).channel
          exact ⟨released, source.isOpen, by rw [h', h]⟩
        · exact ⟨taken, true, by rw [h]⟩
      obtain ⟨savedMode, _, h⟩ := frame
      rw [h] at isOpen
      exact ⟨savedMode, by rw [h, Bool.false_or, ← isOpen]⟩

theorem source_closeOn (source : Source) (p : Channel) :
    ∃ savedMode, (source.closeOn p).source = { source with savedMode, isOpen := false } := by
  cases opened : source.isOpen with
  | false =>
      rw [show source.closeOn p = { source, channel := p } from if_pos (by simp [opened])]
      exact ⟨source.savedMode, by rw [← opened]⟩
  | true =>
      unfold closeOn
      rw [if_neg (by simp [opened])]
      simp only
      split <;> exact source_releaseTerminal ..

theorem source_receive (source : Source) (bytes : List UInt8) :
    ∃ decoder, (source.receive bytes).2 = { source with decoder } := by
  unfold receive
  split <;> exact ⟨_, rfl⟩

/-- What is heard of a source depends on what it has received before. -/
theorem receive_congr {source source' : Source} (h : source.decoder = source'.decoder)
    (bytes : List UInt8) : (source.receive bytes).1 = (source'.receive bytes).1 ∧
      (source.receive bytes).2.decoder = (source'.receive bytes).2.decoder := by
  unfold receive
  rw [h]
  split
  · exact ⟨rfl, h⟩
  · exact ⟨rfl, rfl⟩

/-- What a reading depends on. -/
def mouth (source : Source) : Nat × Text.Utf8.State :=
  (source.descriptor, source.decoder)

theorem mouth_openOn (source : Source) (p : Channel) :
    (source.openOn p).source.mouth = source.mouth := by
  obtain ⟨_, h⟩ := source.source_openOn p
  rw [h]
  rfl

theorem mouth_closeOn (source : Source) (p : Channel) :
    (source.closeOn p).source.mouth = source.mouth := by
  obtain ⟨_, h⟩ := source.source_closeOn p
  rw [h]
  rfl

theorem mouth_receive {source source' : Source} (h : source.mouth = source'.mouth)
    (bytes : List UInt8) : (source.receive bytes).2.mouth = (source'.receive bytes).2.mouth := by
  obtain ⟨descriptor, decoder⟩ := Prod.mk.inj h
  obtain ⟨_, h₁⟩ := source.source_receive bytes
  obtain ⟨_, h₂⟩ := source'.source_receive bytes
  have same := (Source.receive_congr decoder bytes).2
  rw [mouth, mouth, same, h₁, h₂]
  exact congrArg (·, _) descriptor

end Source

/-! ### What has arrived is no matter -/

def Channel.holding (p : Channel) (queue : List UInt8) : Channel := { p with queue }

def Outcome.holding (o : Outcome) (queue : List UInt8) : Outcome :=
  { o with channel := o.channel.holding queue }

namespace Source

theorem takeTerminal_holding (source : Source) (p : Channel) (queue : List UInt8) :
    source.takeTerminal (p.holding queue) = (source.takeTerminal p).holding queue := by
  unfold takeTerminal Channel.holding
  simp only
  split
  · rfl
  · split <;> rfl

theorem releaseTerminal_holding (source : Source) (p : Channel) (queue : List UInt8) :
    source.releaseTerminal (p.holding queue) = (source.releaseTerminal p).holding queue := by
  unfold releaseTerminal Channel.holding
  split
  · rfl
  · simp only
    split <;> rfl

theorem openOn_holding (source : Source) (p : Channel) (queue : List UInt8) :
    source.openOn (p.holding queue) = (source.openOn p).holding queue := by
  unfold openOn
  split
  · rfl
  · simp only [takeTerminal_holding]
    rw [show ((source.takeTerminal p).holding queue).channel.loopFaults =
      (source.takeTerminal p).channel.loopFaults from rfl]
    cases (source.takeTerminal p).channel.loopFaults.lookup .watch with
    | none => rfl
    | some f => simp only [Outcome.holding, releaseTerminal_holding]

theorem closeOn_holding (source : Source) (p : Channel) (queue : List UInt8) :
    source.closeOn (p.holding queue) = (source.closeOn p).holding queue := by
  unfold closeOn
  split
  · rfl
  · rw [show (p.holding queue).loopFaults = p.loopFaults from rfl]
    cases p.loopFaults.lookup .unwatch with
    | none => exact releaseTerminal_holding _ { p with watched := false } queue
    | some f => simp only [Outcome.holding, releaseTerminal_holding]

end Source

@[simp] theorem Channel.loopFaults_refusing (p : Channel) (r : Refusals) :
    (p.refusing r).loopFaults = r.loop := rfl

/-! ### Sources side by side -/

/-- Sources, known by their numbers, the channels of their descriptors, and for each descriptor the
source whose reader the loop knows. -/
structure Switchboard where
  sources : List Source := []
  channels : Nat → Channel
  readers : Nat → Option Nat := fun _ => none
  /-- The source that a shell has taken as its input. -/
  attached : Option Nat := none

inductive Move where
  | create (descriptor : Nat)
  | opening (number : Nat)
  | closing (number : Nat)
  /-- The loop reports that a descriptor can be read, or, if there are no bytes, that its input has
  ended. -/
  | reading (descriptor : Nat) (bytes : List UInt8)
  /-- A shell takes an input. -/
  | attach (descriptor : Nat)
  /-- A shell gives its input up. -/
  | detach

/-- A move, some calls of the terminal and of the loop being refused meanwhile. -/
structure Turn where
  move : Move
  refusals : Refusals := {}

namespace Switchboard

def add (b : Switchboard) (descriptor : Nat) : Switchboard :=
  { b with sources := b.sources ++ [{ descriptor }] }

/-- Calls a source. If the call goes well and has opened or closed the source, the loop knows another
reader from now on. -/
def call (b : Switchboard) (r : Refusals) (run : Source → Channel → Outcome) (n : Nat)
    (reader : Option Nat) : Switchboard :=
  match b.sources[n]? with
  | none => b
  | some source =>
    let o := run source ((b.channels source.descriptor).refusing r)
    { b with
      sources := b.sources.set n o.source
      channels := Function.update b.channels source.descriptor o.channel
      readers := if o.source.isOpen != source.isOpen && o.failure.isNone then
        Function.update b.readers source.descriptor reader else b.readers }

def opened (b : Switchboard) (r : Refusals) (n : Nat) : Switchboard :=
  b.call r Source.openOn n (some n)

def closed (b : Switchboard) (r : Refusals) (n : Nat) : Switchboard :=
  b.call r Source.closeOn n none

def received (b : Switchboard) (n : Nat) (bytes : List UInt8) : Switchboard :=
  { b with sources := b.sources.modify n fun s => (s.receive bytes).2 }

def descriptorOf (b : Switchboard) (n : Nat) : Option Nat := b.sources[n]?.map (·.descriptor)

def isOpen (b : Switchboard) (n : Nat) : Bool := b.sources[n]?.any (·.isOpen)

def turn (b : Switchboard) (u : Turn) : Switchboard :=
  match u.move with
  | .create descriptor => b.add descriptor
  | .opening n => b.opened u.refusals n
  | .closing n => b.closed u.refusals n
  | .reading descriptor bytes =>
    match b.readers descriptor with
    | none => b
    | some n => b.received n bytes
  | .attach descriptor =>
    if b.attached.isSome then b
    else
      let n := b.sources.length
      let b := (b.add descriptor).opened u.refusals n
      if b.isOpen n then { b with attached := some n } else b
  | .detach =>
    match b.attached with
    | none => b
    | some n => { b with attached := none }.closed u.refusals n

def behind (channels : Nat → Channel) : List Turn → Switchboard
  | [] => { channels }
  | u :: past => (behind channels past).turn u

/-- The source to which bytes that arrive are taken, and what it hands on: text, or that the input
has ended. -/
def hears (b : Switchboard) (descriptor : Nat) (bytes : List UInt8) :
    Option (Nat × Source.Arrival) :=
  match b.readers descriptor with
  | none => none
  | some n =>
    match b.sources[n]? with
    | none => none
    | some source =>
      if (source.receive bytes).1 = .nothing then none else some (n, (source.receive bytes).1)

end Switchboard

namespace Turn

def closes (u : Turn) (b : Switchboard) : Option Nat :=
  match u.move with
  | .closing n => some n
  | .detach => b.attached
  | _ => none

/-- A turn closes a source that is open, and the loop refuses to stop watching for it. -/
structure Strands (u : Turn) (b : Switchboard) (n : Nat) : Prop where
  closes : u.closes b = some n
  isOpen : b.isOpen n = true
  refused : u.refusals.loop.lookup .unwatch ≠ none

/-- A turn that a shell makes. -/
def OfShell (u : Turn) : Prop :=
  match u.move with
  | .create _ | .opening _ | .closing _ => False
  | _ => True

def OfShellOn (u : Turn) (d : Nat) : Prop :=
  match u.move with
  | .attach descriptor | .reading descriptor _ => descriptor = d
  | .detach => True
  | _ => False

end Turn

namespace Switchboard

/-- A source has been closed without the loop ceasing to watch for it, and since then it has stayed
closed and its reader has been known to the loop. -/
inductive Stranded (channels : Nat → Channel) (n : Nat) : List Turn → Prop
  | closed {u past} : u.Strands (behind channels past) n → Stranded channels n (u :: past)
  | kept {u past} (d : Nat) : Stranded channels n past →
      (behind channels (u :: past)).isOpen n = false →
      (behind channels (u :: past)).readers d = some n → Stranded channels n (u :: past)

/-! ### What one call does -/

variable {b : Switchboard} {r : Refusals} {n m d : Nat} {u : Turn}

theorem sources_call {run : Source → Channel → Outcome} {reader : Option Nat} :
    (b.call r run n reader).sources[m]? = if n = m then b.sources[m]?.map fun s =>
      (run s ((b.channels s.descriptor).refusing r)).source else b.sources[m]? := by
  unfold call
  split
  · rename_i missing
    split
    · rename_i same
      rw [← same, missing]
      rfl
    · rfl
  · rename_i source found
    simp only [List.getElem?_set]
    split
    · rename_i same
      subst same
      rw [found, if_pos (List.getElem?_eq_some_iff.mp found).1]
      rfl
    · rfl

theorem call_of_missing (missing : b.sources[n]? = none) (run : Source → Channel → Outcome)
    (reader : Option Nat) : b.call r run n reader = b := by
  rw [call, missing]

theorem attached_call {run : Source → Channel → Outcome} {reader : Option Nat} :
    (b.call r run n reader).attached = b.attached := by
  unfold call
  split <;> rfl

theorem isOpen_opened : (b.opened r n).isOpen m = if n = m then
    b.sources[m]?.any fun s => s.isOpen || (r.loop.lookup .watch).isNone else b.isOpen m := by
  simp only [isOpen, opened, sources_call]
  split
  · cases b.sources[m]? with
    | none => rfl
    | some s =>
        obtain ⟨_, h⟩ := s.source_openOn ((b.channels s.descriptor).refusing r)
        simp only [Option.map_some, Option.any_some, h]
        rfl
  · rfl

theorem isOpen_closed : (b.closed r n).isOpen m = if n = m then false else b.isOpen m := by
  simp only [isOpen, closed, sources_call]
  split
  · cases b.sources[m]? with
    | none => rfl
    | some s =>
        obtain ⟨_, h⟩ := s.source_closeOn ((b.channels s.descriptor).refusing r)
        simp only [Option.map_some, Option.any_some, h]
  · rfl

/-- The loop gets to know the reader of a source that was closed, if it can watch for it. -/
theorem readers_opened {s : Source} (found : b.sources[n]? = some s) :
    (b.opened r n).readers d =
      if s.descriptor = d ∧ s.isOpen = false ∧ (r.loop.lookup .watch).isNone then some n
      else b.readers d := by
  simp only [opened, call, found]
  rcases Bool.eq_false_or_eq_true s.isOpen with opened | opened
  · simp [Source.openOn, opened]
  · obtain ⟨failure, isOpen, -⟩ :=
      Source.openOn_eq opened ((b.channels s.descriptor).refusing r)
    rw [failure, isOpen, opened]
    by_cases granted : (r.loop.lookup .watch).isNone = true
    · simp [Channel.refusing, granted, Function.update_apply, eq_comm]
    · simp [Channel.refusing, granted]

/-- The loop forgets the reader of a source that was open, unless it refuses to. -/
theorem readers_closed {s : Source} (found : b.sources[n]? = some s) :
    (b.closed r n).readers d =
      if s.descriptor = d ∧ s.isOpen = true ∧ (r.loop.lookup .unwatch).isNone then none
      else b.readers d := by
  obtain ⟨_, h⟩ := s.source_closeOn ((b.channels s.descriptor).refusing r)
  simp only [closed, call, found, h, Source.failure_closeOn]
  rcases Bool.eq_false_or_eq_true s.isOpen with opened | opened
  · by_cases granted : (r.loop.lookup .unwatch).isNone = true
    · simp [opened, Channel.refusing, granted, Function.update_apply, eq_comm]
    · simp [opened, Channel.refusing, granted]
  · simp [opened]

/-- What a call leaves of the sources that are known to the loop can be heard as before. -/
theorem mouth_call {run : Source → Channel → Outcome} {reader : Option Nat}
    (same : ∀ s p, (run s p).source.mouth = s.mouth) (m : Nat) :
    (b.call r run n reader).sources[m]?.map Source.mouth = b.sources[m]?.map Source.mouth := by
  rw [sources_call]
  split
  · rw [Option.map_map]
    exact congrArg (Option.map · _) (funext fun s => same s _)
  · rfl

theorem descriptorOf_eq (b : Switchboard) (n : Nat) :
    b.descriptorOf n = (b.sources[n]?.map Source.mouth).map Prod.fst := by
  rw [Option.map_map]
  rfl

theorem descriptorOf_opened : (b.opened r n).descriptorOf m = b.descriptorOf m := by
  rw [descriptorOf_eq, opened, mouth_call Source.mouth_openOn, ← descriptorOf_eq]

theorem descriptorOf_closed : (b.closed r n).descriptorOf m = b.descriptorOf m := by
  rw [descriptorOf_eq, closed, mouth_call Source.mouth_closeOn, ← descriptorOf_eq]

theorem channels_call {source : Source} (found : b.sources[n]? = some source)
    (run : Source → Channel → Outcome) (reader : Option Nat) :
    (b.call r run n reader).channels source.descriptor =
      (run source ((b.channels source.descriptor).refusing r)).channel := by
  simp only [call, found, Function.update_self]

theorem found_add (b : Switchboard) (d : Nat) :
    (b.add d).sources[b.sources.length]? = some ⟨d, false, none, .start⟩ :=
  List.getElem?_concat_length

theorem sources_add {s : Source} (found : b.sources[m]? = some s) :
    (b.add d).sources[m]? = some s := by
  rw [add, List.getElem?_append_left (List.getElem?_eq_some_iff.mp found).1, found]

theorem isOpen_add : (b.add d).isOpen m = b.isOpen m := by
  unfold isOpen
  cases found : b.sources[m]? with
  | some s => rw [sources_add found]
  | none =>
      cases h : (b.add d).sources[m]? with
      | none => rfl
      | some s =>
          have new : s ∈ [({ descriptor := d } : Source)] := by
            have beyond := List.getElem?_eq_none_iff.mp found
            rw [add, List.getElem?_append_right beyond] at h
            exact List.mem_of_getElem? h
          obtain rfl := List.mem_singleton.mp new
          rfl

theorem descriptorOf_add {e : Nat} (h : b.descriptorOf m = some e) :
    (b.add d).descriptorOf m = some e := by
  obtain ⟨s, found, same⟩ := Option.map_eq_some_iff.mp h
  rw [descriptorOf, sources_add found, Option.map_some, same]

theorem sources_received (bytes : List UInt8) : (b.received n bytes).sources[m]? =
    if n = m then b.sources[m]?.map fun s => (s.receive bytes).2 else b.sources[m]? := by
  rw [received, List.getElem?_modify]
  split <;> simp

theorem isOpen_received (bytes : List UInt8) : (b.received n bytes).isOpen m = b.isOpen m := by
  simp only [isOpen, sources_received]
  split
  · cases b.sources[m]? with
    | none => rfl
    | some s =>
        obtain ⟨_, h⟩ := s.source_receive bytes
        simp only [Option.map_some, Option.any_some, h]
  · rfl

theorem descriptorOf_received (bytes : List UInt8) :
    (b.received n bytes).descriptorOf m = b.descriptorOf m := by
  simp only [descriptorOf, sources_received]
  split
  · cases b.sources[m]? with
    | none => rfl
    | some s =>
        obtain ⟨_, h⟩ := s.source_receive bytes
        simp only [Option.map_some, h]
  · rfl

theorem isOpen_opened_of_isOpen (isOpen : b.isOpen m = true) : (b.opened r n).isOpen m = true := by
  rw [isOpen_opened]
  split
  · unfold Switchboard.isOpen at isOpen
    cases h : b.sources[m]? with
    | none => rw [h] at isOpen; cases isOpen
    | some s =>
        rw [h, Option.any_some] at isOpen
        rw [Option.any_some, isOpen, Bool.true_or]
  · exact isOpen

/-! ### What one turn does -/

/-- The loop knows readers only for the descriptors of their sources. -/
def Wired (b : Switchboard) : Prop := ∀ d n, b.readers d = some n → b.descriptorOf n = some d

/-- Who is known to the loop behind an opening is open then, or was known before. -/
theorem readers_opened_cases (known : (b.opened r n).readers d = some m) :
    (b.opened r n).isOpen m = true ∧ (b.opened r n).descriptorOf m = some d ∨
      b.readers d = some m := by
  cases found : b.sources[n]? with
  | none => exact .inr (by rwa [opened, call_of_missing found] at known)
  | some s =>
      rw [readers_opened found] at known
      split at known
      · rename_i turned
        obtain rfl := Option.some.inj known
        rw [isOpen_opened, descriptorOf_opened, descriptorOf, if_pos rfl, found]
        exact .inl ⟨by rw [Option.any_some, turned.2.2, Bool.or_true],
          congrArg some turned.1⟩
      · exact .inr known

/-- Who is known to the loop behind a closing was known before; if it is the source that has been
closed, the loop has refused to cease watching. -/
theorem readers_closed_cases (wired : b.Wired) (known : (b.closed r n).readers d = some m) :
    b.readers d = some m ∧ (b.isOpen m = true → (b.closed r n).isOpen m = true ∨
      n = m ∧ r.loop.lookup .unwatch ≠ none) := by
  cases found : b.sources[n]? with
  | none =>
      rw [closed, call_of_missing found] at known ⊢
      exact ⟨known, .inl⟩
  | some s =>
      rw [readers_closed found] at known
      rw [isOpen_closed]
      split at known
      · cases known
      · rename_i unturned
        refine ⟨known, fun isOpen => ?_⟩
        by_cases same : n = m
        · subst same
          refine .inr ⟨rfl, fun granted => unturned ⟨?_, ?_, ?_⟩⟩
          · have descriptor := wired d n known
            rw [descriptorOf, found] at descriptor
            exact Option.some.inj descriptor
          · rwa [Switchboard.isOpen, found] at isOpen
          · rw [granted, Option.isNone_none]
        · exact .inl (by rwa [if_neg same])

/-- The loop knows readers only for the descriptors of their sources. Who is known to it has been
opened, or was known before; and who was open before and is so no longer has been left behind. -/
def Onward (b c : Switchboard) (left : Nat → Prop) : Prop :=
  ∀ d n, c.readers d = some n → c.descriptorOf n = some d ∧
    (c.isOpen n = true ∨ b.readers d = some n ∧ (b.isOpen n = true → left n))

theorem onward_of_same {c : Switchboard} (wired : b.Wired) (readers : c.readers = b.readers)
    (left : Nat → Prop) (isOpen : ∀ n, c.isOpen n = b.isOpen n)
    (descriptorOf : ∀ n d, b.descriptorOf n = some d → c.descriptorOf n = some d) :
    b.Onward c left := by
  intro d n known
  rw [readers] at known
  refine ⟨descriptorOf n d (wired d n known), ?_⟩
  rw [isOpen]
  exact (Bool.eq_false_or_eq_true _).imp id fun closed =>
    ⟨known, fun isOpen => (nomatch closed.symm.trans isOpen)⟩

theorem onward_opened (wired : b.Wired) (r : Refusals) (m : Nat) (left : Nat → Prop) :
    b.Onward (b.opened r m) left := by
  intro d n known
  rcases readers_opened_cases known with ⟨isOpen, descriptor⟩ | before
  · exact ⟨descriptor, .inl isOpen⟩
  · refine ⟨descriptorOf_opened.trans (wired d n before), ?_⟩
    exact (Bool.eq_false_or_eq_true _).imp id fun closed => ⟨before, fun isOpen =>
      (nomatch closed.symm.trans (isOpen_opened_of_isOpen isOpen))⟩

theorem onward_closed (wired : b.Wired) (r : Refusals) (m : Nat) :
    b.Onward (b.closed r m) fun n => m = n ∧ r.loop.lookup .unwatch ≠ none := by
  intro d n known
  obtain ⟨before, gone⟩ := readers_closed_cases wired known
  refine ⟨descriptorOf_closed.trans (wired d n before), ?_⟩
  cases h : b.isOpen n with
  | false => exact .inr ⟨before, fun isOpen => (nomatch isOpen)⟩
  | true => exact (gone h).imp id fun left => ⟨before, fun _ => left⟩

theorem Onward.wired {c : Switchboard} {left : Nat → Prop} (h : b.Onward c left) : c.Wired :=
  fun d n known => (h d n known).1

theorem onward_refl (wired : b.Wired) (left : Nat → Prop) : b.Onward b left :=
  onward_of_same wired rfl left (fun _ => rfl) fun _ _ h => h

theorem onward_add (wired : b.Wired) (e : Nat) (left : Nat → Prop) : b.Onward (b.add e) left :=
  onward_of_same (c := b.add e) wired rfl left (fun _ => isOpen_add) fun _ _ => descriptorOf_add

/-- A turn leaves a source behind only by closing it when the loop refuses to cease watching. -/
theorem onward_turn (wired : b.Wired) (u : Turn) : b.Onward (b.turn u) (u.Strands b) := by
  obtain ⟨move, r⟩ := u
  cases move with
  | create e => exact onward_add wired e _
  | opening m => exact onward_opened wired r m _
  | closing m =>
      intro d n known
      obtain ⟨descriptor, h⟩ := onward_closed wired r m d n known
      exact ⟨descriptor, h.imp id fun ⟨before, left⟩ => ⟨before, fun isOpen =>
        ⟨congrArg some (left isOpen).1, isOpen, (left isOpen).2⟩⟩⟩
  | reading e bytes =>
      simp only [turn]
      cases b.readers e with
      | none => exact onward_refl wired _
      | some m =>
          exact onward_of_same (c := b.received m bytes) wired rfl _ (fun _ => isOpen_received bytes)
            fun _ _ h => (descriptorOf_received bytes).trans h
  | attach e =>
      simp only [turn]
      split
      · exact onward_refl wired _
      · have made := onward_add wired e fun _ => False
        have opens : b.Onward ((b.add e).opened r b.sources.length)
            (Turn.Strands ⟨.attach e, r⟩ b) := by
          intro d n known
          obtain ⟨descriptor, h⟩ := onward_opened made.wired r _ (fun _ => False) d n known
          exact ⟨descriptor, h.imp id fun ⟨before, left⟩ =>
            ⟨before, fun isOpen => (left (isOpen_add.trans isOpen)).elim⟩⟩
        split <;> exact opens
  | detach =>
      simp only [turn]
      cases attached : b.attached with
      | none => exact onward_refl wired _
      | some m =>
          intro d n known
          have wired' : ({ b with attached := none } : Switchboard).Wired := wired
          obtain ⟨descriptor, h⟩ := onward_closed wired' r m d n known
          exact ⟨descriptor, h.imp id fun ⟨before, left⟩ => ⟨before, fun isOpen =>
            ⟨attached.trans (congrArg some (left isOpen).1), isOpen, (left isOpen).2⟩⟩⟩

/-! ### Whom the loop knows behind any turns -/

variable {channels : Nat → Channel} {past : List Turn}

theorem wired_behind : (behind channels past).Wired := by
  induction past with
  | nil => exact fun d n known => (nomatch known)
  | cons u past ih => exact (onward_turn ih u).wired

/-- Whoever is known to the loop is open or stranded. -/
theorem stranded_of_known (known : (behind channels past).readers d = some n) :
    (behind channels past).isOpen n = true ∨ Stranded channels n past := by
  induction past generalizing d with
  | nil => cases known
  | cons u past ih =>
      cases closed : (behind channels (u :: past)).isOpen n with
      | true => exact .inl rfl
      | false =>
          obtain ⟨-, isOpen | ⟨before, left⟩⟩ := onward_turn wired_behind u d n known
          · cases closed.symm.trans isOpen
          · exact (ih before).elim (fun isOpen => .inr (.closed (left isOpen)))
              fun stranded => .inr (.kept d stranded closed known)

theorem Stranded.refused (h : Stranded channels n past) :
    ∃ u ∈ past, u.refusals.loop.lookup .unwatch ≠ none := by
  induction h with
  | closed strands => exact ⟨_, List.mem_cons_self .., strands.refused⟩
  | kept _ _ _ _ ih =>
      obtain ⟨u, member, refused⟩ := ih
      exact ⟨u, List.mem_cons_of_mem _ member, refused⟩

/-- No source is open but the input of the shell. -/
def Sole (b : Switchboard) : Prop := ∀ n, b.isOpen n = true → b.attached = some n

theorem sole_turn (sole : b.Sole) (shell : u.OfShell) : (b.turn u).Sole := by
  obtain ⟨move, r⟩ := u
  cases move with
  | create | opening | closing => exact shell.elim
  | reading e bytes =>
      simp only [turn]
      cases b.readers e with
      | none => exact sole
      | some m => exact fun n isOpen => sole n ((isOpen_received bytes).symm.trans isOpen)
  | attach e =>
      simp only [turn]
      split
      · exact sole
      · rename_i free
        have new : ∀ n, ((b.add e).opened r b.sources.length).isOpen n = true →
            b.sources.length = n := by
          intro n isOpen
          by_contra other
          rw [isOpen_opened, if_neg other, isOpen_add] at isOpen
          exact free (by rw [sole n isOpen, Option.isSome_some])
        split
        · exact fun n isOpen => congrArg some (new n isOpen)
        · rename_i closed
          exact fun n isOpen => (closed (new n isOpen ▸ isOpen)).elim
  | detach =>
      simp only [turn]
      cases attached : b.attached with
      | none => exact sole
      | some m =>
          intro n isOpen
          rw [isOpen_closed] at isOpen
          split at isOpen
          · cases isOpen
          · rename_i other
            exact (other (Option.some.inj (attached.symm.trans (sole n isOpen)))).elim

theorem sole_behind (shell : ∀ u ∈ past, u.OfShell) : (behind channels past).Sole := by
  induction past with
  | nil => exact fun n isOpen => (nomatch isOpen)
  | cons u past ih =>
      exact sole_turn (ih fun v hv => shell v (List.mem_cons_of_mem _ hv))
        (shell u (List.mem_cons_self ..))

/-! ### A source that is left behind -/

theorem readers_of_hears {a : Source.Arrival} {bytes : List UInt8}
    (heard : b.hears d bytes = some (n, a)) : b.readers d = some n := by
  unfold hears at heard
  split at heard
  · cases heard
  · rename_i m known
    split at heard
    · cases heard
    · split at heard
      · cases heard
      · cases heard
        exact known

/-- Closing a source when the loop refuses to cease watching leaves all as it was to those who
speak. -/
theorem hears_closed (refused : r.loop.lookup .unwatch ≠ none) (bytes : List UInt8) :
    (b.closed r n).hears d bytes = b.hears d bytes := by
  cases found : b.sources[n]? with
  | none => rw [closed, call_of_missing found]
  | some s =>
      have known : (b.closed r n).readers d = b.readers d := by
        rw [readers_closed found, if_neg]
        exact fun h => refused (Option.isNone_iff_eq_none.mp h.2.2)
      unfold hears
      rw [known]
      cases b.readers d with
      | none => rfl
      | some m =>
          simp only [closed, sources_call]
          by_cases same : n = m
          · subst same
            obtain ⟨_, h⟩ := s.source_closeOn ((b.channels s.descriptor).refusing r)
            have same : (s.closeOn ((b.channels s.descriptor).refusing r)).source.decoder =
                s.decoder := by rw [h]
            simp only [if_pos, found, Option.map_some, (Source.receive_congr same bytes).1]
          · rw [if_neg same]

/-- Behind such a turn the source is closed, and is heard as before. -/
theorem hears_of_strands (strands : u.Strands b n) :
    (b.turn u).isOpen n = false ∧
      ∀ d bytes, (b.turn u).hears d bytes = b.hears d bytes := by
  obtain ⟨move, r⟩ := u
  obtain ⟨closes, -, refused⟩ := strands
  cases move with
  | create | opening | reading | attach => cases closes
  | closing m =>
      cases closes
      exact ⟨isOpen_closed.trans (if_pos rfl), fun d => hears_closed refused⟩
  | detach =>
      simp only [turn, show b.attached = some n from closes]
      exact ⟨isOpen_closed.trans (if_pos rfl), fun d bytes => hears_closed refused bytes⟩

end Switchboard

end Input

end LineShell
