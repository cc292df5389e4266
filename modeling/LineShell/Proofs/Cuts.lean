import LineShell.Proofs.Beside
import LineShell.Session.EventLoop

/-!
# How bytes are cut into readings

Characters are heard one by one until keys are no longer accepted, or until no character can be read
because the handling of a key was given up. What is heard of a text does not depend on the readings
it arrives in, and the decoder of the source carries on what a reading leaves open.
-/

namespace LineShell

open Act Edit Session

variable {σ : Type} {call : Program σ → Act σ Reply} {s t : Session σ}

/-! ### Hearing -/

/-- No character has an effect: keys are not accepted, or none is read until the decoder has been
reset. -/
def Edit.Editor.deaf (e : Editor) : Bool :=
  !e.installed || e.decoder.stalled && e.decoder.paste.isNone

namespace Session

/-- A state without the decoder of keys where keys are not accepted. -/
def heard (s : Session σ) : Session σ := if s.editor.installed then s else s.setDecoder {}

/-- What becomes of a shell by a character. -/
def hear (call : Program σ → Act σ Reply) (s : Session σ) (c : Char) : Session σ :=
  if s.editor.deaf then s else ((feedChar call c).result s).2

/-- Whenever a character is given up, no further one has an effect. -/
def HearsOut (call : Program σ → Act σ Reply) (s : Session σ) : List Char → Prop
  | [] => True
  | c :: text =>
    (∀ i t, s.editor.deaf = false → (feedChar call c).result s = (.error i, t) →
      t.editor.deaf = true) ∧ HearsOut call (s.hear call c) text

theorem deaf_of_removed (h : s.editor.installed = false) : s.editor.deaf = true := by
  simp [Editor.deaf, h]

theorem heard_setDecoder (h : s.editor.installed = false) (d : KeyDecoder) :
    (s.setDecoder d).heard = s.heard := by
  simp [heard, setDecoder, onEditor, h]

theorem hear_of_not_deaf {r : Except Interrupt Unit} {c : Char} (h : s.editor.deaf = false)
    (hc : (feedChar call c).result s = (r, t)) : s.hear call c = t := by
  simp [hear, h, hc]

theorem foldl_hear_of_deaf (h : s.editor.deaf = true) (text : List Char) :
    text.foldl (hear call) s = s := by
  induction text with
  | nil => rfl
  | cons c text ih => simpa [hear, h] using ih

theorem hearsOut_of_deaf (h : s.editor.deaf = true) (text : List Char) : HearsOut call s text := by
  induction text with
  | nil => trivial
  | cons c text ih => exact ⟨fun i t hs _ => (nomatch h.symm.trans hs), by simpa [hear, h] using ih⟩

theorem hearsOut_append {text more : List Char} :
    HearsOut call s (text ++ more) ↔
      HearsOut call s text ∧ HearsOut call (text.foldl (hear call) s) more := by
  induction text generalizing s with
  | nil => simp [HearsOut]
  | cons c text ih => simp [HearsOut, ih, and_assoc]

/-! ### Characters that count for nothing -/

theorem result_deliverKey_of_removed (h : s.editor.installed = false) (k : Key) :
    ∃ d, d.stalled = s.editor.decoder.stalled ∧
      ∀ call, (deliverKey call k).result s = (.ok ⟨⟩, s.setDecoder d) := by
  unfold deliverKey
  split
  · exact ⟨{ s.editor.decoder with paste := some [] }, rfl, fun _ => rfl⟩
  · refine ⟨s.editor.decoder, rfl, fun call => ?_⟩
    simp only [pressKey, result_get_bind, h]
    rfl

theorem result_forM_deliverKey_of_removed (h : s.editor.installed = false) (keys : List Key) :
    ∃ d, d.stalled = s.editor.decoder.stalled ∧
      ∀ call, (keys.forM (deliverKey call)).result s = (.ok ⟨⟩, s.setDecoder d) := by
  induction keys generalizing s with
  | nil => exact ⟨s.editor.decoder, rfl, fun _ => rfl⟩
  | cons k keys ih =>
      obtain ⟨d, same, hd⟩ := result_deliverKey_of_removed h k
      obtain ⟨d', same', hd'⟩ := ih (s := s.setDecoder d) h
      refine ⟨d', same'.trans same, fun call => ?_⟩
      rw [result_forM_cons, hd]
      exact hd' call

/-- Where keys are not accepted a character changes the decoder at most, and it is refused only where
a key is still being handled. -/
theorem result_feedChar_of_removed (h : s.editor.installed = false) (c : Char) :
    ∃ r d, (∀ call, (feedChar call c).result s = (r, s.setDecoder d)) ∧
      (s.editor.decoder.stalled = false → r = .ok ⟨⟩ ∧ d.stalled = false) := by
  simp only [feedChar, result_get_bind]
  split
  · split
    · exact ⟨_, _, fun _ => rfl, fun free => ⟨rfl, free⟩⟩
    · have pressed : ∀ call key, (pressKey call key).result s = (.ok ⟨⟩, s) := by
        intro call key
        simp only [pressKey, result_get_bind, h]
        rfl
      refine ⟨.ok ⟨⟩, { s.editor.decoder with paste := none }, fun call => ?_,
        fun free => ⟨rfl, free⟩⟩
      rw [result_bind, pressed]
      rfl
  · split
    · rename_i stalled
      exact ⟨_, s.editor.decoder, fun _ => rfl, fun free =>
        absurd (free.symm.trans stalled) Bool.false_ne_true⟩
    · rcases s.editor.decoder.read c with ⟨keys, d⟩
      obtain ⟨d', -, hd'⟩ := result_forM_deliverKey_of_removed
        (s := s.setDecoder { d with progress := .busy }) h keys
      refine ⟨.ok ⟨⟩, { d' with progress := .ready }, fun call => ?_, fun _ => ⟨rfl, rfl⟩⟩
      simp only [result_modify_bind]
      rw [result_handled, hd']
      rfl

theorem heard_forM_of_deaf (h : s.editor.deaf = true) (text : List Char) :
    ((text.forM (feedChar call)).result s).2.heard = s.heard := by
  cases hi : s.editor.installed with
  | false =>
      clear h
      induction text generalizing s with
      | nil => rfl
      | cons c text ih =>
          obtain ⟨r, d, hd, -⟩ := result_feedChar_of_removed hi c
          rw [result_forM_cons, hd]
          cases r with
          | error i => exact heard_setDecoder hi d
          | ok _ => exact (ih (s := s.setDecoder d) hi).trans (heard_setDecoder hi d)
  | true =>
      cases text with
      | nil => rfl
      | cons c text =>
          have stalled : s.editor.decoder.stalled = true ∧ s.editor.decoder.paste = none := by
            simpa [Editor.deaf, hi] using h
          have refused : (feedChar call c).result s =
              (.error (.failure (stallFailure s.editor.decoder)), s) := by
            simp only [feedChar, result_get_bind, stalled.1, stalled.2, if_true, result_fail_bind]
          rw [result_forM_cons, refused]

/-! ### Texts -/

/-- Where giving up leaves the editor deaf, what a text leaves to be heard is what its characters
leave that are heard one by one. -/
theorem heard_forM {text : List Char} (h : HearsOut call s text) :
    ((text.forM (feedChar call)).result s).2.heard = (text.foldl (hear call) s).heard := by
  induction text generalizing s with
  | nil => rfl
  | cons c text ih =>
      cases hd : s.editor.deaf with
      | true => rw [foldl_hear_of_deaf hd, heard_forM_of_deaf hd]
      | false =>
          obtain ⟨givenUp, rest⟩ := h
          rw [result_forM_cons, List.foldl_cons]
          rcases hc : (feedChar call c).result s with ⟨i | _, t⟩
          · rw [hear_of_not_deaf hd hc, foldl_hear_of_deaf (givenUp i t hd hc)]
          · rw [hear_of_not_deaf hd hc] at rest ⊢
            exact ih rest

/-- Text that is given up only where that leaves the editor deaf hears out. -/
theorem hearsOut_of_forM {text : List Char}
    (h : ∀ i t, (text.forM (feedChar call)).result s = (.error i, t) → t.editor.deaf = true) :
    HearsOut call s text := by
  induction text generalizing s with
  | nil => trivial
  | cons c text ih =>
      cases hd : s.editor.deaf with
      | true => exact hearsOut_of_deaf hd _
      | false =>
          replace h : ∀ i t, (feedChar call c >>= fun _ => text.forM (feedChar call)).result s =
              (.error i, t) → t.editor.deaf = true := h
          rw [result_bind] at h
          rcases hc : (feedChar call c).result s with ⟨i | _, t⟩
          · have left : t.editor.deaf = true := h i t (by rw [hc])
            refine ⟨fun i' t' _ hc' => ?_, ?_⟩
            · cases hc.symm.trans hc'
              exact left
            · rw [hear_of_not_deaf hd hc]
              exact hearsOut_of_deaf left text
          · refine ⟨fun i' t' _ hc' => (nomatch hc.symm.trans hc'), ?_⟩
            rw [hear_of_not_deaf hd hc]
            exact ih fun i u hu => h i u (by rw [hc]; exact hu)

theorem heard_feed {text : List Char} (h : HearsOut call s text) :
    ((feed call text).result s).2.heard = (text.foldl (hear call) s).heard := by
  simp only [feed, result_get_bind]
  split
  · exact heard_forM h
  · rename_i removed
    rw [foldl_hear_of_deaf (deaf_of_removed (by simpa using removed))]
    rfl

theorem hearsOut_of_feed {text : List Char}
    (h : ∀ i t, (feed call text).result s = (.error i, t) → t.editor.deaf = true) :
    HearsOut call s text := by
  cases hi : s.editor.installed with
  | false => exact hearsOut_of_deaf (deaf_of_removed hi) text
  | true =>
      refine hearsOut_of_forM fun i t ht => h i t ?_
      simp only [feed, result_get_bind, hi]
      exact ht

/-! ### Readings -/

end Session

def Input.Source.having (source : Input.Source) (bytes : List UInt8) : Input.Source :=
  { source with decoder := (source.decoder.run bytes).2 }

namespace Session

def reading (s : Session σ) (source : Input.Source) : Session σ :=
  { s with input := some (.source source), reader := some source }

/-- Bytes arrive, and are read at once. -/
def deliver (bytes : List UInt8) : Act σ Unit := do
  modify fun s => { s with channel := s.channel.arrive bytes }
  match (← get).reader with
  | some source => readInput source
  | none => return

/-- What becomes of a shell by readings, one after the other. What ends one of them goes no
further. -/
def delivered (s : Session σ) (pieces : List (List UInt8)) : Session σ :=
  pieces.foldl (fun s bytes => ((deliver bytes).result s).2) s

/-- Readings are given up only where that leaves the editor deaf. -/
def Attends (s : Session σ) : List (List UInt8) → Prop
  | [] => True
  | bytes :: rest =>
    (∀ i t, (deliver bytes).result s = (.error i, t) → t.editor.deaf = true) ∧
      Attends ((deliver bytes).result s).2 rest

theorem result_execute_feed (text : List Char) :
    ((Program.single (.feed (String.ofList text)) : Program σ).execute >>= fun _ =>
      (pure ⟨⟩ : Act σ Unit)).result s = (feed (Program.exec 199) text).result s := by
  change (((feed (Program.exec 199) (String.ofList text).toList >>= fun _ =>
    (pure .nothing : Act σ Reply)) >>= fun reply => (pure reply : Act σ Reply)) >>= fun _ =>
      (pure ⟨⟩ : Act σ Unit)).result s = _
  rw [String.toList_ofList, result_bind, result_bind, result_bind]
  rcases (feed (Program.exec 199) text).result s with ⟨_ | _, t⟩ <;> rfl

theorem result_deliver {source : Input.Source} {bytes : List UInt8}
    (input : s.input = some (.source source)) (reader : s.reader = some source)
    (queue : s.channel.queue = []) (size : bytes ≠ [] ∧ bytes.length ≤ Input.Channel.readSize) :
    (deliver bytes).result s =
      (feed (Program.exec 199) (source.decoder.run bytes).1).result
        (s.reading (source.having bytes)) := by
  have read : (s.channel.arrive bytes).read = (bytes, s.channel) := by
    rw [Input.Channel.read, Input.Channel.arrive, queue, List.nil_append,
      List.take_of_length_le size.2, List.drop_eq_nil_of_le size.2, ← queue]
  have received : source.receive bytes =
      (if (source.decoder.run bytes).1.isEmpty then .nothing
        else .text (source.decoder.run bytes).1, source.having bytes) := by
    simp [Input.Source.receive, Input.Source.having, size.1]
  simp only [deliver, result_modify_bind, result_get_bind, reader, readInput, read, received, input,
    Option.map_some]
  cases (source.decoder.run bytes).1 with
  | nil =>
      have unfed : (feed (Program.exec 199) []).result (s.reading (source.having bytes)) =
          (.ok ⟨⟩, s.reading (source.having bytes)) := by
        simp only [feed, result_get_bind]
        split <;> rfl
      exact unfed.symm
  | cons c text => exact result_execute_feed (c :: text)

/-! ### Shells that are heard as one -/

theorem Alike.heard (h : s.Alike t) : s.heard.Alike t.heard := by
  obtain ⟨input, reader, channel, rfl, hi⟩ := h.exists_eq
  unfold Session.heard
  split
  · exact { Alike.refl _ with input := hi }
  · exact { Alike.refl _ with input := hi }

@[simp] theorem installed_heard (s : Session σ) :
    s.heard.editor.installed = s.editor.installed := by
  unfold heard
  split <;> rfl

@[simp] theorem inlet_heard (s : Session σ) : s.heard.inlet = s.inlet := by
  unfold heard
  split <;> rfl

theorem heard_of_installed (h : s.editor.installed = true) : s.heard = s := if_pos h

/-- A shell that reads a source is heard as another one is, whose input may be any. -/
structure HeardAs (source : Input.Source) (channel : Input.Channel) (k t : Session σ) : Prop where
  alike : t.heard.Alike k.heard
  follows : t.Follows besideRules
  inlet : t.inlet = (some (.source source), some source, channel)

variable {source : Input.Source} {channel : Input.Channel} {k : Session σ}

theorem HeardAs.installed (h : HeardAs source channel k t) :
    k.editor.installed = t.editor.installed := by
  simpa using congrArg Editor.installed h.alike.editor

theorem HeardAs.input (h : HeardAs source channel k t) : t.input = some (.source source) :=
  congrArg (·.1) h.inlet

theorem HeardAs.alike_reading (h : HeardAs source channel k t) (next : Input.Source) :
    (t.reading next).Alike t :=
  { Alike.refl _ with input := by rw [h.input]; rfl }

theorem HeardAs.lockstep (h : HeardAs source channel k t) (installed : t.editor.installed = true)
    (next : Input.Source) (text : List Char) :
    Ends (Beside (t.reading next).inlet k.inlet) (fun _ => Beside (t.reading next).inlet k.inlet)
      ((feed (Program.exec 199) text).result (t.reading next))
      ((feed (Program.exec 199) text).result k) := by
  refine keys_beside.feed (closed_beside.exec 199) (closed_beside.exec 199) text ?_
  have same : t.Alike k := by
    have alike := h.alike
    rwa [heard_of_installed installed, heard_of_installed (h.installed.trans installed)] at alike
  exact ⟨(h.alike_reading next).trans same, rfl, h.follows.congr rfl rfl rfl rfl, rfl, rfl⟩

theorem HeardAs.hearsOut (h : HeardAs source channel k t) {next : Input.Source} {text : List Char}
    (attends : ∀ i u, (feed (Program.exec 199) text).result (t.reading next) =
      (.error i, u) → u.editor.deaf = true) : HearsOut (Program.exec 199) k text := by
  cases hi : t.editor.installed with
  | false => exact hearsOut_of_deaf (deaf_of_removed (h.installed.trans hi)) text
  | true =>
      refine hearsOut_of_feed fun i u hu => ?_
      have ends := h.lockstep hi next text
      rw [hu] at ends
      rcases hv : (feed (Program.exec 199) text).result (t.reading next) with ⟨r, v⟩
      rw [hv] at ends
      obtain ⟨rfl, beside⟩ := ends
      rw [beside.alike.editor]
      exact attends i v hv

theorem HeardAs.read (h : HeardAs source channel k t) {next : Input.Source} {text : List Char}
    (hears : HearsOut (Program.exec 199) k text) :
    HeardAs next channel (text.foldl (hear (Program.exec 199)) k)
      ((feed (Program.exec 199) text).result (t.reading next)).2 := by
  have inlet : (t.reading next).inlet = (some (.source next), some next, channel) := by
    have kept := congrArg (·.2.2) h.inlet
    simp only [Session.inlet, reading] at kept ⊢
    rw [kept]
  cases hi : t.editor.installed with
  | false =>
      have unfed : (feed (Program.exec 199) text).result (t.reading next) =
          (.ok ⟨⟩, t.reading next) := by
        have removed : (t.reading next).editor.installed = false := hi
        simp only [feed, result_get_bind, removed]
        rfl
      rw [unfed, foldl_hear_of_deaf (deaf_of_removed (h.installed.trans hi))]
      exact ⟨(h.alike_reading next).heard.trans h.alike, h.follows.congr rfl rfl rfl rfl, inlet⟩
  | true =>
      have ends := h.lockstep hi next text
      have fed := heard_feed hears
      rcases hv : (feed (Program.exec 199) text).result (t.reading next) with ⟨r, v⟩
      rcases hu : (feed (Program.exec 199) text).result k with ⟨r', u⟩
      rw [hv, hu] at ends
      rw [hu] at fed
      have beside : Beside (t.reading next).inlet k.inlet v u := by
        obtain ⟨rfl, beside⟩ := ends
        cases r <;> exact beside
      exact ⟨fed ▸ beside.alike.heard, beside.follows, beside.left.trans inlet⟩

/-! ### Cuts -/

theorem HeardAs.result_deliver (h : HeardAs source channel k t) (queue : channel.queue = [])
    {bytes : List UInt8} (size : bytes ≠ [] ∧ bytes.length ≤ Input.Channel.readSize) :
    (deliver bytes).result t = (feed (Program.exec 199) (source.decoder.run bytes).1).result
      (t.reading (source.having bytes)) := by
  have kept : t.channel = channel := congrArg (·.2.2) h.inlet
  exact Session.result_deliver h.input (congrArg (·.2.1) h.inlet) (kept ▸ queue) size

theorem HeardAs.hearsOut_delivered {pieces : List (List UInt8)} (h : HeardAs source channel k t)
    (queue : channel.queue = [])
    (sizes : ∀ bytes ∈ pieces, bytes ≠ [] ∧ bytes.length ≤ Input.Channel.readSize)
    (attends : t.Attends pieces) :
    HearsOut (Program.exec 199) k (source.decoder.run pieces.flatten).1 := by
  induction pieces generalizing source k t with
  | nil => trivial
  | cons bytes rest ih =>
      obtain ⟨size, sizes⟩ := List.forall_mem_cons.1 sizes
      obtain ⟨first, later⟩ := attends
      rw [h.result_deliver queue size] at first later
      have hears := h.hearsOut first
      rw [List.flatten_cons, Text.Utf8.State.run_append]
      exact hearsOut_append.2 ⟨hears, ih (h.read hears) sizes later⟩

/-- A text that is heard out leaves the same to be heard in whatever readings it is delivered. -/
theorem HeardAs.delivered {pieces : List (List UInt8)} (h : HeardAs source channel k t)
    (queue : channel.queue = [])
    (sizes : ∀ bytes ∈ pieces, bytes ≠ [] ∧ bytes.length ≤ Input.Channel.readSize)
    (hears : HearsOut (Program.exec 199) k (source.decoder.run pieces.flatten).1) :
    HeardAs (source.having pieces.flatten) channel
      ((source.decoder.run pieces.flatten).1.foldl (hear (Program.exec 199)) k)
      (t.delivered pieces) := by
  induction pieces generalizing source k t with
  | nil => exact h
  | cons bytes rest ih =>
      obtain ⟨size, sizes⟩ := List.forall_mem_cons.1 sizes
      rw [List.flatten_cons, Text.Utf8.State.run_append] at hears
      obtain ⟨now, later⟩ := hearsOut_append.1 hears
      have last : source.having (bytes ++ rest.flatten) =
          (source.having bytes).having rest.flatten := by
        simp [Input.Source.having, Text.Utf8.State.run_append]
      rw [List.flatten_cons, last, Text.Utf8.State.run_append, List.foldl_append]
      change HeardAs _ _ _ (((deliver bytes).result t).2.delivered rest)
      rw [h.result_deliver queue size]
      exact ih (h.read now) sizes later

/-- How bytes are cut into readings is not heard. Two cuts of the same bytes leave the same shell
behind: all that was written, all that the programs noted of lines, commands and answers, the line
with its point, the prompt and the history, and even what the decoders hold, unless keys are no
longer accepted. Programs may do anything but give the input up, and no reading may be given up
unless that leaves the editor deaf. -/
theorem heard_delivered_eq {s : Session σ} {source : Input.Source}
    (follows : s.Follows besideRules) (input : s.input = some (.source source))
    (reader : s.reader = some source) (queue : s.channel.queue = []) {a b : List (List UInt8)}
    (cut : a.flatten = b.flatten)
    (sizes : ∀ bytes ∈ a ++ b, bytes ≠ [] ∧ bytes.length ≤ Input.Channel.readSize)
    (attends : s.Attends a) : (s.delivered a).heard = (s.delivered b).heard := by
  obtain ⟨sizesA, sizesB⟩ := List.forall_mem_append.1 sizes
  have start : HeardAs source s.channel s s :=
    ⟨Alike.refl _, follows, by rw [inlet, input, reader]⟩
  have hears := start.hearsOut_delivered queue sizesA attends
  have left := start.delivered queue sizesA hears
  rw [cut] at left hears
  have right := start.delivered queue sizesB hears
  refine ((right.alike.trans left.alike.symm).eq ?_)
  rw [inlet_heard, inlet_heard, left.inlet, right.inlet]

def waiting : Session Unit :=
  let source : Input.Source := { descriptor := 0, isOpen := true }
  { bareShell [] () with
    editor := ({} : Editor).install "> ", input := some (.source source), reader := some source }

theorem follows_waiting : waiting.Follows besideRules :=
  have bare : (bareShell [] ()).Follows besideRules :=
    follows_bareShell (fun _ _ => trivial) trivial trivial fun _ he => (nomatch he)
  ⟨rfl, bare.commands, bare.request, bare.hook⟩

theorem attends_cons {bytes : List UInt8} {rest : List (List UInt8)}
    (ok : ((deliver bytes).result s).1.isOk = true)
    (later : Attends ((deliver bytes).result s).2 rest) : s.Attends (bytes :: rest) := by
  refine ⟨fun i t ht => ?_, later⟩
  rw [ht] at ok
  cases ok

/-- A letter of two bytes and the key that goes back, both of them cut. -/
theorem heard_delivered_cut :
    (waiting.delivered [[0xC3], [0xA9, 0x1B], [0x5B, 0x44]]).heard =
      (waiting.delivered [[0xC3, 0xA9, 0x1B, 0x5B, 0x44]]).heard := by
  have run : ((deliver [0xC3]).result waiting).1.isOk = true ∧
      ((deliver [0xA9, 0x1B]).result (waiting.delivered [[0xC3]])).1.isOk = true ∧
      ((deliver [0x5B, 0x44]).result (waiting.delivered [[0xC3], [0xA9, 0x1B]])).1.isOk = true := by
    decide +kernel
  obtain ⟨first, second, third⟩ := run
  have attends : waiting.Attends [[0xC3], [0xA9, 0x1B], [0x5B, 0x44]] :=
    attends_cons first (attends_cons second (attends_cons third trivial))
  exact heard_delivered_eq follows_waiting rfl rfl rfl rfl (by decide) attends

end Session

end LineShell
