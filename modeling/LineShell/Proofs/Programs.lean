import LineShell.Proofs.Changes

/-!
# Programs keep what changes keep

By induction over a program, and over the depth down to which programs lead to others: a relation
that every change keeps is kept by every program that keeps to the custom, however it ends.
-/

namespace LineShell

open Act Session

variable {σ : Type} {custom : Custom σ} {R : Link σ} {s s' : Session σ}
  {call : Program σ → Act σ Reply}

theorem Command.Table.entries_ofList {π : Type} {entries : List (Command.Entry π)}
    {table : Command.Table π} (h : Command.Table.ofList entries = .ok table) :
    table.entries = entries := by
  unfold ofList at h
  split at h
  · cases h
  · cases h
    rfl

theorem Command.Registry.mem_tables {π : Type} {r : Command.Registry π} {table : Command.Table π} :
    table ∈ r.tables ↔ r.menu = some table ∨ table = r.defaults := by
  simp [tables, Option.mem_toList]

theorem Command.Registry.tables_setMenu {π : Type} {r : Command.Registry π}
    {menu : Option (Command.Table π)} {table : Command.Table π}
    (h : table ∈ (r.setMenu menu).2.tables) : table ∈ r.tables ∨ menu = some table := by
  unfold setMenu at h
  split at h
  · split at h
    · exact .inl h
    · rcases mem_tables.1 h with h | h
      · exact .inr h
      · exact .inl (mem_tables.2 (.inr h))
  · exact .inl h

theorem Command.Registry.mem_of_resolve? {π : Type} {r : Command.Registry π} {name : String}
    {e : Command.Entry π} (h : r.resolve? name = some e) :
    ∃ table ∈ r.tables, e ∈ table.entries := by
  obtain ⟨table, hm, he⟩ := List.exists_of_findSome?_eq_some h
  exact ⟨table, hm, List.mem_of_find?_eq_some he⟩

namespace Stable

theorem release (st : Stable custom R) (hc : Runs custom R call) (answer : String) (h : R s s') :
    Ends R (GivenUp R custom.callbacksGiveUp) ((Session.release call answer).result s)
      ((Session.release call answer).result s') := by
  simp only [Session.release, result_get_bind]
  rw [(st.similar h).request]
  cases hr : s.request with
  | none => exact (ends_ok ..).2 h
  | some r =>
      have answered := st.change h (.answer hr answer)
      simp only [result_modify_bind]
      cases hf : r.callback with
      | none => exact (ends_ok ..).2 answered
      | some f =>
          have held := (st.held h).request r hr f hf answer r.data
          exact Ends.bind (hc _ _ held _ _ answered) fun _ t t' ht => (ends_ok ..).2 ht

theorem print (st : Stable custom R) {template : String} {args : List Datum} {b : Bool}
    (quiet : b = true ∨ (Operation.print template args).IsQuiet) (h : R s s') :
    Ends R (GivenUp R b) ((Session.print template args).result s)
      ((Session.print template args).result s') := by
  unfold Session.print
  by_cases ha : args.isEmpty
  · simp only [ha, ite_true, result_modify, ends_ok]
    exact st.step (.print template) h rfl rfl
  · simp only [ha]
    cases hf : Text.Template.fill template args with
    | ok text => exact (ends_ok ..).2 (st.step (.print text) h rfl rfl)
    | error fault =>
        refine (ends_error ..).2 ⟨h, ?_⟩
        rcases quiet with rfl | hargs | ⟨text, ht⟩
        · exact .ofTrue _
        · simp [hargs] at ha
        · rw [hf] at ht
          cases ht

/-- A handler that fails is reported, so that only the end of the program gets through. -/
theorem runCommand (st : Stable custom R) (hc : Runs custom R call) {e : Command.Entry (Program σ)}
    (he : e.Held custom) (i : Command.Invocation) (b : Bool) (h : R s s') :
    Ends R (GivenUp R b) ((Session.runCommand call e i).result s)
      ((Session.runCommand call e i).result s') := by
  simp only [Session.runCommand, result_modify_bind]
  refine Ends.outcome_bind (hc _ _ (he.handler i.argument) _ _ (st.log _ h)) ?_ ?_
  · exact fun _ t t' ht => (ends_ok ..).2 ht
  · rintro (f | code) t t' ⟨ht, -⟩
    · exact (ends_ok ..).2 (st.failed _ _ ht)
    · exact (ends_error ..).2 ⟨ht, .inr (.inr ⟨code, rfl⟩)⟩

theorem dispatch (st : Stable custom R) (hc : Runs custom R call) (line : String) (b : Bool)
    (h : R s s') :
    Ends R (GivenUp R b) ((Session.dispatch call line).result s)
      ((Session.dispatch call line).result s') := by
  unfold Session.dispatch
  cases hi : Command.Invocation.ofLine? line with
  | none => exact (ends_ok ..).2 h
  | some i =>
      simp only [result_get_bind]
      rw [(st.similar h).registry]
      cases he : s.registry.resolve? i.name with
      | none => exact (ends_ok ..).2 (st.invalid h)
      | some e =>
          obtain ⟨table, hm, hmem⟩ := Command.Registry.mem_of_resolve? he
          exact st.runCommand hc ((st.held h).commands table hm e hmem) i b h

theorem offerMenu (st : Stable custom R) {table : Option (Command.Table (Program σ))}
    {E : Interrupt → Link σ} (commands : ∀ t, table = some t → ∀ e ∈ t.entries, e.Held custom)
    (h : R s s') :
    Ends R E ((Session.offerMenu table).result s) ((Session.offerMenu table).result s') := by
  simp only [Session.offerMenu, result_get_bind]
  rw [(st.similar h).registry]
  have kept : ∀ t ∈ (s.registry.setMenu table).2.tables, ∀ e ∈ t.entries, e.Held custom := by
    intro t hm e he
    rcases Command.Registry.tables_setMenu hm with hm | hm
    · exact (st.held h).commands t hm e he
    · exact commands t hm e he
  rcases hr : s.registry.setMenu table with ⟨taken, registry⟩
  rw [hr] at kept
  cases taken with
  | true =>
      have unset : s.registry.menu = none := by
        have taken : (s.registry.setMenu table).1 = true := by rw [hr]
        unfold Command.Registry.setMenu at taken
        split at taken
        · assumption
        · cases taken
      exact (ends_ok ..).2 (st.step (.menu registry kept unset) h rfl rfl)
  | false => exact (ends_ok ..).2 (st.log _ h)

theorem setMenu (st : Stable custom R) {menu : Option (List (Command.Entry (Program σ)))} {b : Bool}
    (commands : ∀ entries, menu = some entries → ∀ e ∈ entries, e.Held custom)
    (quiet : b = true ∨ ∀ entries, menu = some entries →
      ∃ table, Command.Table.ofList entries = .ok table) (h : R s s') :
    Ends R (GivenUp R b) ((Session.setMenu menu).result s) ((Session.setMenu menu).result s') := by
  unfold Session.setMenu menuTable
  cases menu with
  | none => exact st.offerMenu (fun t ht => (nomatch ht)) h
  | some entries =>
      cases ht : Command.Table.ofList entries with
      | ok table =>
          simp only [ht, result_pure_bind]
          refine st.offerMenu (fun t hm e he => commands entries rfl e ?_) h
          cases hm
          exact Command.Table.entries_ofList ht ▸ he
      | error fault =>
          simp only [ht, result_fail_bind]
          refine (ends_error ..).2 ⟨h, ?_⟩
          rcases quiet with rfl | quiet
          · exact .ofTrue _
          · obtain ⟨table, hok⟩ := quiet entries rfl
            rw [ht] at hok
            cases hok

end Stable

/-! ### Operations and programs -/

theorem Operation.IsQuiet.isCommon {op : Operation} (h : op.IsQuiet) : op.IsCommon := by
  cases op <;> simp_all [IsQuiet, IsCommon]

namespace Closed

theorem perform (st : Closed custom R) (hc : Runs custom R call) {op : Operation} {b : Bool}
    (allowed : custom.uses op) (quiet : b = true ∨ custom.callbacksGiveUp = false ∧ op.IsQuiet)
    (h : R s s') :
    Ends R (GivenUp R b) ((Session.perform call op).result s)
      ((Session.perform call op).result s') := by
  have changed : ∀ {f : Session σ → Session σ} {reply : Reply}, R (f s) (f s') →
      Ends R (GivenUp R b) ((do modify f; return reply : Act σ Reply).result s)
        ((do modify f; return reply : Act σ Reply).result s') :=
    fun hf => (ends_ok ..).2 hf
  by_cases common : op.IsCommon
  · cases op with
    | dispatch line =>
        exact Ends.bind (st.dispatch hc line b h) fun _ t t' ht => (ends_ok ..).2 ht
    | print template args =>
        exact Ends.bind (st.print (quiet.imp_right And.right) h) fun _ t t' ht => (ends_ok ..).2 ht
    | dump bytes => exact changed (st.dump bytes h)
    | printMenu => exact changed (st.listing h)
    | quit => exact changed (st.quit h)
    | hangUp => exact changed (st.hangUp h)
    | setPrompt prompt => exact changed (st.step (.prompt prompt) h rfl rfl)
    | release text =>
        refine Ends.bind ((st.release hc text h).weaken (fun _ _ ht => ht) ?_)
          fun _ t t' ht => (ends_ok ..).2 ht
        rintro i t t' ⟨ht, hi⟩
        rcases quiet with rfl | ⟨hq, -⟩
        · exact GivenUp.ofTrue ht
        · exact ⟨ht, .inr (hi.resolve_left (by simp [hq]))⟩
    | start argv =>
        rcases quiet with rfl | ⟨-, hq⟩
        · exact Ends.bind (st.start allowed h) fun _ t t' ht => (ends_ok ..).2 ht
        · exact hq.elim
    | signal signal =>
        have hs := st.receiveSignal allowed h
        simp only [Session.perform, result_modify_bind, result_get_bind, result_pure, ends_ok,
          (st.similar hs).bridge]
        exact hs
    | log event => exact changed (st.log event h)
    | install prompt => exact changed (st.step (.install allowed) h rfl rfl)
    | _ => exact common.elim
  · obtain rfl : b = true := quiet.resolve_right fun hq => common hq.2.isCommon
    exact (st.other hc allowed common s s' h).weaken (fun _ _ ht => ht)
      fun _ _ _ ht => GivenUp.ofTrue ht

/-- A program that keeps to the rules keeps what every change keeps, and so do those that its
operations lead to. -/
theorem run {rules : Rules} (st : Closed rules.custom R) (hc : Runs rules.custom R call)
    {b : Bool} {p : Program σ} (hp : p.Follows rules b) :
    Lockstep R (p.run call) R (GivenUp R b) := by
  induction hp with
  | done reply => exact fun s s' h => (ends_ok ..).2 h
  | fail cause => exact fun s s' h => (ends_error ..).2 (GivenUp.ofTrue h)
  | consult _ ih =>
      intro s s' h
      simp only [Program.run, result_get_bind, (st.similar h).programs]
      exact ih s.programs s s' h
  | note _ ih =>
      intro s s' h
      exact ih _ _ (st.step (.note _) h rfl rfl)
  | inspect _ ih =>
      intro s s' h
      obtain ⟨settings, colours⟩ := st.seen trivial h
      simp only [Program.run, result_get_bind, settings, colours]
      exact ih s.settings s.colours s s' h
  | perform allowed quiet _ ih =>
      intro s s' h
      exact Ends.bind (st.perform hc allowed quiet h) fun reply t t' ht => ih reply t t' ht
  | request called _ _ ih =>
      intro s s' h
      exact ih _ _ (st.requestInput _ _ _ called h)
  | setMenu handlers generators hooks quiet _ _ _ _ ih =>
      intro s s' h
      refine Ends.bind (st.setMenu (fun entries hm e he => ?_) quiet h)
        fun taken t t' ht => ih taken t t' ht
      exact ⟨handlers entries hm e he, generators entries hm e he, hooks entries hm e he⟩
  | suspended allowed _ _ inner ih =>
      intro s s' h
      exact Ends.bind (st.blanked allowed inner s s' h) fun _ t t' ht => ih t t' ht
  | attempt _ _ inner ih =>
      intro s s' h
      exact Ends.outcome_bind (inner s s' h) (fun _ t t' ht => ih _ t t' ht)
        fun _ t t' ht => ih _ t t' ht.1

theorem exec {rules : Rules} (st : Closed rules.custom R) (depth : Nat) :
    Runs rules.custom R (Program.exec (σ := σ) depth) := by
  induction depth with
  | zero => exact fun b p _ s s' h => (ends_error ..).2 ⟨h, .inr (.inl rfl)⟩
  | succ depth ih => exact fun b p hp => st.run ih hp

end Closed

end LineShell
