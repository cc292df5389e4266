import LineShell.Proofs.Entries
import LineShell.Settings.File

/-!
# The values of YAML nodes

A mapping has no key twice, and its values are those of nodes.
-/

namespace LineShell

section Results

variable {ε α β : Type} {x : Except ε α} {fault : ε}

theorem Except.bind_eq_ok_iff {f : α → Except ε β} {b : β} :
    x >>= f = .ok b ↔ ∃ a, x = .ok a ∧ f a = .ok b := by
  cases x <;> simp [bind, Except.bind]

theorem Except.map_eq_ok_iff {f : α → β} {b : β} : x.map f = .ok b ↔ ∃ a, x = .ok a ∧ f a = b := by
  cases x <;> simp [Except.map]

theorem Except.map_ne_ok {f : α → β} {b : β} (other : ∀ a, f a ≠ b) : x.map f ≠ .ok b := by
  intro same
  obtain ⟨a, -, same⟩ := Except.map_eq_ok_iff.1 same
  exact other a same

theorem Except.eq_ok_of_toOption {a : α} (h : x.toOption = some a) : x = .ok a := by
  cases x with
  | error fault => cases h
  | ok b => exact congrArg Except.ok (Option.some.inj h)

end Results

namespace Yaml

open Settings

variable {entries found : Entries} {e entry : Datum × Datum} {d : Datum} {fuel : Nat}
  {n : Node} {nodes : List (Node × Node)}

/-! ### Mappings -/

theorem distinct_putEntry (distinct : Distinct entries) (entry : Datum × Datum) :
    Distinct (putEntry entries entry) := by
  unfold putEntry
  split
  · have keys : ∀ e : Datum × Datum,
        (if sameKey e.1 entry.1 then (e.1, entry.2) else e).1 = e.1 := fun e => by
      split <;> rfl
    unfold Distinct
    simp only [List.pairwise_map, keys]
    exact distinct
  · rename_i absent
    refine List.pairwise_append.2 ⟨distinct, List.pairwise_singleton .., ?_⟩
    intro e member f last name key same
    obtain rfl := List.mem_singleton.1 last
    exact absent (List.any_eq_true.2 ⟨e, member, by simp [key, same, sameKey]⟩)

theorem value_of_mem_putEntry (member : e ∈ putEntry entries entry) :
    e.2 = entry.2 ∨ e ∈ entries := by
  unfold putEntry at member
  split at member
  · obtain ⟨f, before, rfl⟩ := List.mem_map.1 member
    split
    · exact .inl rfl
    · exact .inr before
  · rcases List.mem_append.1 member with before | last
    · exact .inr before
    · exact .inl (congrArg Prod.snd (List.mem_singleton.1 last))

/-- The value is that of a node. -/
def IsRead (d : Datum) : Prop := ∃ fuel n, valueOf fuel n = .ok d

theorem isRead_of_entriesOf (read : entriesOf fuel nodes = .ok found) :
    ∀ e ∈ found, IsRead e.2 := by
  induction fuel generalizing nodes found with
  | zero => cases read
  | succ fuel ih =>
      rcases nodes with _ | ⟨⟨k, v⟩, nodes⟩
      · cases read
        exact fun e member => (nomatch member)
      · rw [entriesOf] at read
        obtain ⟨key, -, read⟩ := Except.bind_eq_ok_iff.1 read
        split at read
        · cases read
        · obtain ⟨value, last, read⟩ := Except.bind_eq_ok_iff.1 read
          obtain ⟨more, later, read⟩ := Except.bind_eq_ok_iff.1 read
          cases read
          intro e member
          rcases List.mem_cons.1 member with rfl | member
          · exact ⟨fuel, v, last⟩
          · exact ih later e member

theorem mapping_of_mapOf (read : mapOf fuel nodes = .ok d) :
    ∃ entries, d = .map entries ∧ Distinct entries ∧ ∀ e ∈ entries, IsRead e.2 := by
  cases fuel with
  | zero => cases read
  | succ fuel =>
      rw [mapOf] at read
      obtain ⟨flat, -, read⟩ := Except.bind_eq_ok_iff.1 read
      obtain ⟨found, values, read⟩ := Except.bind_eq_ok_iff.1 read
      cases read
      refine ⟨_, rfl, List.foldlRecOn (motive := Distinct) found putEntry .nil
        fun all distinct entry _ => distinct_putEntry distinct entry, ?_⟩
      have none : ∀ e ∈ ([] : Entries), IsRead e.2 := fun e member => (nomatch member)
      refine List.foldlRecOn (motive := fun all => ∀ e ∈ all, IsRead e.2) found putEntry none
        fun all kept entry member e later => ?_
      rcases value_of_mem_putEntry later with same | before
      · rw [same]
        exact isRead_of_entriesOf values entry member
      · exact kept e before

theorem scalarValue_ne_map (form : Form) (text : String) (entries : Entries) :
    scalarValue form text ≠ .ok (.map entries) := by
  intro read
  unfold scalarValue at read
  cases form with
  | bool | int | float => exact Except.map_ne_ok nofun read
  | moment =>
      simp only [momentValue] at read
      split at read
      · cases read
      · split at read <;> cases read
  | _ => cases read

theorem defaultValue_ne_map (tag text : String) (entries : Entries) :
    defaultValue tag text ≠ .ok (.map entries) := by
  intro read
  unfold defaultValue at read
  split at read
  · cases read
  · exact scalarValue_ne_map _ _ _ read
  · split at read
    · exact Except.map_ne_ok nofun read
    · cases read

theorem valueOf_scalar_ne_map {tag : Option String} {plain : Bool} {text : String} :
    valueOf fuel (.scalar tag plain text) ≠ .ok (.map entries) := by
  intro read
  cases fuel with
  | zero => cases read
  | succ fuel =>
      rw [valueOf] at read
      split at read
      · exact scalarValue_ne_map _ _ _ read
      · split at read
        · exact Except.map_ne_ok nofun read
        · cases read

theorem valueOf_sequence_ne_map {tag : Option String} {items : List Node} :
    valueOf fuel (.sequence tag items) ≠ .ok (.map entries) := by
  intro read
  cases fuel with
  | zero => cases read
  | succ fuel =>
      cases tag with
      | none =>
          rw [valueOf] at read
          exact Except.map_ne_ok nofun read
      | some tag =>
          rw [valueOf] at read
          split at read
          · exact Except.map_ne_ok nofun read
          · split at read
            · exact Except.map_ne_ok nofun read
            · cases read

/-- A mapping with a tag is read as the mapping that it is without it, if it is read as one. -/
theorem mapOf_of_valueOf {tag : Option String}
    (read : valueOf fuel (.mapping tag nodes) = .ok (.map entries)) :
    ∃ fuel, mapOf fuel nodes = .ok (.map entries) := by
  cases fuel with
  | zero => cases read
  | succ fuel =>
      cases tag with
      | none =>
          rw [valueOf] at read
          exact ⟨fuel, read⟩
      | some tag =>
          rw [valueOf] at read
          split at read
          · exact ⟨fuel, read⟩
          · split at read
            · obtain ⟨found, keys, read⟩ := Except.bind_eq_ok_iff.1 read
              split at read
              · cases read
              · cases read
                exact ⟨fuel, keys⟩
            · split at read
              · exact absurd read (defaultValue_ne_map _ _ entries)
              · cases read

theorem mapping_of_valueOf (read : valueOf fuel n = .ok (.map entries)) :
    Distinct entries ∧ ∀ e ∈ entries, IsRead e.2 := by
  cases n with
  | scalar => exact absurd read valueOf_scalar_ne_map
  | sequence => exact absurd read valueOf_sequence_ne_map
  | mapping tag nodes =>
      obtain ⟨fuel, read⟩ := mapOf_of_valueOf read
      obtain ⟨_, same, kept⟩ := mapping_of_mapOf read
      cases same
      exact kept

end Yaml

/-- The mapping that a document is has no key twice, and neither has one among its values. -/
theorem Settings.Library.keyed_of_document {bytes : List UInt8} {entries : Entries}
    (read : standard.document bytes = .ok (.map entries)) : Keyed entries := by
  have value : Yaml.IsRead (.map entries) := by
    simp only [standard] at read
    split at read
    · cases read
    · rename_i text _
      cases found : Yaml.read (Text.unifyNewlines text) with
      | error fault =>
          rw [found] at read
          cases read
      | ok d =>
          rw [found] at read
          obtain rfl : d = .map entries := Except.ok.inj read
          obtain ⟨root, -, value⟩ := Except.bind_eq_ok_iff.1 found
          cases root with
          | none => cases value
          | some n =>
              obtain ⟨later, -, value⟩ := Except.bind_eq_ok_iff.1 value
              obtain ⟨-, -, value⟩ := Except.bind_eq_ok_iff.1 value
              exact ⟨_, n, value⟩
  obtain ⟨fuel, n, value⟩ := value
  obtain ⟨distinct, values⟩ := Yaml.mapping_of_valueOf value
  refine ⟨distinct, fun e member inner same => ?_⟩
  obtain ⟨fuel, n, value⟩ := values e member
  rw [same] at value
  exact (Yaml.mapping_of_valueOf value).1

end LineShell
