import Agenda.Proofs.Basic
import Agenda.Snapshot.Read
import Agenda.Snapshot.Write

/-! # Entries and their parts

    What a writer puts under a key is what a reader finds there, and what each reader of a part
    makes of a value that was written for it. -/

namespace Agenda

/-! ## Section 1: Sets of tags -/

theorem TagSet.ext {s s' : TagSet} (h : s.toList = s'.toList) : s = s' := by
  cases s
  cases s'
  cases h
  rfl

/-- A text before all others of a list goes to its front. -/
theorem TagSet.insertText_of_lt {t : Text} {l : List Text} (h : ∀ u ∈ l, t < u) :
    insertText t l = t :: l := by
  cases l with
  | nil => rfl
  | cons u rest => rw [insertText, if_pos (h u (List.mem_cons_self ..))]

theorem TagSet.insert_toList {name : Text} {s : TagSet} (hname : Tag.normalize name = name)
    (hne : name ≠ []) : (s.insert name).toList = insertText name s.toList := by
  unfold insert
  simp only [hname, dif_neg hne]

/-- The set of the tags of a set is the set itself. -/
theorem TagSet.ofList_toList (s : TagSet) : ofList s.toList = s := by
  suffices hlist : ∀ l : List Text, l.Pairwise (· < ·) →
      (∀ t ∈ l, Tag.normalize t = t ∧ t ≠ []) → (ofList l).toList = l from
    TagSet.ext (hlist s.toList s.sorted s.normal)
  intro l hsorted hnormal
  induction l with
  | nil => rfl
  | cons t rest ih =>
    obtain ⟨hfirst, hsorted⟩ := List.pairwise_cons.mp hsorted
    obtain ⟨⟨ht, hne⟩, hrest⟩ := List.forall_mem_cons.mp hnormal
    show ((ofList rest).insert t).toList = t :: rest
    rw [insert_toList ht hne, ih hsorted hrest, insertText_of_lt hfirst]

theorem TagSet.mem_insert {tag name : Text} {s : TagSet} :
    tag ∈ (s.insert name).toList ↔ tag ≠ [] ∧ Tag.normalize name = tag ∨ tag ∈ s.toList := by
  unfold insert
  by_cases hempty : Tag.normalize name = []
  · rw [dif_pos hempty, hempty]
    constructor
    · exact Or.inr
    · intro h
      rcases h with ⟨hne, rfl⟩ | h
      · exact absurd rfl hne
      · exact h
  · rw [dif_neg hempty, mem_insertText]
    constructor
    · intro h
      rcases h with rfl | h
      · exact Or.inl ⟨hempty, rfl⟩
      · exact Or.inr h
    · intro h
      rcases h with ⟨-, rfl⟩ | h
      · exact Or.inl rfl
      · exact Or.inr h

/-- A set has the kept forms of the names that it is made of, but for the empty one. -/
theorem TagSet.mem_ofList {tag : Text} {names : List Text} :
    tag ∈ (ofList names).toList ↔ tag ≠ [] ∧ ∃ name ∈ names, Tag.normalize name = tag := by
  induction names with
  | nil => simp [ofList, empty]
  | cons name rest ih =>
    show tag ∈ ((ofList rest).insert name).toList ↔ _
    rw [mem_insert, ih, List.exists_mem_cons_iff]
    exact and_or_left.symm

namespace Snapshot

/-! ## Section 2: Parts as they are written -/

section parts
variable {place : Place}

theorem readId_written (n : Option Int) :
    readId place ((n.map Datum.integer).getD .null) = .ok n := by
  cases n <;> rfl

theorem readMoment_written {stamp : Option Stamp} (h : ∀ s ∈ stamp, ∃ m, s = .moment m) :
    readMoment place ((stamp.map writeStamp).getD .null) = .ok stamp := by
  cases stamp with
  | none => rfl
  | some s =>
    obtain ⟨m, rfl⟩ := h s rfl
    rfl

theorem readDay_written {stamp : Option Stamp} (h : ∀ s ∈ stamp, ∃ d, s = .day d) :
    readDay place ((stamp.map writeStamp).getD .null) = .ok stamp := by
  cases stamp with
  | none => rfl
  | some s =>
    obtain ⟨d, rfl⟩ := h s rfl
    rfl

theorem readFlag_written (b : Bool) :
    readFlag place ((if b then some (.truth true) else none).getD .null) = .ok b := by
  cases b <;> rfl

theorem readLimit_written (n : Nat) :
    readLimit place ((if n = 0 then none else some (.integer n)).getD .null) = .ok n := by
  by_cases hn : n = 0
  · rw [if_pos hn, hn]
    rfl
  · rw [if_neg hn]
    rfl

theorem readText_text (t : Text) : readText (.text t) = .ok t := by
  show Except.ok (Datum.text t).plainOrEmpty = .ok t
  rw [Datum.plainOrEmpty_text]

theorem readBody_written (body : Option Text) :
    readBody ((body.map Datum.text).getD .null) = .ok body := by
  cases body <;> rfl

theorem readNames_written (id : TaskId) (tags : TagSet) :
    readNames id ((if tags.toList = [] then none
      else some (.list (tags.toList.map Datum.text))).getD .null) =
        .ok (tags.toList.map Datum.text) := by
  by_cases hnil : tags.toList = []
  · rw [if_pos hnil, hnil]
    rfl
  · have hitems : tags.toList.map Datum.text ≠ [] := mt List.map_eq_nil_iff.mp hnil
    rw [if_neg hnil]
    show readNames id (.list (tags.toList.map Datum.text)) = _
    unfold readNames
    rw [if_neg (by simpa [Datum.isEmpty] using hitems)]

/-- No text holds an integer. -/
theorem anyLongInteger_map_text (l : List Text) :
    Datum.anyLongInteger (l.map Datum.text) = false := by
  induction l with
  | nil => rfl
  | cons t rest ih => exact ih

theorem readTags_written (tags : TagSet) :
    readTags (tags.toList.map Datum.text) = .ok tags := by
  have hplain : (tags.toList.map Datum.text).map Datum.plain = tags.toList := by
    rw [List.map_map]
    exact List.map_id _
  unfold readTags
  rw [anyLongInteger_map_text, if_neg Bool.false_ne_true, hplain, TagSet.ofList_toList]

theorem readStatus_word (status : ProjectStatus) :
    readStatus (.text status.word) = .ok status := by
  cases status <;> rfl

end parts

/-! ## Section 3: Looking up what was written -/

/-- The entries of a map whose keys may each have a value or not. -/
def entriesOf (fields : List (String × Option Datum)) : List (Text × Datum) :=
  fields.flatMap fun f => optional f.1 id f.2

theorem optional_some (key : String) (d : Datum) : optional key id (some d) = [item key d] := rfl

theorem optional_map {α : Type} (key : String) (write : α → Datum) (v : Option α) :
    optional key id (v.map write) = optional key write v := by
  cases v <;> rfl

theorem optional_ite {p : Prop} [Decidable p] (key : String) (d : Datum) :
    optional key id (if p then some d else none) = if p then [item key d] else [] := by
  split <;> rfl

theorem optional_ite_not {p : Prop} [Decidable p] (key : String) (d : Datum) :
    optional key id (if p then none else some d) = if p then [] else [item key d] := by
  split <;> rfl

section fields
variable {key other : String} {v : Option Datum} {rest fields : List (String × Option Datum)}

theorem entry_entriesOf_cons_self (d : Datum) :
    Datum.entry (entriesOf ((key, some d) :: rest)) key.toList = d := by
  show Datum.entry (item key d :: entriesOf rest) key.toList = d
  simp only [Datum.entry, item, List.find?, beq_self_eq_true, Option.map_some, Option.getD_some]

theorem entry_entriesOf_cons_of_ne (h : other ≠ key) :
    Datum.entry (entriesOf ((other, v) :: rest)) key.toList =
      Datum.entry (entriesOf rest) key.toList := by
  cases v with
  | none => rfl
  | some d =>
    show Datum.entry (item other d :: entriesOf rest) key.toList = _
    have hne : (other.toList == key.toList) = false := by
      simpa [String.toList_inj] using h
    simp only [Datum.entry, item, List.find?, hne]

theorem entry_entriesOf_of_notMem (h : key ∉ fields.map Prod.fst) :
    Datum.entry (entriesOf fields) key.toList = .null := by
  induction fields with
  | nil => rfl
  | cons f rest ih =>
    obtain ⟨hne, hrest⟩ := not_or.mp (mt List.mem_cons.mpr h)
    rw [entry_entriesOf_cons_of_ne (Ne.symm hne), ih hrest]

/-- Under each key stands its value, and nothing where there is none. -/
theorem entry_entriesOf (hnodup : (fields.map Prod.fst).Nodup) (hmem : (key, v) ∈ fields) :
    Datum.entry (entriesOf fields) key.toList = v.getD .null := by
  induction fields with
  | nil => cases hmem
  | cons f rest ih =>
    obtain ⟨hkey, hrest⟩ := List.nodup_cons.mp hnodup
    rcases List.mem_cons.mp hmem with rfl | hmem
    · cases v with
      | none =>
        show Datum.entry (entriesOf rest) key.toList = .null
        exact entry_entriesOf_of_notMem hkey
      | some d => exact entry_entriesOf_cons_self d
    · have hne : f.1 ≠ key := by
        intro heq
        exact hkey (heq ▸ List.mem_map_of_mem hmem)
      rw [entry_entriesOf_cons_of_ne hne, ih hrest hmem]

end fields

end Snapshot

end Agenda
