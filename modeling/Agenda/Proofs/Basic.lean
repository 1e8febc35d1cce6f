import Mathlib.Data.List.Basic
import Mathlib.Data.List.Forall2
import Mathlib.Data.List.Nodup
import Mathlib.Order.Lattice

/-! # Results and lists in order

    A computation that can fail succeeds when its parts do; in a list whose items stand in a
    relation to all later ones, the first item and the last one bound the others.  What is
    looked up by key or put into order does not depend on how the list was arranged. -/

namespace Agenda

/-! ## Section 1: Computations that can fail -/

section results
variable {ε ε' α β : Type} {x : Except ε α} {next : α → Except ε β} {b : β}

/-- A computation succeeds when its first step does and the rest does on what that gives. -/
theorem bind_eq_ok_iff : (x >>= next) = .ok b ↔ ∃ a, x = .ok a ∧ next a = .ok b := by
  cases x with
  | error e =>
    constructor
    · intro h
      cases h
    · intro h
      obtain ⟨a, ha, -⟩ := h
      cases ha
  | ok a =>
    constructor
    · intro h
      exact ⟨a, rfl, h⟩
    · intro h
      obtain ⟨a', ha', h⟩ := h
      obtain rfl := Except.ok.inj ha'
      exact h

/-- A computation fails when its first step does, or when the rest does on what that gives. -/
theorem bind_eq_error_iff {e : ε} :
    (x >>= next) = .error e ↔ x = .error e ∨ ∃ a, x = .ok a ∧ next a = .error e := by
  cases x with
  | error e' =>
    show Except.error e' = .error e ↔ _
    simp
  | ok a =>
    show next a = .error e ↔ _
    simp

/-- What is computed from a result comes with it. -/
theorem map_eq_ok_iff {f : α → β} : f <$> x = .ok b ↔ ∃ a, x = .ok a ∧ f a = b := by
  cases x with
  | error e =>
    show Except.error e = .ok b ↔ _
    simp
  | ok a =>
    show Except.ok (f a) = .ok b ↔ _
    simp

theorem toOption_eq_some_iff {a : α} : x.toOption = some a ↔ x = .ok a := by
  cases x <;> simp [Except.toOption]

/-- Another wording of the error does not change success. -/
theorem mapError_eq_ok_iff {f : ε → ε'} {a : α} : x.mapError f = .ok a ↔ x = .ok a := by
  cases x <;> simp [Except.mapError]

theorem mapError_eq_error_iff {f : ε → ε'} {e' : ε'} :
    x.mapError f = .error e' ↔ ∃ e, x = .error e ∧ f e = e' := by
  cases x <;> simp [Except.mapError]

/-- All items of a list pass a computation when each of them does. -/
theorem mapM_eq_ok_iff {f : α → Except ε β} {l : List α} {r : List β} :
    l.mapM f = .ok r ↔ List.Forall₂ (fun a b => f a = .ok b) l r := by
  induction l generalizing r with
  | nil =>
    rw [List.mapM_nil, List.forall₂_nil_left_iff]
    constructor
    · intro h
      exact (Except.ok.inj h).symm
    · intro h
      rw [h]
      rfl
  | cons a rest ih =>
    rw [List.mapM_cons, bind_eq_ok_iff, List.forall₂_cons_left_iff]
    constructor
    · intro h
      obtain ⟨b, hb, h⟩ := h
      obtain ⟨bs, hbs, h⟩ := bind_eq_ok_iff.mp h
      exact ⟨b, bs, hb, ih.mp hbs, (Except.ok.inj h).symm⟩
    · intro h
      obtain ⟨b, bs, hb, hbs, rfl⟩ := h
      exact ⟨b, hb, bind_eq_ok_iff.mpr ⟨bs, ih.mpr hbs, rfl⟩⟩

/-- A list fails with the first of its items that fails. -/
theorem mapM_eq_error_iff {f : α → Except ε β} {l : List α} {e : ε} :
    l.mapM f = .error e ↔ ∃ before a after, l = before ++ a :: after ∧
      (∀ a' ∈ before, ∃ b, f a' = .ok b) ∧ f a = .error e := by
  induction l with
  | nil =>
    rw [List.mapM_nil]
    constructor
    · intro h
      cases h
    · intro h
      obtain ⟨before, a, after, hl, -⟩ := h
      cases before <;> cases hl
  | cons a rest ih =>
    rw [List.mapM_cons, bind_eq_error_iff]
    constructor
    · intro h
      rcases h with h | ⟨b, hb, h⟩
      · exact ⟨[], a, rest, rfl, List.forall_mem_nil _, h⟩
      · rcases bind_eq_error_iff.mp h with h | ⟨bs, -, h⟩
        · obtain ⟨before, a', after, rfl, hbefore, ha'⟩ := ih.mp h
          exact ⟨a :: before, a', after, rfl, List.forall_mem_cons.mpr ⟨⟨b, hb⟩, hbefore⟩, ha'⟩
        · cases h
    · intro h
      obtain ⟨before, a', after, hl, hbefore, ha'⟩ := h
      cases before with
      | nil =>
        obtain ⟨rfl, rfl⟩ := List.cons.inj hl
        exact Or.inl ha'
      | cons first before =>
        obtain ⟨rfl, rfl⟩ := List.cons.inj hl
        obtain ⟨⟨b, hb⟩, hbefore⟩ := List.forall_mem_cons.mp hbefore
        refine Or.inr ⟨b, hb, bind_eq_error_iff.mpr (Or.inl ?_)⟩
        exact ih.mpr ⟨before, a', after, rfl, hbefore, ha'⟩

/-- A run over a list fails at the first item that cannot be taken. -/
theorem foldlM_eq_error_iff {f : α → β → Except ε α} {l : List β} {a : α} {e : ε} :
    l.foldlM f a = .error e ↔ ∃ before b after a', l = before ++ b :: after ∧
      before.foldlM f a = .ok a' ∧ f a' b = .error e := by
  constructor
  · intro h
    induction l generalizing a with
    | nil => cases h
    | cons b rest ih =>
      rw [List.foldlM_cons] at h
      rcases bind_eq_error_iff.mp h with h | ⟨a', ha', h⟩
      · exact ⟨[], b, rest, a, rfl, rfl, h⟩
      · obtain ⟨before, b', after, a'', rfl, hbefore, hb'⟩ := ih h
        refine ⟨b :: before, b', after, a'', rfl, ?_, hb'⟩
        rw [List.foldlM_cons, ha']
        exact hbefore
  · intro h
    obtain ⟨before, b, after, a', rfl, hbefore, hb⟩ := h
    rw [List.foldlM_append, hbefore]
    show (b :: after).foldlM f a' = .error e
    rw [List.foldlM_cons, hb]
    rfl

/-- What comes out of a list comes from one of its items. -/
theorem exists_mem_of_mapM {f : α → Except ε β} {l : List α} {r : List β} {b : β}
    (h : l.mapM f = .ok r) (hb : b ∈ r) : ∃ a ∈ l, f a = .ok b := by
  have hall := mapM_eq_ok_iff.mp h
  clear h
  induction hall with
  | nil => cases hb
  | cons hab hrest ih =>
    rcases List.mem_cons.mp hb with rfl | hb
    · exact ⟨_, List.mem_cons_self .., hab⟩
    · obtain ⟨a, ha, hab⟩ := ih hb
      exact ⟨a, List.mem_cons_of_mem _ ha, hab⟩

end results

/-! ### Tests that can fail -/

section tests
variable {ε α β : Type} {test : α → Except ε Bool} {l l' kept : List α}

/-- Does a test that can fail come out true? -/
def comesTrue : Except ε Bool → Bool
  | .ok b => b
  | .error _ => false

@[simp] theorem comesTrue_ok (b : Bool) : comesTrue (.ok b : Except ε Bool) = b := rfl

theorem filterAuxM_eq_ok_iff {passed : List α} : l.filterAuxM test passed = .ok kept ↔
    (∀ a ∈ l, ∃ b, test a = .ok b) ∧
      kept = (l.filter fun a => comesTrue (test a)).reverse ++ passed := by
  induction l generalizing passed with
  | nil =>
    show Except.ok passed = .ok kept ↔ _
    simp [eq_comm]
  | cons a rest ih =>
    show (test a >>= fun b => rest.filterAuxM test (cond b (a :: passed) passed)) = .ok kept ↔ _
    rw [bind_eq_ok_iff]
    constructor
    · intro h
      obtain ⟨b, hb, h⟩ := h
      obtain ⟨hrest, rfl⟩ := ih.mp h
      refine ⟨List.forall_mem_cons.mpr ⟨⟨b, hb⟩, hrest⟩, ?_⟩
      cases b <;> simp [hb, comesTrue]
    · intro h
      obtain ⟨hall, rfl⟩ := h
      obtain ⟨⟨b, hb⟩, hrest⟩ := List.forall_mem_cons.mp hall
      refine ⟨b, hb, ih.mpr ⟨hrest, ?_⟩⟩
      cases b <;> simp [hb, comesTrue]

/-- A selection by tests that can fail succeeds when all tests do. -/
theorem filterM_eq_ok_iff : l.filterM test = .ok kept ↔
    (∀ a ∈ l, ∃ b, test a = .ok b) ∧ kept = l.filter fun a => comesTrue (test a) := by
  unfold List.filterM
  rw [bind_eq_ok_iff]
  constructor
  · intro h
    obtain ⟨passed, hpassed, h⟩ := h
    obtain ⟨hall, rfl⟩ := filterAuxM_eq_ok_iff.mp hpassed
    obtain rfl := Except.ok.inj h
    exact ⟨hall, by simp⟩
  · intro h
    obtain ⟨hall, rfl⟩ := h
    refine ⟨_, filterAuxM_eq_ok_iff.mpr ⟨hall, rfl⟩, ?_⟩
    show Except.ok _ = _
    simp

/-- Where there is one error only, what is computed from a selection does not depend on the
    arrangement of the list if it does not depend on that of the selected items. -/
theorem filterM_bind_congr [Subsingleton ε] {next next' : List α → Except ε β} (h : l.Perm l')
    (hnext : ∀ kept kept', kept ⊆ l → kept.Perm kept' → next kept = next' kept') :
    (l.filterM test >>= next) = (l'.filterM test >>= next') := by
  -- which item fails first depends on the arrangement, but not whether one does
  by_cases hall : ∀ a ∈ l, ∃ b, test a = .ok b
  · have hall' : ∀ a ∈ l', ∃ b, test a = .ok b := fun a ha => hall a (h.mem_iff.mpr ha)
    rw [filterM_eq_ok_iff.mpr ⟨hall, rfl⟩, filterM_eq_ok_iff.mpr ⟨hall', rfl⟩]
    exact hnext _ _ (List.filter_subset_self _) (h.filter _)
  · have hall' : ¬∀ a ∈ l', ∃ b, test a = .ok b :=
      fun hall' => hall fun a ha => hall' a (h.mem_iff.mp ha)
    cases hl : l.filterM test with
    | ok kept => exact absurd (filterM_eq_ok_iff.mp hl).1 hall
    | error e =>
      cases hl' : l'.filterM test with
      | ok kept => exact absurd (filterM_eq_ok_iff.mp hl').1 hall'
      | error e' =>
        rw [Subsingleton.elim e e']
        rfl

end tests

/-! ## Section 2: Lists in order -/

section lists
variable {α : Type} {r : α → α → Prop} {l : List α} {a : α}

theorem eq_or_rel_getLast (h : l.Pairwise r) (ha : a ∈ l) :
    ∃ last ∈ l.getLast?, a = last ∨ r a last := by
  obtain ⟨front, last, rfl⟩ := (List.eq_nil_or_concat' l).resolve_left (List.ne_nil_of_mem ha)
  refine ⟨last, by simp, ?_⟩
  rcases List.mem_append.mp ha with ha | ha
  · exact Or.inr ((List.pairwise_append.mp h).2.2 a ha last (List.mem_singleton.mpr rfl))
  · exact Or.inl (List.mem_singleton.mp ha)

theorem eq_or_rel_head (h : l.Pairwise r) (ha : a ∈ l) :
    ∃ first ∈ l.head?, first = a ∨ r first a := by
  cases l with
  | nil => cases ha
  | cons first rest =>
    refine ⟨first, rfl, ?_⟩
    rcases List.mem_cons.mp ha with rfl | ha
    · exact Or.inl rfl
    · exact Or.inr ((List.pairwise_cons.mp h).1 a ha)

/-- What comes before an item that is there once stands in front of it. -/
theorem mem_of_pair_sublist {b : α} {front back : List α} (hnodup : (front ++ a :: back).Nodup)
    (h : [b, a].Sublist (front ++ a :: back)) : b ∈ front := by
  have hback : a ∉ back := (List.nodup_cons.mp (List.nodup_append.mp hnodup).2.1).1
  obtain ⟨first, second, hsplit, hb, ha⟩ := List.cons_sublist_iff.mp h
  rcases List.append_eq_append_iff.mp hsplit with ⟨c, rfl, hc⟩ | ⟨c, rfl, -⟩
  · cases c with
    | nil => simpa using hb
    | cons x c =>
      -- then the item would stand in the second part, behind itself
      rw [List.cons_append] at hc
      obtain ⟨rfl, rfl⟩ := List.cons.inj hc
      exact absurd (List.mem_append_right c (List.singleton_sublist.mp ha)) hback
  · exact List.mem_append_left _ hb

/-- To keep the items of a part of a list leaves the part. -/
theorem filter_mem_of_sublist {part : List α} {p : α → Bool} (hnodup : l.Nodup)
    (hpart : part.Sublist l) (hp : ∀ a, p a = true ↔ a ∈ part) : l.filter p = part := by
  have hfilter : part.Sublist (l.filter p) := by
    have h := hpart.filter p
    rwa [List.filter_eq_self.mpr fun a ha => (hp a).mpr ha] at h
  have hperm : (l.filter p).Perm part := by
    rw [List.perm_ext_iff_of_nodup (hnodup.filter p) (hnodup.sublist hpart)]
    intro a
    rw [List.mem_filter, hp]
    exact and_iff_right_of_imp fun ha => hpart.subset ha
  exact (hfilter.eq_of_length hperm.length_eq.symm).symm

/-- The items that pass and stand before the place `n` among those are the first `n` of them. -/
theorem filter_eq_take {p q : α → Bool} {n : Nat} (h : ∀ front a back, l = front ++ a :: back →
    (q a = true ↔ p a = true ∧ front.countP p < n)) : l.filter q = (l.filter p).take n := by
  induction l generalizing n with
  | nil => exact List.take_nil.symm
  | cons a rest ih =>
    have hfirst := h [] a rest rfl
    rw [List.countP_nil] at hfirst
    by_cases hp : p a = true
    · cases n with
      | zero =>
        have hnone : ∀ b ∈ a :: rest, ¬q b = true := by
          intro b hb hq
          obtain ⟨front, back, hsplit⟩ := List.append_of_mem hb
          exact absurd ((h front b back hsplit).mp hq).2 (Nat.not_lt_zero _)
        rw [List.filter_eq_nil_iff.mpr hnone, List.take_zero]
      | succ n =>
        have hrest : rest.filter q = (rest.filter p).take n := by
          apply ih
          intro front b back hsplit
          have hb := h (a :: front) b back (congrArg (a :: ·) hsplit)
          rw [List.countP_cons_of_pos hp, Nat.add_lt_add_iff_right] at hb
          exact hb
        rw [List.filter_cons_of_pos (hfirst.mpr ⟨hp, Nat.succ_pos n⟩),
          List.filter_cons_of_pos hp, List.take_succ_cons, hrest]
    · have hrest : rest.filter q = (rest.filter p).take n := by
        apply ih
        intro front b back hsplit
        have hb := h (a :: front) b back (congrArg (a :: ·) hsplit)
        rwa [List.countP_cons_of_neg hp] at hb
      rw [List.filter_cons_of_neg (fun hq => hp (hfirst.mp hq).1), List.filter_cons_of_neg hp,
        hrest]

end lists

/-! ## Section 3: Lists in any arrangement -/

section arrangements
variable {α κ : Type} {l l' : List α}

/-- Where no two items have one key, an item is found under its own. -/
theorem find?_key_eq_some_iff [BEq κ] [LawfulBEq κ] {key : α → κ} {k : κ} {a : α}
    (hnodup : (l.map key).Nodup) : l.find? (key · == k) = some a ↔ a ∈ l ∧ key a = k := by
  constructor
  · intro h
    exact ⟨List.mem_of_find?_eq_some h, by simpa using List.find?_some h⟩
  · intro h
    obtain ⟨ha, hkey⟩ := h
    have hsome : (l.find? (key · == k)).isSome = true :=
      List.find?_isSome.mpr ⟨a, ha, by simp [hkey]⟩
    obtain ⟨b, hb⟩ := Option.isSome_iff_exists.mp hsome
    have hkeyb : key b = k := by simpa using List.find?_some hb
    rw [hb, List.inj_on_of_nodup_map hnodup (List.mem_of_find?_eq_some hb) ha
      (hkeyb.trans hkey.symm)]

theorem find?_key_perm [BEq κ] [LawfulBEq κ] {key : α → κ} (hnodup : (l.map key).Nodup)
    (h : l.Perm l') (k : κ) : l.find? (key · == k) = l'.find? (key · == k) := by
  have hnodup' : (l'.map key).Nodup := (h.map key).nodup_iff.mp hnodup
  apply Option.ext
  intro a
  rw [find?_key_eq_some_iff hnodup, find?_key_eq_some_iff hnodup', h.mem_iff]

/-- An order that tells the items of a list apart gives one arrangement only. -/
theorem mergeSort_perm_eq {le : α → α → Bool}
    (htrans : ∀ a b c, le a b = true → le b c = true → le a c = true)
    (htotal : ∀ a b, (le a b || le b a) = true)
    (hanti : ∀ a ∈ l, ∀ b ∈ l, le a b = true → le b a = true → a = b) (h : l.Perm l') :
    l.mergeSort le = l'.mergeSort le := by
  have hperm : (l.mergeSort le).Perm (l'.mergeSort le) :=
    (List.mergeSort_perm l le).trans (h.trans (List.mergeSort_perm l' le).symm)
  refine List.Perm.eq_of_pairwise ?_ (List.pairwise_mergeSort htrans htotal l)
    (List.pairwise_mergeSort htrans htotal l') hperm
  intro a b ha hb
  have hb' := hperm.mem_iff.mpr hb
  exact hanti a (List.mem_mergeSort.mp ha) b (List.mem_mergeSort.mp hb')

section stability
variable {le : α → α → Bool} (htrans : ∀ a b c, le a b = true → le b c = true → le a c = true)
  (htotal : ∀ a b, (le a b || le b a) = true)
include htrans htotal

/-- One more item in front is sorted behind the items that may not follow it. -/
theorem mergeSort_cons_eq (a : α) (l : List α) :
    (a :: l).mergeSort le =
      (l.mergeSort le).filter (fun b => !le a b) ++ a :: (l.mergeSort le).filter (le a) ∧
    l.mergeSort le =
      (l.mergeSort le).filter (fun b => !le a b) ++ (l.mergeSort le).filter (le a) := by
  obtain ⟨front, back, hsort, hrest, hfront⟩ := List.mergeSort_cons htrans htotal a l
  have hsorted := List.pairwise_mergeSort htrans htotal (a :: l)
  rw [hsort] at hsorted
  have hback : ∀ b ∈ back, le a b = true :=
    (List.pairwise_cons.mp (List.pairwise_append.mp hsorted).2.1).1
  have hfront' : ∀ b ∈ front, ¬le a b = true := by simpa using hfront
  have hback' : ∀ b ∈ back, ¬(!le a b) = true := by simpa using hback
  rw [hsort, hrest, List.filter_append, List.filter_append, List.filter_eq_self.mpr hfront,
    List.filter_eq_nil_iff.mpr hback', List.filter_eq_nil_iff.mpr hfront',
    List.filter_eq_self.mpr hback, List.append_nil, List.nil_append]
  exact ⟨rfl, rfl⟩

/-- It does not matter whether items are left out before sorting or after it. -/
theorem filter_mergeSort (p : α → Bool) (l : List α) :
    (l.mergeSort le).filter p = (l.filter p).mergeSort le := by
  induction l with
  | nil => simp
  | cons a l ih =>
    obtain ⟨hsort, hrest⟩ := mergeSort_cons_eq htrans htotal a l
    by_cases hp : p a = true
    · rw [hsort, List.filter_append, List.filter_cons_of_pos hp, List.filter_cons_of_pos hp,
        (mergeSort_cons_eq htrans htotal a (l.filter p)).1, List.filter_comm p,
        List.filter_comm p, ih]
    · rw [hsort, List.filter_append, List.filter_cons_of_neg hp, List.filter_cons_of_neg hp,
        ← List.filter_append, ← hrest, ih]

/-- Sorting keeps the order of items that may stand either way. -/
theorem pairwise_mergeSort_stable {r : α → α → Prop} (h : l.Pairwise r) :
    (l.mergeSort le).Pairwise fun a b => le a b = true ∧ (le b a = true → r a b) := by
  rw [List.pairwise_iff_forall_sublist]
  intro a b hab
  have hsorted := List.pairwise_mergeSort htrans htotal l
  have hle : le a b = true := List.pairwise_iff_forall_sublist.mp hsorted hab
  refine ⟨hle, ?_⟩
  intro hba
  -- among the items level with `a` nothing has moved
  have hlevel : (l.mergeSort le).filter (fun x => le a x && le x a) =
      l.filter fun x => le a x && le x a := by
    rw [filter_mergeSort htrans htotal]
    apply List.mergeSort_of_pairwise
    refine List.pairwise_of_forall_mem_list ?_
    intro x hx y hy
    have hxa : le x a = true := ((Bool.and_eq_true _ _).mp (List.mem_filter.mp hx).2).2
    have hay : le a y = true := ((Bool.and_eq_true _ _).mp (List.mem_filter.mp hy).2).1
    exact htrans x a y hxa hay
  have haa : le a a = true := by simpa using htotal a a
  have hboth := hab.filter fun x => le a x && le x a
  rw [hlevel] at hboth
  have hpair : [a, b].Sublist l := by
    simpa [haa, hle, hba] using hboth.trans (List.filter_sublist (l := l))
  exact List.pairwise_iff_forall_sublist.mp h hpair

end stability

section keys
variable [LinearOrder κ] {key : α → κ}

theorem key_le_trans (a b c : α) (hab : decide (key a ≤ key b) = true)
    (hbc : decide (key b ≤ key c) = true) : decide (key a ≤ key c) = true := by
  rw [decide_eq_true_iff] at hab hbc ⊢
  exact le_trans hab hbc

theorem key_le_total (a b : α) : (decide (key a ≤ key b) || decide (key b ≤ key a)) = true := by
  rw [Bool.or_eq_true, decide_eq_true_iff, decide_eq_true_iff]
  exact le_total (key a) (key b)

theorem key_eq_of_le {a b : α} (hab : decide (key a ≤ key b) = true)
    (hba : decide (key b ≤ key a) = true) : key a = key b := by
  rw [decide_eq_true_iff] at hab hba
  exact le_antisymm hab hba

/-- Where no two items have one key, the order of the keys gives one arrangement only. -/
theorem mergeSort_key_perm_eq (hnodup : (l.map key).Nodup) (h : l.Perm l') :
    (l.mergeSort fun a b => decide (key a ≤ key b)) =
      l'.mergeSort fun a b => decide (key a ≤ key b) := by
  refine mergeSort_perm_eq key_le_trans key_le_total ?_ h
  intro a ha b hb hab hba
  exact List.inj_on_of_nodup_map hnodup ha hb (key_eq_of_le hab hba)

end keys

/-- `le'` compares keys first, and by `le` where they are equal. -/
def RefinesBy [LT κ] (key : α → κ) (le le' : α → α → Bool) : Prop :=
  ∀ a b, le' a b = true ↔ key a < key b ∨ key a = key b ∧ le a b = true

section refinement
variable [LinearOrder κ] {key : α → κ} {le le' : α → α → Bool} (h : RefinesBy key le le')
include h

theorem RefinesBy.trans (htrans : ∀ a b c, le a b = true → le b c = true → le a c = true) :
    ∀ a b c, le' a b = true → le' b c = true → le' a c = true := by
  intro a b c hab hbc
  rw [h] at hab hbc ⊢
  rcases hab with hab | ⟨hab, hab'⟩
  · rcases hbc with hbc | ⟨hbc, -⟩
    · exact Or.inl (lt_trans hab hbc)
    · exact Or.inl (hbc ▸ hab)
  · rcases hbc with hbc | ⟨hbc, hbc'⟩
    · exact Or.inl (hab ▸ hbc)
    · exact Or.inr ⟨hab.trans hbc, htrans a b c hab' hbc'⟩

theorem RefinesBy.total (htotal : ∀ a b, (le a b || le b a) = true) :
    ∀ a b, (le' a b || le' b a) = true := by
  intro a b
  rw [Bool.or_eq_true, h, h]
  rcases lt_trichotomy (key a) (key b) with hlt | heq | hlt
  · exact Or.inl (Or.inl hlt)
  · rcases (Bool.or_eq_true _ _).mp (htotal a b) with hle | hle
    · exact Or.inl (Or.inr ⟨heq, hle⟩)
    · exact Or.inr (Or.inr ⟨heq.symm, hle⟩)
  · exact Or.inr (Or.inl hlt)

theorem RefinesBy.le_of_mutual {a b : α} (hab : le' a b = true) (hba : le' b a = true) :
    le a b = true ∧ le b a = true := by
  rw [h] at hab hba
  rcases hab with hab | ⟨heq, hab⟩
  · rcases hba with hba | ⟨heq, -⟩
    · exact absurd (lt_trans hab hba) (lt_irrefl _)
    · exact absurd (heq ▸ hab) (lt_irrefl _)
  · rcases hba with hba | ⟨-, hba⟩
    · exact absurd (heq ▸ hba) (lt_irrefl _)
    · exact ⟨hab, hba⟩

/-- Items that `le` tells apart have one arrangement in the order that refines it. -/
theorem RefinesBy.mergeSort_perm_eq
    (htrans : ∀ a b c, le a b = true → le b c = true → le a c = true)
    (htotal : ∀ a b, (le a b || le b a) = true)
    (hanti : ∀ a ∈ l, ∀ b ∈ l, le a b = true → le b a = true → a = b) (hperm : l.Perm l') :
    l.mergeSort le' = l'.mergeSort le' := by
  refine Agenda.mergeSort_perm_eq (h.trans htrans) (h.total htotal) ?_ hperm
  intro a ha b hb hab hba
  obtain ⟨hab, hba⟩ := h.le_of_mutual hab hba
  exact hanti a ha b hb hab hba

end refinement

end arrangements

end Agenda
