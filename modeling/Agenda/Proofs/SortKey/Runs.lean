import Agenda.Proofs.Basic
import Agenda.Proofs.SortKey.Keys

/-! # Runs of insertions

    A list of keys into which keys are inserted, from which keys are removed, and which is
    given fresh keys.  Every run keeps the list in order and its keys accepted, as long as the
    insertions before the first key find integer parts below it other than the smallest one:
    this is exactly what is needed (`run_keepsOrder_iff`). -/

namespace Agenda.SortKey

/-! ## Section 1: Many keys -/

/-- `ks` are `n` accepted keys in order between the bounds. -/
structure Fills (before after : Option Text) (n : Nat) (ks : List Text) : Prop where
  length    : ks.length = n
  ascending : ks.Pairwise (· < ·)
  isKey     : ∀ k ∈ ks, IsKey k
  above     : ∀ a ∈ before, ∀ k ∈ ks, a < k
  below     : ∀ b ∈ after, ∀ k ∈ ks, k < b

theorem fills_nil (before after : Option Text) : Fills before after 0 [] := by
  refine ⟨rfl, List.Pairwise.nil, ?_, ?_, ?_⟩ <;> simp

section fills
variable {before after : Option Text} {k : Text} {m n : Nat} {ks ks' : List Text}

/-- Keys on both sides of a key fill the bounds together with it. -/
theorem Fills.append (h : Fills before (some k) m ks) (h' : Fills (some k) after n ks')
    (hk : IsKey k) (hbefore : ∀ a ∈ before, a < k) (hafter : ∀ b ∈ after, k < b) :
    Fills before after (m + 1 + n) (ks ++ k :: ks') := by
  have hleft := h.below k rfl
  have hright := h'.above k rfl
  -- what is to the left of `k` is below it, what is to the right above it
  refine ⟨?_, ?_, ?_, ?_, ?_⟩
  · rw [List.length_append, List.length_cons, h.length, h'.length]
    omega
  · refine List.pairwise_append.mpr ⟨h.ascending, List.pairwise_cons.mpr ⟨hright, h'.ascending⟩, ?_⟩
    intro x hx y hy
    rcases List.mem_cons.mp hy with rfl | hy
    · exact hleft x hx
    · exact lt_trans (hleft x hx) (hright y hy)
  · intro x hx
    rcases List.mem_append.mp hx with hx | hx
    · exact h.isKey x hx
    · rcases List.mem_cons.mp hx with rfl | hx
      · exact hk
      · exact h'.isKey x hx
  · intro a ha x hx
    rcases List.mem_append.mp hx with hx | hx
    · exact h.above a ha x hx
    · rcases List.mem_cons.mp hx with rfl | hx
      · exact hbefore a ha
      · exact lt_trans (hbefore a ha) (hright x hx)
  · intro b hb x hx
    rcases List.mem_append.mp hx with hx | hx
    · exact lt_trans (hleft x hx) (hafter b hb)
    · rcases List.mem_cons.mp hx with rfl | hx
      · exact hafter b hb
      · exact h'.below b hb x hx

/-- The keys before the last one fill what is below it. -/
theorem Fills.of_concat (h : Fills before after (n + 1) (ks ++ [k])) :
    Fills before (some k) n ks := by
  have hmem : ∀ {x}, x ∈ ks → x ∈ ks ++ [k] := fun hx => List.mem_append.mpr (Or.inl hx)
  refine ⟨?_, (List.pairwise_append.mp h.ascending).1, fun x hx => h.isKey x (hmem hx),
    fun a ha x hx => h.above a ha x (hmem hx), ?_⟩
  · have hlength := h.length
    rw [List.length_append, List.length_singleton] at hlength
    omega
  · rintro b ⟨⟩ x hx
    exact (List.pairwise_append.mp h.ascending).2.2 x hx k (List.mem_singleton.mpr rfl)

end fills

theorem afterLast_spec {last : Option Text} (hlast : ∀ a ∈ last, IsKey a) :
    ∃ k, between last none = .ok k ∧ IsKey k ∧ ∀ a ∈ last, a < k := by
  cases last with
  | none => exact ⟨defaultKey, rfl, isKey_defaultKey, by simp⟩
  | some a =>
    obtain ⟨k, hk, hkey, hlt⟩ := above_spec (hlast a rfl)
    refine ⟨k, by rw [between_some_none (hlast a rfl), hk], hkey, ?_⟩
    rintro a' ⟨⟩
    exact hlt

/-- After every accepted key there are as many as are asked for. -/
theorem manyAfter_spec (n : Nat) (last : Option Text) (hlast : ∀ a ∈ last, IsKey a) :
    ∃ ks, manyAfter last n = .ok ks ∧ Fills last none n ks := by
  induction n generalizing last with
  | zero => exact ⟨[], rfl, fills_nil last none⟩
  | succ n ih =>
    obtain ⟨k, hk, hkey, hlt⟩ := afterLast_spec hlast
    obtain ⟨ks, hks, hfills⟩ := ih (some k) (by rintro a ⟨⟩; exact hkey)
    refine ⟨k :: ks, ?_, ?_⟩
    · rw [manyAfter, hk]
      show (manyAfter (some k) n >>= fun ks => pure (k :: ks)) = _
      rw [hks]
      rfl
    · have h := Fills.append (fills_nil last (some k)) hfills hkey hlt (by simp)
      rwa [Nat.zero_add, Nat.add_comm] at h

/-- Between two accepted keys there are as many as are asked for. -/
theorem manyInside_spec (n : Nat) {a b : Text} (ha : IsKey a) (hb : IsKey b) (hab : a < b) :
    ∃ ks, manyInside a b n = .ok ks ∧ Fills (some a) (some b) n ks := by
  -- the one in the middle bounds both halves, which are smaller
  induction n using Nat.strongRecOn generalizing a b with
  | ind n ih =>
    cases n with
    | zero => exact ⟨[], by rw [manyInside], fills_nil _ _⟩
    | succ n =>
      obtain ⟨k, hk, hkey, hak, hkb⟩ := inside_spec ha hb hab
      obtain ⟨left, hleft, hfills⟩ := ih ((n + 1) / 2) (by omega) ha hkey hak
      obtain ⟨right, hright, hfills'⟩ := ih (n - (n + 1) / 2) (by omega) hkey hb hkb
      refine ⟨left ++ k :: right, ?_, ?_⟩
      · rw [manyInside, between_some_some ha hb hab, hk]
        show (manyInside a k ((n + 1) / 2) >>= fun left =>
          manyInside k b (n - (n + 1) / 2) >>= fun right => pure (left ++ k :: right)) = _
        rw [hleft, hright]
        rfl
      · have h := Fills.append hfills hfills' hkey (by rintro a' ⟨⟩; exact hak)
          (by rintro b' ⟨⟩; exact hkb)
        have hsum : (n + 1) / 2 + 1 + (n - (n + 1) / 2) = n + 1 := by omega
        rwa [hsum] at h

/-- Below the key there are `n` integer parts other than the smallest, or its own integer part
    is the smallest and more fractions of it serve. -/
def HasRoomBelow (first : Text) (n : Nat) : Prop :=
  integerPart first = smallestInteger ∨ (n : Int) ≤ integersBelow first

/-- There is room for one more exactly if the first one made is accepted and leaves room for the
    others. -/
theorem hasRoomBelow_succ_iff (n : Nat) {b k : Text} (hb : IsKey b) (hk : below b = .ok k) :
    HasRoomBelow b (n + 1) ↔ IsKey k ∧ HasRoomBelow k n := by
  obtain ⟨k', hk', -, -, hcases⟩ := below_spec hb
  obtain rfl := Except.ok.inj (hk'.symm.trans hk)
  unfold HasRoomBelow
  rcases hcases with ⟨hsmallest, hkey, hsmallest'⟩ | ⟨hne, hinteger, hnumber⟩
  · exact ⟨fun _ => ⟨hkey, Or.inl hsmallest'⟩, fun _ => Or.inl hsmallest⟩
  · -- an integer part without a fraction: one less is below it than below `b`
    have hbelow : integersBelow k' = integersBelow b - 1 := by
      rw [← hnumber, integersBelow, integerPart_of_isInteger hinteger,
        fractionPart_of_isInteger hinteger, if_pos rfl]
    rw [integerPart_of_isInteger hinteger, hbelow]
    constructor
    · intro h
      rcases h with h | h
      · exact absurd h hne
      · refine ⟨isKey_of_isInteger hinteger ?_, Or.inr (by omega)⟩
        rintro rfl
        rw [number_smallest] at hnumber
        omega
    · intro h
      obtain ⟨hkey, h | h⟩ := h
      · exact absurd h hkey.ne_smallest
      · exact Or.inr (by omega)

/-- **Below an accepted key there are as many as there is room for, and no more.** -/
theorem manyBefore_iff (n : Nat) {b : Text} (hb : IsKey b) :
    (∃ ks, manyBefore (some b) n = .ok ks ∧ Fills none (some b) n ks) ↔ HasRoomBelow b n := by
  -- the keys are made downwards, so the upper bound changes with each
  induction n generalizing b with
  | zero =>
    refine ⟨fun _ => ?_, fun _ => ⟨[], rfl, fills_nil none (some b)⟩⟩
    obtain ⟨k, -, hk, -, ⟨hsmallest, -⟩ | ⟨-, hinteger, hnumber⟩⟩ := below_spec hb
    · exact Or.inl hsmallest
    · have hge := hinteger.number_ge
      exact Or.inr (by omega)
  | succ n ih =>
    obtain ⟨k, hk, -, hkb, -⟩ := below_spec hb
    have hmany : manyBefore (some b) (n + 1) =
        (manyBefore (some k) n >>= fun ks => pure (ks ++ [k])) := by
      rw [manyBefore, between_none_some hb, hk]
      rfl
    rw [hasRoomBelow_succ_iff n hb hk, hmany]
    constructor
    · intro h
      obtain ⟨ks, hks, hfills⟩ := h
      obtain ⟨ks', hbefore, hks⟩ := bind_eq_ok_iff.mp hks
      obtain rfl := Except.ok.inj hks
      have hkey := hfills.isKey k (List.mem_append.mpr (Or.inr (List.mem_singleton.mpr rfl)))
      exact ⟨hkey, (ih hkey).mp ⟨ks', hbefore, hfills.of_concat⟩⟩
    · intro h
      obtain ⟨hkey, hbelow⟩ := h
      obtain ⟨ks, hks, hfills⟩ := (ih hkey).mpr hbelow
      refine ⟨ks ++ [k], by rw [hks]; rfl, ?_⟩
      exact hfills.append (fills_nil (some k) (some b)) hkey (by simp) (by rintro b' ⟨⟩; exact hkb)

/-- **Between bounds in order there are as many keys as are asked for**, but for what is below a
    first key: there has to be room. -/
theorem many_iff {before after : Option Text} (n : Nat) (hbefore : ∀ a ∈ before, IsKey a)
    (hafter : ∀ b ∈ after, IsKey b) (hlt : ∀ a ∈ before, ∀ b ∈ after, a < b) :
    (∃ ks, many before after n = .ok ks ∧ Fills before after n ks) ↔
      (before = none → ∀ b ∈ after, HasRoomBelow b n) := by
  cases after with
  | none =>
    have h := manyAfter_spec n before hbefore
    cases before <;> exact ⟨fun _ _ => by simp, fun _ => h⟩
  | some b =>
    cases before with
    | none =>
      have h := manyBefore_iff n (hafter b rfl)
      simpa [many] using h
    | some a =>
      have h := manyInside_spec n (hbefore a rfl) (hafter b rfl) (hlt a rfl b rfl)
      exact ⟨fun _ => by simp, fun _ => h⟩

/-! ## Section 2: Lists of keys -/

/-- A list of accepted keys, each below the next. -/
structure Ordered (keys : List Text) : Prop where
  ascending : keys.Pairwise (· < ·)
  accepted  : ∀ k ∈ keys, isValid k = true

section lists
variable {left right ks : List Text} {n : Nat}

/-- An ordered list stays ordered exactly when what is put into it fills the gap. -/
theorem ordered_insert_iff (h : Ordered (left ++ right)) (hlen : ks.length = n) :
    Ordered (left ++ ks ++ right) ↔ Fills left.getLast? right.head? n ks := by
  obtain ⟨hleft, hright, hcross⟩ := List.pairwise_append.mp h.ascending
  constructor
  · intro h
    obtain ⟨hascending, haccepted⟩ := h
    rw [List.append_assoc] at hascending haccepted
    obtain ⟨-, hrest, hleftRest⟩ := List.pairwise_append.mp hascending
    obtain ⟨hks, -, hksRight⟩ := List.pairwise_append.mp hrest
    refine ⟨hlen, hks, ?_, ?_, ?_⟩
    · intro k hk
      exact isValid_iff.mp (haccepted k (by simp [hk]))
    · intro a ha k hk
      exact hleftRest a (List.mem_of_getLast? ha) k (by simp [hk])
    · intro b hb k hk
      exact hksRight k hk b (List.mem_of_head? hb)
  · intro hfills
    -- the neighbours of the gap bound all that is farther away
    have hleftKs : ∀ a ∈ left, ∀ k ∈ ks, a < k := by
      intro a ha k hk
      obtain ⟨last, hlast, rfl | hlt⟩ := eq_or_rel_getLast hleft ha
      · exact hfills.above a hlast k hk
      · exact lt_trans hlt (hfills.above last hlast k hk)
    have hksRight : ∀ k ∈ ks, ∀ b ∈ right, k < b := by
      intro k hk b hb
      obtain ⟨first, hfirst, rfl | hlt⟩ := eq_or_rel_head hright hb
      · exact hfills.below first hfirst k hk
      · exact lt_trans (hfills.below first hfirst k hk) hlt
    refine ⟨?_, ?_⟩
    · refine List.pairwise_append.mpr
        ⟨List.pairwise_append.mpr ⟨hleft, hfills.ascending, hleftKs⟩, hright, ?_⟩
      intro a ha b hb
      rcases List.mem_append.mp ha with ha | ha
      · exact hcross a ha b hb
      · exact hksRight a ha b hb
    · intro k hk
      rcases List.mem_append.mp hk with hk | hk
      · rcases List.mem_append.mp hk with hk | hk
        · exact h.accepted k (List.mem_append.mpr (Or.inl hk))
        · exact isValid_iff.mpr (hfills.isKey k hk)
      · exact h.accepted k (List.mem_append.mpr (Or.inr hk))

end lists

/-! ## Section 3: Steps and runs -/

/-- What is done to a list of keys: `count` keys are made for the place at `index`, the key at
    `index` is dropped, or fresh keys are made for the whole list. -/
inductive KeyStep where
  | insert (index count : Nat)
  | remove (index : Nat)
  | rebalance

namespace KeyStep

/-- The list after a step. -/
def apply (keys : List Text) : KeyStep → Except KeyError (List Text)
  | insert i n => do
    let new ← keysBetween (keys.take i).getLast? (keys.drop i).head? n
    return keys.take i ++ new ++ keys.drop i
  | remove i => return keys.eraseIdx i
  | rebalance => SortKey.rebalance keys.length

/-- How long the list is after a step. -/
def lengthAfter (keys : List Text) : KeyStep → Nat
  | insert _ n => keys.length + n
  | remove i => (keys.eraseIdx i).length
  | rebalance => keys.length

/-- Is there room for the keys of a step?  Only keys before the first one need it. -/
def HasRoom (keys : List Text) : KeyStep → Prop
  | insert 0 n => ∀ first ∈ keys.head?, HasRoomBelow first n
  | _ => True

end KeyStep

theorem keysBetween_eq_many (before after : Option Text) (n : Nat) :
    keysBetween before after n = many before after n := by
  rw [keysBetween, if_neg (by omega), Int.toNat_natCast]

/-- Fresh keys are in order, as many as are asked for. -/
theorem rebalance_spec (n : Nat) : ∃ ks, rebalance n = .ok ks ∧ ks.length = n ∧ Ordered ks := by
  obtain ⟨ks, hks, hfills⟩ := manyAfter_spec n none (by simp)
  refine ⟨ks, ?_, hfills.length, hfills.ascending, ?_⟩
  · rw [rebalance, keysBetween_eq_many]
    exact hks
  · intro k hk
    exact isValid_iff.mpr (hfills.isKey k hk)

/-- The step succeeds, makes as many keys as it is asked for, and leaves the list in order. -/
def KeyStep.KeepsOrder (keys : List Text) (s : KeyStep) : Prop :=
  ∃ keys', s.apply keys = .ok keys' ∧ keys'.length = s.lengthAfter keys ∧ Ordered keys'

section steps
variable {keys : List Text}

theorem KeyStep.insert_keepsOrder_iff (h : Ordered keys) (i n : Nat) :
    (insert i n).KeepsOrder keys ↔
      ((keys.take i).getLast? = none → ∀ b ∈ (keys.drop i).head?, HasRoomBelow b n) := by
  rw [← List.take_append_drop i keys] at h
  obtain ⟨hleft, hright, hcross⟩ := List.pairwise_append.mp h.ascending
  have hbefore : ∀ a ∈ (keys.take i).getLast?, IsKey a := fun a ha =>
    isValid_iff.mp (h.accepted a (List.mem_append.mpr (Or.inl (List.mem_of_getLast? ha))))
  have hafter : ∀ b ∈ (keys.drop i).head?, IsKey b := fun b hb =>
    isValid_iff.mp (h.accepted b (List.mem_append.mpr (Or.inr (List.mem_of_head? hb))))
  have hlt : ∀ a ∈ (keys.take i).getLast?, ∀ b ∈ (keys.drop i).head?, a < b := fun a ha b hb =>
    hcross a (List.mem_of_getLast? ha) b (List.mem_of_head? hb)
  rw [← many_iff n hbefore hafter hlt]
  -- what is put into the gap is all that is new
  have hlength (ks : List Text) : (keys.take i ++ ks ++ keys.drop i).length =
      keys.length + ks.length := by
    have hsplit := congrArg List.length (List.take_append_drop i keys)
    rw [List.length_append] at hsplit
    rw [List.length_append, List.length_append]
    omega
  have happly : (insert i n).apply keys =
      (many (keys.take i).getLast? (keys.drop i).head? n >>= fun ks =>
        pure (keys.take i ++ ks ++ keys.drop i)) := by
    rw [apply, keysBetween_eq_many]
  constructor
  · intro h
    obtain ⟨keys', hkeys, hlen, hordered⟩ := h
    rw [happly] at hkeys
    obtain ⟨ks, hmany, hkeys⟩ := bind_eq_ok_iff.mp hkeys
    obtain rfl := Except.ok.inj hkeys
    rw [hlength, lengthAfter] at hlen
    exact ⟨ks, hmany, (ordered_insert_iff h (Nat.add_left_cancel hlen)).mp hordered⟩
  · intro h
    obtain ⟨ks, hmany, hfills⟩ := h
    refine ⟨keys.take i ++ ks ++ keys.drop i, by rw [happly, hmany]; rfl, ?_,
      (ordered_insert_iff h hfills.length).mpr hfills⟩
    rw [hlength, hfills.length, lengthAfter]

/-- **One step keeps a list in order exactly when there is room for it.** -/
theorem KeyStep.keepsOrder_iff (h : Ordered keys) (s : KeyStep) :
    s.KeepsOrder keys ↔ s.HasRoom keys := by
  cases s with
  | insert i n =>
    rw [insert_keepsOrder_iff h]
    cases i with
    | zero => simp [HasRoom]
    | succ i =>
      refine ⟨fun _ => trivial, fun _ hnone b hb => ?_⟩
      -- a place after the first has a key before it, unless the list is empty
      cases keys with
      | nil => simp at hb
      | cons k keys => simp at hnone
  | remove i =>
    refine ⟨fun _ => trivial, fun _ => ⟨keys.eraseIdx i, rfl, rfl, ?_, ?_⟩⟩
    · exact h.ascending.sublist (List.eraseIdx_sublist keys i)
    · intro k hk
      exact h.accepted k (List.mem_of_mem_eraseIdx hk)
  | rebalance =>
    obtain ⟨ks, hks, hlen, hordered⟩ := rebalance_spec keys.length
    exact ⟨fun _ => trivial, fun _ => ⟨ks, hks, hlen, hordered⟩⟩

end steps

/-- Every step of the run succeeds, makes as many keys as it is asked for, and leaves the list
    in order. -/
def RunKeepsOrder : List Text → List KeyStep → Prop
  | _, [] => True
  | keys, s :: rest =>
    ∃ keys', s.apply keys = .ok keys' ∧ keys'.length = s.lengthAfter keys ∧ Ordered keys' ∧
      RunKeepsOrder keys' rest

/-- Every step of the run finds room in the list that it meets. -/
def HasRoomAlong : List Text → List KeyStep → Prop
  | _, [] => True
  | keys, s :: rest =>
    s.HasRoom keys ∧ ∀ keys', s.apply keys = .ok keys' → HasRoomAlong keys' rest

/-- **A run of insertions keeps a list in order exactly when every insertion before the first
    key finds room.** -/
theorem run_keepsOrder_iff {keys : List Text} (h : Ordered keys) (steps : List KeyStep) :
    RunKeepsOrder keys steps ↔ HasRoomAlong keys steps := by
  induction steps generalizing keys with
  | nil => exact Iff.rfl
  | cons s rest ih =>
    rw [RunKeepsOrder, HasRoomAlong, ← s.keepsOrder_iff h]
    constructor
    · intro h
      obtain ⟨keys', hkeys, hlen, hordered, hrun⟩ := h
      refine ⟨⟨keys', hkeys, hlen, hordered⟩, ?_⟩
      intro keys'' hkeys'
      obtain rfl := Except.ok.inj (hkeys.symm.trans hkeys')
      exact (ih hordered).mp hrun
    · intro h
      obtain ⟨⟨keys', hkeys, hlen, hordered⟩, hroom⟩ := h
      exact ⟨keys', hkeys, hlen, hordered, (ih hordered).mpr (hroom keys' hkeys)⟩

/-- A run on the list of the first key that is ever made. -/
theorem run_keepsOrder_defaultKey :
    Ordered [defaultKey] ∧
      RunKeepsOrder [defaultKey] [.insert 0 2, .insert 1 3, .remove 2, .rebalance] := by
  have hordered : Ordered [defaultKey] := by
    refine ⟨List.pairwise_singleton _ _, ?_⟩
    intro k hk
    obtain rfl := List.mem_singleton.mp hk
    exact isValid_iff.mpr isKey_defaultKey
  have hroom : (KeyStep.insert 0 2).HasRoom [defaultKey] := by
    rintro first ⟨⟩
    exact Or.inr (by decide +kernel)
  refine ⟨hordered, (run_keepsOrder_iff hordered _).mpr ⟨hroom, ?_⟩⟩
  exact fun _ _ => ⟨trivial, fun _ _ => ⟨trivial, fun _ _ => ⟨trivial, fun _ _ => trivial⟩⟩⟩

/-- The second of all integer parts: only the smallest one is below it. -/
def secondInteger : Text := 'A' :: List.replicate 25 '0' ++ ['1']

/-- Before the second of all integer parts, the key that is made is not accepted. -/
theorem not_run_keepsOrder_secondInteger :
    Ordered [secondInteger] ∧ ¬RunKeepsOrder [secondInteger] [.insert 0 1] := by
  refine ⟨⟨List.pairwise_singleton _ _, by decide +kernel⟩, ?_⟩
  intro h
  obtain ⟨keys', hkeys, -, hordered, -⟩ := h
  have hmade : ((KeyStep.insert 0 1).apply [secondInteger]).toOption =
      some [smallestInteger, secondInteger] := by decide +kernel
  rw [hkeys] at hmade
  obtain rfl := Option.some.inj hmade
  have hvalid := hordered.accepted smallestInteger (by simp)
  exact absurd hvalid (by decide +kernel)

end Agenda.SortKey
