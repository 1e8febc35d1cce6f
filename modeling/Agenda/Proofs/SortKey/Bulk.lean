import Agenda.Proofs.SortKey.Bounds
import Mathlib.Data.Nat.Size

/-! # Keys in bulk

    Many keys at once are made one above the other where nothing is above them, and by halving
    between two bounds: the key in the middle bounds both halves.  A half has one binary digit
    less than the whole, and a key is at most one character longer than its longer bound, so
    between two bounds keys grow with the number of binary digits of how many there are
    (`keysBetween_fills`). -/

namespace Agenda.SortKey

/-! ## Section 1: Halves -/

/-- A half has fewer binary digits than the whole. -/
theorem size_half_lt {n : Nat} (h : 0 < n) : (n / 2).size < n.size := by
  rw [Nat.lt_size]
  cases hsize : (n / 2).size with
  | zero => exact h
  | succ m =>
    have hm : m < (n / 2).size := by omega
    have hpow := Nat.lt_size.mp hm
    rw [pow_succ]
    omega

section halves
variable {a b k : Text} {n : Nat} {ks : List Text}

/-- The keys between two bounds are those of the lower half, the one in the middle, and those of
    the upper half, which is no larger than the lower one. -/
theorem exists_pivot (h : manyInside a b (n + 1) = .ok ks) :
    ∃ k left right, between (some a) (some b) = .ok k ∧
      manyInside a k ((n + 1) / 2) = .ok left ∧
      manyInside k b (n - (n + 1) / 2) = .ok right ∧ ks = left ++ k :: right := by
  rw [manyInside] at h
  obtain ⟨k, hk, h⟩ := bind_eq_ok_iff.mp h
  obtain ⟨left, hleft, h⟩ := bind_eq_ok_iff.mp h
  obtain ⟨right, hright, h⟩ := bind_eq_ok_iff.mp h
  exact ⟨k, left, right, hk, hleft, hright, (Except.ok.inj h).symm⟩

/-- **Keys between two bounds grow with the number of binary digits of how many there are.** -/
theorem manyInside_length (h : manyInside a b n = .ok ks) :
    ∀ k ∈ ks, k.length ≤ max a.length b.length + n.size := by
  -- each halving takes a binary digit, and lets the longer bound grow by one character
  induction n using Nat.strongRecOn generalizing a b ks with
  | ind n ih =>
    cases n with
    | zero =>
      rw [manyInside] at h
      obtain rfl := Except.ok.inj h
      exact List.forall_mem_nil _
    | succ n =>
      obtain ⟨pivot, left, right, hpivot, hleft, hright, rfl⟩ := exists_pivot h
      have hlonger : pivot.length ≤ 1 + max 1 (max a.length b.length) := between_length hpivot
      have hpos : 0 < a.length := by
        obtain ⟨ha, -⟩ := accepted_of_between hpivot
        have hne : a ≠ [] := by
          rintro rfl
          exact not_isInteger_nil (ha [] rfl).integer
        exact List.length_pos_of_ne_nil hne
      have hhalf : ((n + 1) / 2).size < (n + 1).size := size_half_lt (Nat.succ_pos n)
      have hrest : (n - (n + 1) / 2).size ≤ ((n + 1) / 2).size := Nat.size_le_size (by omega)
      intro k hk
      rcases List.mem_append.mp hk with hk | hk
      · have hlength := ih ((n + 1) / 2) (by omega) hleft k hk
        omega
      · rcases List.mem_cons.mp hk with rfl | hk
        · omega
        · have hlength := ih (n - (n + 1) / 2) (by omega) hright k hk
          omega

end halves

/-! ## Section 2: Any number of keys -/

/-- **Above a bound, or for an empty list, as many keys are made as are asked for**: accepted
    keys in ascending order strictly between the bounds, and between two bounds no longer than
    the longer one by more than the number of binary digits of how many there are. -/
theorem keysBetween_fills {before after : Option Text} (hfit : BoundsFit before after)
    (hbelow : before = none → after = none) (n : Nat) :
    ∃ ks, keysBetween before after n = .ok ks ∧ ks.length = n ∧ ks.Pairwise (· < ·) ∧
      (∀ k ∈ ks, isValid k = true ∧ (∀ a ∈ before, a < k) ∧ ∀ b ∈ after, k < b) ∧
      ∀ a ∈ before, ∀ b ∈ after, ∀ k ∈ ks, k.length ≤ max a.length b.length + n.size := by
  have hroom : before = none → ∀ b ∈ after, HasRoomBelow b n := by
    intro hnone b hb
    rw [hbelow hnone] at hb
    cases hb
  obtain ⟨ks, hks, hfills⟩ := (many_iff n (fun a ha => isValid_iff.mp (hfit.lower a ha))
    (fun b hb => isValid_iff.mp (hfit.upper b hb)) hfit.ordered).mpr hroom
  refine ⟨ks, by rw [keysBetween_eq_many, hks], hfills.length, hfills.ascending, ?_, ?_⟩
  · intro k hk
    exact ⟨isValid_iff.mpr (hfills.isKey k hk), fun a ha => hfills.above a ha k hk,
      fun b hb => hfills.below b hb k hk⟩
  · rintro a ⟨⟩ b ⟨⟩
    exact manyInside_length hks

/-- Six keys between neighbouring integer parts: one more character for each binary digit of
    six at most. -/
theorem keysBetween_fills_neighbours :
    BoundsFit (some "a0".toList) (some "a1".toList) ∧
      ∃ ks, keysBetween (some "a0".toList) (some "a1".toList) 6 = .ok ks ∧ ks.length = 6 ∧
        ∀ k ∈ ks, k.length ≤ 5 := by
  have hfit : BoundsFit (some "a0".toList) (some "a1".toList) := by
    refine ⟨?_, ?_, ?_⟩
    · rintro a ⟨⟩
      decide +kernel
    · rintro b ⟨⟩
      decide +kernel
    · rintro a ⟨⟩ b ⟨⟩
      decide +kernel
  obtain ⟨ks, hks, hlength, -, -, hshort⟩ := keysBetween_fills hfit nofun 6
  exact ⟨hfit, ks, hks, hlength, hshort _ rfl _ rfl⟩

end Agenda.SortKey
