import Agenda.Proofs.Tree.Links
import Mathlib.Data.List.Chain

/-! # Ways up and circles

    The ids above a task follow one another along parent links and none of them occurs twice,
    also where the links run in a circle.  The circle that is found for a new parent is the only
    way up from it that comes to the task at its end (`cycle?_eq_some_iff`), and there is one
    whenever there can be one (`cycle_detection_exact`). -/

namespace Agenda.Tree

variable {tree : Tree} {id p top : TaskId}

/-! ## Section 1: The ids above a task -/

theorem isChain_ancestorsFrom {seen : List TaskId} {t : Task} (hget : tree.get? t.id = some t) :
    (t.id :: tree.ancestorsFrom seen t).IsChain tree.LinksTo := by
  fun_induction ancestorsFrom tree seen t with
  | case1 seen t hparent => exact List.IsChain.singleton t.id
  | case2 seen t p hparent hp => exact List.IsChain.singleton t.id
  | case3 seen t p hparent hp hmissing => exact List.isChain_pair.mpr ⟨t, hget, hparent⟩
  | case4 seen t p hparent hp parent hgetp ih =>
    obtain rfl := id_of_get? hgetp
    exact List.IsChain.cons_cons ⟨t, hget, hparent⟩ (ih hgetp)

theorem not_mem_seen {seen : List TaskId} {t : Task} (h : p ∈ tree.ancestorsFrom seen t) :
    p ∉ seen := by
  fun_induction ancestorsFrom tree seen t with
  | case1 seen t hparent => cases h
  | case2 seen t q hparent hq => cases h
  | case3 seen t q hparent hq hmissing =>
    obtain rfl := List.mem_singleton.mp h
    exact hq
  | case4 seen t q hparent hq parent hgetq ih =>
    rcases List.mem_cons.mp h with rfl | hup
    · exact hq
    · intro hp
      exact ih hup (List.mem_cons_of_mem q hp)

theorem nodup_ancestorsFrom (tree : Tree) (seen : List TaskId) (t : Task) :
    (tree.ancestorsFrom seen t).Nodup := by
  fun_induction ancestorsFrom tree seen t with
  | case1 seen t hparent => exact List.nodup_nil
  | case2 seen t p hparent hp => exact List.nodup_nil
  | case3 seen t p hparent hp hmissing => exact List.nodup_singleton p
  | case4 seen t p hparent hp parent hgetp ih =>
    -- the id of the parent counts as passed from here on
    exact List.nodup_cons.mpr ⟨fun hup => not_mem_seen hup List.mem_cons_self, ih⟩

/-- From an id up, each id is the parent of the task before it. -/
theorem isChain_ancestors (tree : Tree) (id : TaskId) :
    (id :: tree.ancestors id).IsChain tree.LinksTo := by
  unfold ancestors
  cases hget : tree.get? id with
  | none => exact List.IsChain.singleton id
  | some t =>
    obtain rfl := id_of_get? hget
    exact isChain_ancestorsFrom hget

/-- **The way up from a task passes no id twice, whatever circles the tree has.** -/
theorem nodup_ancestors (tree : Tree) (id : TaskId) : (id :: tree.ancestors id).Nodup := by
  refine List.nodup_cons.mpr ⟨fun hmem => (mem_ancestors_iff.mp hmem).1 rfl, ?_⟩
  unfold ancestors
  cases tree.get? id with
  | none => exact List.nodup_nil
  | some t => exact nodup_ancestorsFrom tree [id] t

/-! ## Section 2: The way to an id above -/

/-- The ids from `id` up to `top` along parent links, with `top` at their end only. -/
structure IsWay (tree : Tree) (id top : TaskId) (way : List TaskId) : Prop where
  starts : way.head? = some id
  ends   : way.getLast? = some top
  links  : way.IsChain tree.LinksTo
  once   : top ∉ way.dropLast

theorem isWay_self_iff {way : List TaskId} : tree.IsWay id id way ↔ way = [id] := by
  constructor
  · intro h
    obtain ⟨rest, rfl⟩ := List.head?_eq_some_iff.mp h.starts
    cases rest with
    | nil => rfl
    | cons q rest => exact absurd List.mem_cons_self h.once
  · rintro rfl
    exact ⟨rfl, rfl, List.IsChain.singleton id, List.not_mem_nil⟩

theorem isWay_cons_iff {way : List TaskId} (hne : id ≠ top) : tree.IsWay id top way ↔
    ∃ p rest, way = id :: rest ∧ tree.LinksTo id p ∧ tree.IsWay p top rest := by
  constructor
  · intro h
    obtain ⟨rest, rfl⟩ := List.head?_eq_some_iff.mp h.starts
    cases rest with
    | nil => exact absurd (Option.some.inj h.ends) hne
    | cons p rest =>
      have hlinks := List.isChain_cons_cons.mp h.links
      refine ⟨p, p :: rest, rfl, hlinks.1, rfl, ?_, hlinks.2, ?_⟩
      · simpa using h.ends
      · intro hmem
        exact h.once (List.mem_cons_of_mem id hmem)
  · rintro ⟨p, rest, rfl, hlink, h⟩
    obtain ⟨rest, rfl⟩ := List.head?_eq_some_iff.mp h.starts
    refine ⟨rfl, by simpa using h.ends, List.IsChain.cons_cons hlink h.links, ?_⟩
    intro hmem
    rcases List.mem_cons.mp hmem with rfl | hrest
    · exact hne rfl
    · exact h.once hrest

/-- A task has one parent at most, so there is one way at most. -/
theorem IsWay.unique {way way' : List TaskId} (h : tree.IsWay id top way)
    (h' : tree.IsWay id top way') : way = way' := by
  induction way generalizing id way' with
  | nil => cases h.starts
  | cons q rest ih =>
    by_cases hid : id = top
    · subst hid
      rw [isWay_self_iff.mp h, isWay_self_iff.mp h']
    · obtain ⟨p, up, hup, hlink, hway⟩ := (isWay_cons_iff hid).mp h
      obtain ⟨p', up', rfl, hlink', hway'⟩ := (isWay_cons_iff hid).mp h'
      obtain rfl := hlink.unique hlink'
      obtain ⟨rfl, rfl⟩ := List.cons.inj hup
      rw [ih hway hway']

theorem IsWay.within {way : List TaskId} (h : tree.IsWay id top way) : tree.Within id top := by
  induction way generalizing id with
  | nil => cases h.starts
  | cons q rest ih =>
    by_cases hid : id = top
    · rw [hid]
      exact Relation.ReflTransGen.refl
    · obtain ⟨p, up, hup, hlink, hway⟩ := (isWay_cons_iff hid).mp h
      obtain ⟨rfl, rfl⟩ := List.cons.inj hup
      exact Relation.ReflTransGen.head hlink (ih hway)

/-- The ids above a task, cut off behind the first `top` among them, are the way to it. -/
theorem isWay_takeWhile (hne : id ≠ top) (htop : top ∈ tree.ancestors id) :
    tree.IsWay id top (id :: (tree.ancestors id).takeWhile (· ≠ top) ++ [top]) := by
  obtain ⟨front, back, hup, hfront⟩ := List.eq_append_cons_of_mem htop
  have hcut : (tree.ancestors id).takeWhile (· ≠ top) = front := by
    rw [hup, List.takeWhile_append_of_pos, List.takeWhile_cons_of_neg (by simp), List.append_nil]
    intro q hq
    simpa using ne_of_mem_of_not_mem hq hfront
  rw [hcut]
  refine ⟨rfl, List.getLast?_concat, ?_, ?_⟩
  · have hlinks := tree.isChain_ancestors id
    have hsplit : id :: (front ++ top :: back) = (id :: front ++ [top]) ++ back := by simp
    rw [hup, hsplit] at hlinks
    exact hlinks.left_of_append
  · rw [List.dropLast_concat, List.mem_cons, not_or]
    exact ⟨Ne.symm hne, hfront⟩

/-! ## Section 3: The circle under a new parent -/

/-- A circle is found whenever there is one. -/
theorem cycle?_ne_none_iff : tree.cycle? id (some p) ≠ none ↔ tree.Within p id := by
  rw [Ne, cycle?_eq_none_iff, not_not]

theorem isWay_of_cycle? {path : List TaskId} (h : tree.cycle? id (some p) = some path) :
    ∃ way, path = id :: way ∧ tree.IsWay p id way := by
  simp only [cycle?] at h
  split at h
  · next hself =>
    obtain rfl := Option.some.inj h
    refine ⟨[id], rfl, ?_⟩
    rw [hself, isWay_self_iff]
  · next hself =>
    split at h
    · next hup =>
      obtain rfl := Option.some.inj h
      exact ⟨_, rfl, isWay_takeWhile hself hup⟩
    · cases h

/-- **The circle that is found leads from the task to the new parent and from there the only
    way up to the task.** -/
theorem cycle?_eq_some_iff {path : List TaskId} : tree.cycle? id (some p) = some path ↔
    ∃ way, path = id :: way ∧ tree.IsWay p id way := by
  constructor
  · exact isWay_of_cycle?
  · rintro ⟨way, rfl, hway⟩
    obtain ⟨path, hpath⟩ := Option.ne_none_iff_exists'.mp (cycle?_ne_none_iff.mpr hway.within)
    obtain ⟨way', rfl, hway'⟩ := isWay_of_cycle? hpath
    rw [hpath, hway.unique hway']

/-- In a tree without circles a parent of the tree is accepted exactly if the task that has it
    closes none. -/
theorem checkParent_eq_ok_iff_acyclic {task : Task} (h : tree.Acyclic)
    (hp : tree.contains p = true) : tree.checkParent task.id (some p) = .ok () ↔
      (tree.put { task with parent := some p }).Acyclic := by
  rw [checkParent_eq_ok_iff, acyclic_put_iff h]
  constructor
  · intro hcheck q hq
    exact (hcheck q hq).2
  · intro hout q hq
    obtain rfl := Option.some.inj hq
    exact ⟨hp, hout p rfl⟩

/-- **A circle is found exactly if the new parent stands within the subtree of the task, and it
    is the way from the task over the new parent up to the task again.  So in a tree without
    circles the accepted parents are those that leave it without one.  The way up from any id
    follows the links, passes no id twice and leaves no id above it out.** -/
theorem cycle_detection_exact (tree : Tree) :
    (∀ id p, tree.cycle? id (some p) ≠ none ↔ tree.Within p id) ∧
    (∀ id p path, tree.cycle? id (some p) = some path ↔
      ∃ way, path = id :: way ∧ tree.IsWay p id way) ∧
    (tree.Acyclic → ∀ task ∈ tree.tasks, ∀ p, tree.contains p = true →
      (tree.checkParent task.id (some p) = .ok () ↔
        (tree.put { task with parent := some p }).Acyclic)) ∧
    ∀ id, (id :: tree.ancestors id).IsChain tree.LinksTo ∧ (id :: tree.ancestors id).Nodup ∧
      ∀ q, q ∈ tree.ancestors id ↔ q ≠ id ∧ tree.Below id q := by
  refine ⟨?_, ?_, ?_, ?_⟩
  · intro id p
    exact cycle?_ne_none_iff
  · intro id p path
    exact cycle?_eq_some_iff
  · intro hacyclic task _ p hp
    exact checkParent_eq_ok_iff_acyclic hacyclic hp
  · intro id
    exact ⟨tree.isChain_ancestors id, tree.nodup_ancestors id, fun _ => mem_ancestors_iff⟩

/-- Three tasks, one below the other. -/
def threeDeep : Tree :=
  { tasks := [{ id := 1 }, { id := 2, parent := some 1 }, { id := 3, parent := some 2 }]
    projects := []
    tasks_nodup := by decide
    projects_nodup := List.nodup_nil }

theorem acyclic_threeDeep : threeDeep.Acyclic := by
  have hfirst : threeDeep.Rooted 1 := Rooted.top rfl rfl
  have hsecond : threeDeep.Rooted 2 := Rooted.link ⟨_, rfl, rfl⟩ hfirst
  have hthird : threeDeep.Rooted 3 := Rooted.link ⟨_, rfl, rfl⟩ hsecond
  rw [acyclic_iff_rooted]
  intro t ht
  simp only [threeDeep, List.mem_cons, List.not_mem_nil, or_false] at ht
  rcases ht with rfl | rfl | rfl
  · exact hfirst
  · exact hsecond
  · exact hthird

/-- The last of them may go below the first, but the first not below the last. -/
theorem cycle_detection_exact_threeDeep :
    threeDeep.Acyclic ∧ ({ id := 3, parent := some 2 } : Task) ∈ threeDeep.tasks ∧
    ({ id := 1 } : Task) ∈ threeDeep.tasks ∧
    threeDeep.contains 1 = true ∧ threeDeep.contains 3 = true ∧
    threeDeep.cycle? 1 (some 3) = some [1, 3, 2, 1] ∧
    threeDeep.checkParent 1 (some 3) ≠ .ok () ∧
    (threeDeep.put { id := 3, parent := some 1 }).Acyclic ∧
    ¬(threeDeep.put { id := 1, parent := some 3 }).Acyclic := by
  obtain ⟨hfound, hway, haccepted, -⟩ := cycle_detection_exact threeDeep
  have hlast := haccepted acyclic_threeDeep { id := 3, parent := some 2 } (by decide) 1 rfl
  have hfirst := haccepted acyclic_threeDeep { id := 1 } (by decide) 3 rfl
  have hchain : [3, 2, 1].IsChain threeDeep.LinksTo :=
    List.IsChain.cons_cons ⟨_, rfl, rfl⟩ (List.isChain_pair.mpr ⟨_, rfl, rfl⟩)
  have hpath : threeDeep.cycle? 1 (some 3) = some [1, 3, 2, 1] :=
    (hway 1 3 _).mpr ⟨[3, 2, 1], rfl, rfl, rfl, hchain, by decide⟩
  have hrefused : threeDeep.checkParent 1 (some 3) ≠ .ok () := by
    simp [checkParent, hpath, show threeDeep.contains 3 = true from rfl]
  refine ⟨acyclic_threeDeep, by decide, by decide, rfl, rfl, hpath, hrefused, hlast.mp ?_, ?_⟩
  · have hnot : ¬threeDeep.Below 1 3 := not_below_of_isTop rfl rfl ⟨_, rfl⟩
    have hnone : threeDeep.cycle? 3 (some 1) = none := by
      by_contra hsome
      exact hnot ((within_iff.mp ((hfound 3 1).mp hsome)).resolve_left (by decide))
    simp [checkParent, hnone, show threeDeep.contains 1 = true from rfl]
  · exact fun hacyclic => hrefused (hfirst.mpr hacyclic)

end Agenda.Tree
