import Agenda.Tree.Basic

/-! # Building a tree

    A tree is built from any tasks no two of which have one id, and from any projects.  It
    lists the tasks as they were given, and the projects too if no two have one id.  To put a
    task into a tree is to build it anew. -/

namespace Agenda

/-! ## Section 1: One item for each key -/

section keys
variable {α κ : Type} [DecidableEq κ] {key : α → κ} {a : α} {l : List α}

/-- An item with a new key goes to the end. -/
theorem putBy_of_notMem (h : key a ∉ l.map key) : putBy key a l = l ++ [a] := by
  induction l with
  | nil => rfl
  | cons b rest ih =>
    obtain ⟨hb, hrest⟩ := not_or.mp (mt List.mem_cons.mpr h)
    rw [putBy, if_neg (Ne.symm hb), ih hrest]
    rfl

/-- The items with other keys stay as they are. -/
theorem filter_putBy :
    (putBy key a l).filter (key · != key a) = l.filter (key · != key a) := by
  induction l with
  | nil => simp [putBy]
  | cons b rest ih =>
    rw [putBy]
    by_cases h : key b = key a
    · rw [if_pos h, List.filter_cons_of_neg (by simp), List.filter_cons_of_neg (by simp [h])]
    · rw [if_neg h, List.filter_cons_of_pos (by simp [h]), List.filter_cons_of_pos (by simp [h]),
        ih]

/-- Items with different keys are all kept. -/
theorem collectBy_of_nodup (h : (l.map key).Nodup) : collectBy key l = l := by
  unfold collectBy
  -- the items that are done stay in front of those that come
  suffices hfold : ∀ done : List α, ((done ++ l).map key).Nodup →
      l.foldl (fun acc a => putBy key a acc) done = done ++ l from hfold [] h
  clear h
  induction l with
  | nil =>
    intro done _
    exact (List.append_nil done).symm
  | cons a rest ih =>
    intro done hnodup
    have hnew : key a ∉ done.map key := by
      rw [List.map_append, List.nodup_append] at hnodup
      intro hmem
      exact hnodup.2.2 _ hmem _ (List.mem_cons_self ..) rfl
    rw [List.append_cons] at hnodup ⊢
    rw [List.foldl_cons, putBy_of_notMem hnew, ih _ hnodup]

end keys

namespace Tree

/-! ## Section 2: Trees of given tasks and projects -/

theorem firstDuplicate?_eq_none_iff {seen ids : List TaskId} :
    firstDuplicate? seen ids = none ↔ ids.Nodup ∧ ∀ i ∈ ids, i ∉ seen := by
  constructor
  · exact nodup_of_firstDuplicate?_eq_none
  · intro h
    induction ids generalizing seen with
    | nil => rfl
    | cons i rest ih =>
      obtain ⟨hnodup, hseen⟩ := h
      obtain ⟨hi, hrest⟩ := List.nodup_cons.mp hnodup
      rw [firstDuplicate?, if_neg (hseen i (List.mem_cons_self ..))]
      refine ih ⟨hrest, ?_⟩
      intro j hj hmem
      rcases List.mem_cons.mp hmem with rfl | hmem
      · exact hi hj
      · exact hseen j (List.mem_cons_of_mem i hj) hmem

/-- The tree of some tasks and projects: it exists exactly if no two tasks have one id. -/
theorem ofTasks_eq_ok_iff {tasks : List Task} {projects : List Project} {tree : Tree} :
    ofTasks tasks projects = .ok tree ↔
      tree.tasks = tasks ∧ tree.projects = collectBy Project.id projects := by
  unfold ofTasks
  split
  · next id hduplicate =>
    constructor
    · intro h
      cases h
    · intro h
      obtain ⟨rfl, -⟩ := h
      have hnone : firstDuplicate? [] (tree.tasks.map Task.id) = none :=
        firstDuplicate?_eq_none_iff.mpr ⟨tree.tasks_nodup, fun _ _ => List.not_mem_nil⟩
      rw [hnone] at hduplicate
      cases hduplicate
  · constructor
    · intro h
      obtain rfl := Except.ok.inj h
      exact ⟨rfl, rfl⟩
    · intro h
      obtain ⟨htasks, hprojects⟩ := h
      cases tree
      cases htasks
      cases hprojects
      rfl

/-- To put a task into a tree is to build one of its tasks, with this one among them, and of its
    projects. -/
theorem ofTasks_putBy (tree : Tree) (task : Task) :
    ofTasks (putBy Task.id task tree.tasks) tree.projects = .ok (tree.put task) :=
  ofTasks_eq_ok_iff.mpr ⟨rfl, (collectBy_of_nodup tree.projects_nodup).symm⟩

end Tree

end Agenda
