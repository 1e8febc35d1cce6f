import Agenda.Proofs.Arrangements
import Agenda.Proofs.Snapshot.Entries
import Agenda.Proofs.Snapshot.Reading

/-! # Saving and loading

    The document of a tree reads as a tree with the same tasks and projects, and writing that
    tree gives the document again (`read_write`).  What a tree needs for it is that its time
    fields hold what is read for them, moments in some and days in others, and that the ids of
    its tasks have numerals: an id that is too long to be written is in no file.  Every tree
    that is read, from a document whose maps have texts for keys, has that. -/

namespace Agenda

/-! ## Section 1: Typed tasks -/

/-- The time fields of a task hold what they are for, a moment or a whole day, and its id can
    be written. -/
structure Task.IsTyped (t : Task) : Prop where
  id          : Integer.isTooLong t.id = false
  completedAt : ∀ s ∈ t.completedAt, ∃ m, s = .moment m
  startAt     : ∀ s ∈ t.startAt, ∃ m, s = .moment m
  createdAt   : ∀ s ∈ t.createdAt, ∃ m, s = .moment m
  updatedAt   : ∀ s ∈ t.updatedAt, ∃ m, s = .moment m
  reviewedAt  : ∀ s ∈ t.reviewedAt, ∃ d, s = .day d
  dueDate     : ∀ s ∈ t.dueDate, ∃ d, s = .day d

/-- Every task of the tree is typed. -/
def Tree.IsTyped (tree : Tree) : Prop := ∀ t ∈ tree.tasks, t.IsTyped

namespace Snapshot

/-! ## Section 2: The parts of an entry -/

/-- The keys of a project with their values. -/
def projectFields (p : Project) : List (String × Option Datum) :=
  [("id", some (.integer p.id)), ("title", some (.text p.title)),
   ("status", some (.text p.status.word)),
   ("color", if p.color = [] then none else some (.text p.color))]

/-- The keys of a task with their values. -/
def taskFields (t : Task) : List (String × Option Datum) :=
  [("id", some (.integer t.id)), ("title", some (.text t.title)),
   ("sort_key", some (.text t.sortKey)),
   ("parent_id", t.parent.map .integer), ("project_id", t.project.map .integer),
   ("body", t.body.map .text),
   ("completed_at", t.completedAt.map writeStamp), ("reviewed_at", t.reviewedAt.map writeStamp),
   ("start_at", t.startAt.map writeStamp), ("due_date", t.dueDate.map writeStamp),
   ("created_at", t.createdAt.map writeStamp), ("updated_at", t.updatedAt.map writeStamp),
   ("sequential_limit",
      if t.sequentialLimit = 0 then none else some (.integer t.sequentialLimit)),
   ("someday", if t.someday then some (.truth true) else none),
   ("tags", if t.tags.toList = [] then none else some (.list (t.tags.toList.map .text)))]

theorem projectEntries_eq (p : Project) : projectEntries p = entriesOf (projectFields p) := by
  unfold projectEntries entriesOf projectFields
  simp only [List.flatMap_cons, List.flatMap_nil, optional_some, optional_ite_not,
    List.cons_append, List.nil_append, List.append_nil]

theorem taskEntries_eq (t : Task) : taskEntries t = entriesOf (taskFields t) := by
  unfold taskEntries entriesOf taskFields
  simp only [List.flatMap_cons, List.flatMap_nil, optional_some, optional_map, optional_ite,
    optional_ite_not, List.cons_append, List.nil_append, List.append_nil, List.append_assoc]

/-- What stands in the entry of a project under one of its keys. -/
theorem entry_projectEntries {p : Project} {key : String} {v : Option Datum}
    (h : (key, v) ∈ projectFields p) :
    Datum.entry (projectEntries p) key.toList = v.getD .null := by
  have hkeys : ((projectFields p).map Prod.fst).Nodup := by simp [projectFields]
  rw [projectEntries_eq, entry_entriesOf hkeys h]

/-- What stands in the entry of a task under one of its keys. -/
theorem entry_taskEntries {t : Task} {key : String} {v : Option Datum}
    (h : (key, v) ∈ taskFields t) :
    Datum.entry (taskEntries t) key.toList = v.getD .null := by
  have hkeys : ((taskFields t).map Prod.fst).Nodup := by simp [taskFields]
  rw [taskEntries_eq, entry_entriesOf hkeys h]

/-! ## Section 3: Entries that come back -/

theorem readsAsProject_projectEntries (p : Project) : ReadsAsProject (projectEntries p) p := by
  have hid : Datum.entry (projectEntries p) "id".toList = .integer p.id :=
    entry_projectEntries (v := some _) (by simp [projectFields])
  have htitle : Datum.entry (projectEntries p) "title".toList = .text p.title :=
    entry_projectEntries (v := some _) (by simp [projectFields])
  have hstatus : Datum.entry (projectEntries p) "status".toList = .text p.status.word :=
    entry_projectEntries (v := some _) (by simp [projectFields])
  have hcolor : readText (Datum.entry (projectEntries p) "color".toList) = .ok p.color := by
    rw [entry_projectEntries (v := if p.color = [] then none else some (.text p.color))
      (by simp [projectFields])]
    by_cases hnil : p.color = []
    · rw [if_pos hnil, hnil]
      rfl
    · rw [if_neg hnil]
      exact readText_text p.color
  refine ⟨?_, ?_, ?_, hcolor⟩
  · rw [hid]
    exact requireId_eq_ok_iff.mpr rfl
  · rw [htitle, readText_text]
  · rw [hstatus, readStatus_word]

/-- A typed task is what its entry reads as. -/
theorem readsAsTask_taskEntries {t : Task} (h : t.IsTyped) : ReadsAsTask (taskEntries t) t := by
  have htitle : Datum.entry (taskEntries t) "title".toList = .text t.title :=
    entry_taskEntries (v := some _) (by simp [taskFields])
  have hsortKey : Datum.entry (taskEntries t) "sort_key".toList = .text t.sortKey :=
    entry_taskEntries (v := some _) (by simp [taskFields])
  constructor
  case id =>
    rw [entry_taskEntries (v := some (.integer t.id)) (by simp [taskFields])]
    exact readTaskId_eq_ok_iff.mpr ⟨rfl, h.id⟩
  case title => rw [htitle, readText_text]
  case sortKey => rw [hsortKey, readText_text]
  case parent =>
    rw [entry_taskEntries (v := t.parent.map .integer) (by simp [taskFields])]
    exact readId_written t.parent
  case project =>
    rw [entry_taskEntries (v := t.project.map .integer) (by simp [taskFields])]
    exact readId_written t.project
  case limit =>
    rw [entry_taskEntries (v := if t.sequentialLimit = 0 then none
      else some (.integer t.sequentialLimit)) (by simp [taskFields])]
    exact readLimit_written t.sequentialLimit
  case body =>
    rw [entry_taskEntries (v := t.body.map .text) (by simp [taskFields])]
    exact readBody_written t.body
  case completedAt =>
    rw [entry_taskEntries (v := t.completedAt.map writeStamp) (by simp [taskFields])]
    exact readMoment_written h.completedAt
  case reviewedAt =>
    rw [entry_taskEntries (v := t.reviewedAt.map writeStamp) (by simp [taskFields])]
    exact readDay_written h.reviewedAt
  case startAt =>
    rw [entry_taskEntries (v := t.startAt.map writeStamp) (by simp [taskFields])]
    exact readMoment_written h.startAt
  case dueDate =>
    rw [entry_taskEntries (v := t.dueDate.map writeStamp) (by simp [taskFields])]
    exact readDay_written h.dueDate
  case createdAt =>
    rw [entry_taskEntries (v := t.createdAt.map writeStamp) (by simp [taskFields])]
    exact readMoment_written h.createdAt
  case updatedAt =>
    rw [entry_taskEntries (v := t.updatedAt.map writeStamp) (by simp [taskFields])]
    exact readMoment_written h.updatedAt
  case someday =>
    rw [entry_taskEntries (v := if t.someday then some (.truth true) else none)
      (by simp [taskFields])]
    exact readFlag_written t.someday
  case tags =>
    rw [entry_taskEntries (v := if t.tags.toList = [] then none
      else some (.list (t.tags.toList.map .text))) (by simp [taskFields])]
    exact ⟨_, readNames_written t.id t.tags, readTags_written t.tags⟩

/-! ## Section 4: Trees that come back -/

/-- A tree with the same tasks and projects, listed by id. -/
def sorted (tree : Tree) : Tree where
  tasks := tasksById tree
  projects := projectsById tree
  tasks_nodup :=
    ((List.mergeSort_perm tree.tasks _).map Task.id).nodup_iff.mpr tree.tasks_nodup
  projects_nodup :=
    ((List.mergeSort_perm tree.projects _).map Project.id).nodup_iff.mpr tree.projects_nodup

theorem sorted_rearranged (tree : Tree) : (sorted tree).Rearranged tree :=
  ⟨List.mergeSort_perm tree.tasks _, List.mergeSort_perm tree.projects _⟩

/-- What is written under the two keys of a document. -/
theorem entry_write (tree : Tree) :
    ∃ entries, write tree = .map entries ∧
      Datum.entry entries "projects".toList =
        .list ((projectsById tree).map fun p => .map (projectEntries p)) ∧
      Datum.entry entries "tasks".toList =
        .list ((tasksById tree).map fun t => .map (taskEntries t)) :=
  ⟨_, rfl, rfl, rfl⟩

/-- The document of a typed tree reads as the tree in order. -/
theorem read_write_eq_sorted {tree : Tree} (h : tree.IsTyped) (source : Text) :
    read (write tree) source = .ok (sorted tree) := by
  obtain ⟨entries, hwrite, hprojects, htasks⟩ := entry_write tree
  have hprojects : readList (Datum.entry entries "projects".toList) =
      .ok ((projectsById tree).map fun p => .map (projectEntries p)) := by
    exact readList_eq_ok_iff.mpr (Or.inr hprojects)
  have htasks : readList (Datum.entry entries "tasks".toList) =
      .ok ((tasksById tree).map fun t => .map (taskEntries t)) := by
    exact readList_eq_ok_iff.mpr (Or.inr htasks)
  have hkept : collectBy Project.id (projectsById tree) = projectsById tree :=
    collectBy_of_nodup (sorted tree).projects_nodup
  -- no two projects of the document have one id, so all of them are kept
  refine read_ok_iff.mpr (Or.inr ⟨rfl, entries, hwrite,
    ⟨_, projectsById tree, hprojects, ?_, hkept.symm⟩, ⟨_, htasks, ?_⟩⟩)
  · rw [List.forall₂_map_left_iff, List.forall₂_same]
    intro p _
    exact readProject_eq_ok_iff.mpr ⟨_, rfl, readsAsProject_projectEntries p⟩
  · rw [List.forall₂_map_left_iff]
    show List.Forall₂ _ (tasksById tree) (tasksById tree)
    rw [List.forall₂_same]
    intro t ht
    have htyped : t.IsTyped := h t (List.mem_mergeSort.mp ht)
    exact readTask_eq_ok_iff.mpr ⟨_, rfl, readsAsTask_taskEntries htyped⟩

/-! ## Section 5: Trees that are read -/

theorem eq_moment_of_readMoment {place : Place} {v : Datum} {stamp : Option Stamp}
    (h : readMoment place v = .ok stamp) : ∀ s ∈ stamp, ∃ m, s = .moment m := by
  intro s hs
  obtain rfl := Option.mem_def.mp hs
  unfold readMoment at h
  split at h
  · next m =>
    exact ⟨m, (Option.some.inj (Except.ok.inj h)).symm⟩
  · next d =>
    exact ⟨Moment.midnight d, (Option.some.inj (Except.ok.inj h)).symm⟩
  · by_cases hmissing : v.isMissing = true
    · rw [if_pos hmissing] at h
      cases h
    · rw [if_neg hmissing] at h
      split at h
      · next m _ => exact ⟨m, (Option.some.inj (Except.ok.inj h)).symm⟩
      · exact absurd h refuseValue_ne_ok

theorem eq_day_of_readDay {place : Place} {v : Datum} {stamp : Option Stamp}
    (h : readDay place v = .ok stamp) : ∀ s ∈ stamp, ∃ d, s = .day d := by
  intro s hs
  obtain rfl := Option.mem_def.mp hs
  unfold readDay at h
  split at h
  · next m =>
    exact ⟨m.day, (Option.some.inj (Except.ok.inj h)).symm⟩
  · next d =>
    exact ⟨d, (Option.some.inj (Except.ok.inj h)).symm⟩
  · by_cases hmissing : v.isMissing = true
    · rw [if_pos hmissing] at h
      cases h
    · rw [if_neg hmissing] at h
      split at h
      · next d _ => exact ⟨d, (Option.some.inj (Except.ok.inj h)).symm⟩
      · exact absurd h refuseValue_ne_ok

theorem ReadsAsTask.isTyped {entries : List (Text × Datum)} {t : Task}
    (h : ReadsAsTask entries t) : t.IsTyped where
  id := (readTaskId_eq_ok_iff.mp h.id).2
  completedAt := eq_moment_of_readMoment h.completedAt
  startAt := eq_moment_of_readMoment h.startAt
  createdAt := eq_moment_of_readMoment h.createdAt
  updatedAt := eq_moment_of_readMoment h.updatedAt
  reviewedAt := eq_day_of_readDay h.reviewedAt
  dueDate := eq_day_of_readDay h.dueDate

/-- Every tree that is read is typed. -/
theorem isTyped_of_read {v : Datum} {source : Text} {tree : Tree}
    (h : read v source = .ok tree) : tree.IsTyped := by
  intro t ht
  rcases read_ok_iff.mp h with ⟨-, rfl⟩ | ⟨-, entries, -, -, hread⟩
  · cases ht
  · obtain ⟨items, -, htasks⟩ := hread
    obtain ⟨v, -, hv⟩ := exists_mem_of_mapM (mapM_eq_ok_iff.mpr htasks) ht
    obtain ⟨entries, -, htask⟩ := readTask_eq_ok_iff.mp hv
    exact htask.isTyped

/-! ## Section 6: Saving and loading -/

/-- Saved and loaded, the tree comes back: every task and project is found under its id, with
    all that it has, and saving again gives the same document. -/
def ComesBack (tree : Tree) : Prop :=
  ∀ source, ∃ again, read (write tree) source = .ok again ∧
    (∀ id, again.get? id = tree.get? id) ∧ (∀ id, again.getProject? id = tree.getProject? id) ∧
    write again = write tree

theorem comesBack_of_isTyped {tree : Tree} (h : tree.IsTyped) : ComesBack tree := by
  intro source
  have hsame : (sorted tree).Rearranged tree := sorted_rearranged tree
  refine ⟨sorted tree, read_write_eq_sorted h source, ?_, ?_, write_eq hsame⟩
  · intro id
    rw [hsame.get?_eq]
  · intro id
    rw [hsame.getProject?_eq]

/-- **A typed tree comes back from its document, and so does every tree that was read from any
    document.** -/
theorem read_write : (∀ tree : Tree, tree.IsTyped → ComesBack tree) ∧
    ∀ v source tree, read v source = .ok tree → ComesBack tree := by
  refine ⟨?_, ?_⟩
  · intro tree h
    exact comesBack_of_isTyped h
  · intro v source tree h
    exact comesBack_of_isTyped (isTyped_of_read h)

/-- A tree with the id 0, an empty body, a limit of none, a link to itself and an archived
    project, its tasks not in the order of their ids. -/
def sample : Tree :=
  { tasks := [{ id := 2, sortKey := ['a', '0'], project := some 0, sequentialLimit := 3,
                completedAt := some (.moment (Moment.midnight Day.first)), someday := true },
              { id := 0, parent := some 0, body := some [],
                dueDate := some (.day Day.first) }]
    projects := [{ id := 0, title := ['x'], status := .archived }] }

/-- A document whose task was reviewed at a moment, of which the day is kept. -/
def reviewed : Datum :=
  .map [item "tasks" (.list [.map [item "id" (.text ['7']), item "tags" (.text "b,a".toList),
    item "reviewed_at" (.moment (Moment.midnight Day.first))]])]

theorem read_write_sample : sample.IsTyped ∧ ComesBack sample ∧
    ∃ tree, read reviewed [] = .ok tree ∧ ComesBack tree := by
  have htyped : sample.IsTyped := by
    intro t ht
    simp only [sample, List.mem_cons, List.not_mem_nil, or_false] at ht
    rcases ht with rfl | rfl <;> constructor <;> simp [Integer.isTooLong_of_lt]
  have hread : (read reviewed []).toOption.isSome = true := by decide +kernel
  obtain ⟨tree, htree⟩ := Option.isSome_iff_exists.mp hread
  have hread : read reviewed [] = .ok tree := toOption_eq_some_iff.mp htree
  exact ⟨htyped, read_write.1 sample htyped, tree, hread, read_write.2 reviewed [] tree hread⟩

end Snapshot

end Agenda
