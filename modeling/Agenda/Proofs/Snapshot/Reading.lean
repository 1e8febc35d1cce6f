import Agenda.Proofs.Basic
import Agenda.Proofs.Tree.Building
import Agenda.Snapshot.Read

/-! # What a document reads as

    Reading a project, a task or a document succeeds exactly if the reading of each of its
    parts does, with what the parts read as. -/

namespace Agenda

theorem Task.checkLimit_eq_ok_iff {limit : Int} {n : Nat} :
    checkLimit limit = .ok n ↔ limit = n := by
  unfold checkLimit
  by_cases hneg : limit < 0
  · rw [if_pos hneg]
    constructor
    · intro h
      cases h
    · intro h
      omega
  · rw [if_neg hneg]
    constructor
    · intro h
      have hn : limit.toNat = n := Except.ok.inj h
      omega
    · intro h
      rw [h, Int.toNat_natCast]

namespace Snapshot

variable {v : Datum} {entries : List (Text × Datum)}

/-! ## Section 1: Integers and texts -/

theorem refuseValue_ne_ok {α : Type} {cause : Datum → Cause} {a : α} :
    refuseValue cause v ≠ .ok a := by
  unfold refuseValue
  split <;> exact nofun

theorem integer?_of_isMissing (h : v.isMissing = true) : v.integer? = none := by
  cases v with
  | null => rfl
  | text t =>
    obtain rfl := List.isEmpty_iff.mp h
    rfl
  | _ => cases h

theorem readInteger_eq_ok_iff {place : Place} {n : Int} :
    readInteger place v = .ok n ↔ v.integer? = some n := by
  unfold readInteger
  cases v.integer? with
  | none => exact ⟨fun h => absurd h refuseValue_ne_ok, nofun⟩
  | some m =>
    constructor
    · intro h
      rw [Except.ok.inj h]
    · intro h
      rw [Option.some.inj h]

theorem requireId_eq_ok_iff {place : Place} {id : Int} :
    requireId place v = .ok id ↔ v.integer? = some id := by
  unfold requireId
  by_cases hmissing : v.isMissing = true
  · rw [if_pos hmissing, integer?_of_isMissing hmissing]
    exact ⟨nofun, nofun⟩
  · rw [if_neg hmissing]
    exact readInteger_eq_ok_iff

theorem readTaskId_eq_ok_iff {id : TaskId} :
    readTaskId v = .ok id ↔ v.integer? = some id ∧ Integer.isTooLong id = false := by
  unfold readTaskId
  rw [bind_eq_ok_iff]
  constructor
  · intro h
    obtain ⟨n, hn, h⟩ := h
    rw [requireId_eq_ok_iff] at hn
    by_cases hlong : Integer.isTooLong n = true
    · rw [if_pos hlong] at h
      cases h
    · rw [if_neg hlong] at h
      obtain rfl := Except.ok.inj h
      exact ⟨hn, Bool.eq_false_iff.mpr hlong⟩
  · intro h
    refine ⟨id, requireId_eq_ok_iff.mpr h.1, ?_⟩
    rw [h.2]
    rfl

theorem readText_eq_ok_iff {t : Text} :
    readText v = .ok t ↔ v.hasLongInteger = false ∧ v.plainOrEmpty = t := by
  unfold readText Datum.toText
  rw [mapError_eq_ok_iff]
  cases v.hasLongInteger <;> simp

theorem readLimit_eq_ok_iff {place : Place} {limit : Int} :
    readLimit place v = .ok limit ↔ v = .null ∧ limit = 0 ∨ v.integer? = some limit := by
  unfold readLimit
  split
  · have hnone : Datum.null.integer? = none := rfl
    constructor
    · intro h
      exact Or.inl ⟨rfl, (Except.ok.inj h).symm⟩
    · intro h
      rcases h with ⟨-, rfl⟩ | h
      · rfl
      · rw [hnone] at h
        cases h
  · next hnull =>
    rw [readInteger_eq_ok_iff]
    constructor
    · exact Or.inr
    · intro h
      rcases h with ⟨hv, -⟩ | h
      · exact absurd hv hnull
      · exact h

/-! ## Section 2: Projects and tasks -/

/-- The parts of an entry read as a project. -/
structure ReadsAsProject (entries : List (Text × Datum)) (p : Project) : Prop where
  id     : requireId .projectId (Datum.entry entries "id".toList) = .ok p.id
  title  : readText (Datum.entry entries "title".toList) = .ok p.title
  status : readStatus (Datum.entry entries "status".toList) = .ok p.status
  color  : readText (Datum.entry entries "color".toList) = .ok p.color

theorem readProject_eq_ok_iff {p : Project} :
    readProject v = .ok p ↔ ∃ entries, v = .map entries ∧ ReadsAsProject entries p := by
  constructor
  · intro h
    cases v with
    | map entries =>
      obtain ⟨status, hstatus, h⟩ := bind_eq_ok_iff.mp h
      obtain ⟨id, hid, h⟩ := bind_eq_ok_iff.mp h
      obtain ⟨title, htitle, h⟩ := bind_eq_ok_iff.mp h
      obtain ⟨color, hcolor, h⟩ := bind_eq_ok_iff.mp h
      obtain rfl := Except.ok.inj h
      exact ⟨entries, rfl, hid, htitle, hstatus, hcolor⟩
    | _ => cases h
  · intro h
    obtain ⟨entries, rfl, h⟩ := h
    refine bind_eq_ok_iff.mpr ⟨_, h.status, bind_eq_ok_iff.mpr ⟨_, h.id, ?_⟩⟩
    exact bind_eq_ok_iff.mpr ⟨_, h.title, bind_eq_ok_iff.mpr ⟨_, h.color, rfl⟩⟩

/-- The parts of an entry read as a task. -/
structure ReadsAsTask (entries : List (Text × Datum)) (t : Task) : Prop where
  id      : readTaskId (Datum.entry entries "id".toList) = .ok t.id
  title   : readText (Datum.entry entries "title".toList) = .ok t.title
  sortKey : readText (Datum.entry entries "sort_key".toList) = .ok t.sortKey
  parent  : readId (.ofTask t.id "parent_id".toList)
    (Datum.entry entries "parent_id".toList) = .ok t.parent
  project : readId (.ofTask t.id "project_id".toList)
    (Datum.entry entries "project_id".toList) = .ok t.project
  limit   : readLimit (.ofTask t.id "sequential_limit".toList)
    (Datum.entry entries "sequential_limit".toList) = .ok t.sequentialLimit
  body    : readBody (Datum.entry entries "body".toList) = .ok t.body
  completedAt : readMoment (.ofTask t.id "completed_at".toList)
    (Datum.entry entries "completed_at".toList) = .ok t.completedAt
  reviewedAt  : readDay (.ofTask t.id "reviewed_at".toList)
    (Datum.entry entries "reviewed_at".toList) = .ok t.reviewedAt
  startAt     : readMoment (.ofTask t.id "start_at".toList)
    (Datum.entry entries "start_at".toList) = .ok t.startAt
  dueDate     : readDay (.ofTask t.id "due_date".toList)
    (Datum.entry entries "due_date".toList) = .ok t.dueDate
  createdAt   : readMoment (.ofTask t.id "created_at".toList)
    (Datum.entry entries "created_at".toList) = .ok t.createdAt
  updatedAt   : readMoment (.ofTask t.id "updated_at".toList)
    (Datum.entry entries "updated_at".toList) = .ok t.updatedAt
  someday : readFlag (.ofTask t.id "someday".toList)
    (Datum.entry entries "someday".toList) = .ok t.someday
  tags    : ∃ names, readNames t.id (Datum.entry entries "tags".toList) = .ok names ∧
    readTags names = .ok t.tags

theorem readTask_eq_ok_iff {t : Task} :
    readTask v = .ok t ↔ ∃ entries, v = .map entries ∧ ReadsAsTask entries t := by
  constructor
  · intro h
    cases v with
    | map entries =>
      obtain ⟨id, hid, h⟩ := bind_eq_ok_iff.mp h
      obtain ⟨names, hnames, h⟩ := bind_eq_ok_iff.mp h
      obtain ⟨limit, hlimit, h⟩ := bind_eq_ok_iff.mp h
      obtain ⟨completedAt, hcompletedAt, h⟩ := bind_eq_ok_iff.mp h
      obtain ⟨startAt, hstartAt, h⟩ := bind_eq_ok_iff.mp h
      obtain ⟨createdAt, hcreatedAt, h⟩ := bind_eq_ok_iff.mp h
      obtain ⟨updatedAt, hupdatedAt, h⟩ := bind_eq_ok_iff.mp h
      obtain ⟨reviewedAt, hreviewedAt, h⟩ := bind_eq_ok_iff.mp h
      obtain ⟨dueDate, hdueDate, h⟩ := bind_eq_ok_iff.mp h
      -- the other parts are read where the task is put together
      obtain ⟨title, htitle, h⟩ := bind_eq_ok_iff.mp (mapError_eq_ok_iff.mp h)
      obtain ⟨sortKey, hsortKey, h⟩ := bind_eq_ok_iff.mp h
      obtain ⟨parent, hparent, h⟩ := bind_eq_ok_iff.mp h
      obtain ⟨project, hproject, h⟩ := bind_eq_ok_iff.mp h
      obtain ⟨body, hbody, h⟩ := bind_eq_ok_iff.mp h
      obtain ⟨someday, hsomeday, h⟩ := bind_eq_ok_iff.mp h
      obtain ⟨tags, htags, h⟩ := bind_eq_ok_iff.mp h
      obtain ⟨sequentialLimit, hsequentialLimit, h⟩ := bind_eq_ok_iff.mp h
      obtain rfl := Task.checkLimit_eq_ok_iff.mp (mapError_eq_ok_iff.mp hsequentialLimit)
      obtain rfl := Except.ok.inj h
      exact ⟨entries, rfl, hid, htitle, hsortKey, hparent, hproject, hlimit, hbody,
        hcompletedAt, hreviewedAt, hstartAt, hdueDate, hcreatedAt, hupdatedAt, hsomeday,
        names, hnames, htags⟩
    | _ => cases h
  · intro h
    obtain ⟨entries, rfl, h⟩ := h
    obtain ⟨names, hnames, htags⟩ := h.tags
    have hlimit : (Task.checkLimit t.sequentialLimit).mapError (Fault.ofLimit t.id) =
        .ok t.sequentialLimit := mapError_eq_ok_iff.mpr (Task.checkLimit_eq_ok_iff.mpr rfl)
    -- the parts in the order in which they are read
    refine bind_eq_ok_iff.mpr ⟨_, h.id, bind_eq_ok_iff.mpr ⟨_, hnames, ?_⟩⟩
    refine bind_eq_ok_iff.mpr ⟨_, h.limit, bind_eq_ok_iff.mpr ⟨_, h.completedAt, ?_⟩⟩
    refine bind_eq_ok_iff.mpr ⟨_, h.startAt, bind_eq_ok_iff.mpr ⟨_, h.createdAt, ?_⟩⟩
    refine bind_eq_ok_iff.mpr ⟨_, h.updatedAt, bind_eq_ok_iff.mpr ⟨_, h.reviewedAt, ?_⟩⟩
    refine bind_eq_ok_iff.mpr ⟨_, h.dueDate, mapError_eq_ok_iff.mpr ?_⟩
    refine bind_eq_ok_iff.mpr ⟨_, h.title, bind_eq_ok_iff.mpr ⟨_, h.sortKey, ?_⟩⟩
    refine bind_eq_ok_iff.mpr ⟨_, h.parent, bind_eq_ok_iff.mpr ⟨_, h.project, ?_⟩⟩
    refine bind_eq_ok_iff.mpr ⟨_, h.body, bind_eq_ok_iff.mpr ⟨_, h.someday, ?_⟩⟩
    exact bind_eq_ok_iff.mpr ⟨_, htags, bind_eq_ok_iff.mpr ⟨_, hlimit, rfl⟩⟩

/-! ## Section 3: Documents -/

theorem readList_eq_ok_iff {items : List Datum} :
    readList v = .ok items ↔ v.isEmpty = true ∧ items = [] ∨ v = .list items := by
  unfold readList
  by_cases hempty : v.isEmpty = true
  · rw [if_pos hempty]
    constructor
    · intro h
      exact Or.inl ⟨hempty, (Except.ok.inj h).symm⟩
    · intro h
      rcases h with ⟨-, rfl⟩ | rfl
      · rfl
      · rw [List.isEmpty_iff.mp hempty]
  · rw [if_neg hempty]
    cases v with
    | list l =>
      show Except.ok l = .ok items ↔ _
      simp [hempty]
    | _ =>
      show Except.error _ = .ok items ↔ _
      simp [hempty]

/-- The parts of a document read as a tree. -/
structure ReadsAsTree (entries : List (Text × Datum)) (tree : Tree) : Prop where
  projects : ∃ items projects, readList (Datum.entry entries "projects".toList) = .ok items ∧
    List.Forall₂ (fun v p => readProject v = .ok p) items projects ∧
    tree.projects = collectBy Project.id projects
  tasks : ∃ items, readList (Datum.entry entries "tasks".toList) = .ok items ∧
    List.Forall₂ (fun v t => readTask v = .ok t) items tree.tasks

theorem readEntries_eq_ok_iff {tree : Tree} :
    readEntries entries = .ok tree ↔ ReadsAsTree entries tree := by
  unfold readEntries
  constructor
  · intro h
    obtain ⟨items, hitems, h⟩ := bind_eq_ok_iff.mp h
    obtain ⟨items', hitems', h⟩ := bind_eq_ok_iff.mp h
    obtain ⟨projects, hprojects, h⟩ := bind_eq_ok_iff.mp h
    obtain ⟨tasks, htasks, h⟩ := bind_eq_ok_iff.mp h
    obtain ⟨rfl, hkept⟩ := Tree.ofTasks_eq_ok_iff.mp (mapError_eq_ok_iff.mp h)
    exact ⟨⟨items, projects, hitems, mapM_eq_ok_iff.mp hprojects, hkept⟩,
      ⟨items', hitems', mapM_eq_ok_iff.mp htasks⟩⟩
  · intro h
    obtain ⟨⟨items, projects, hitems, hprojects, hkept⟩, ⟨items', hitems', htasks⟩⟩ := h
    refine bind_eq_ok_iff.mpr ⟨items, hitems, bind_eq_ok_iff.mpr ⟨items', hitems', ?_⟩⟩
    refine bind_eq_ok_iff.mpr ⟨projects, mapM_eq_ok_iff.mpr hprojects, ?_⟩
    refine bind_eq_ok_iff.mpr ⟨tree.tasks, mapM_eq_ok_iff.mpr htasks, ?_⟩
    exact mapError_eq_ok_iff.mpr (Tree.ofTasks_eq_ok_iff.mpr ⟨rfl, hkept⟩)

/-- A document reads as a tree if it stands for nothing, or if its parts do. -/
theorem read_ok_iff {source : Text} {tree : Tree} : read v source = .ok tree ↔
    v.isEmpty = true ∧ tree = {} ∨
      v.isEmpty = false ∧ ∃ entries, v = .map entries ∧ ReadsAsTree entries tree := by
  unfold read readDocument
  rw [mapError_eq_ok_iff]
  by_cases hempty : v.isEmpty = true
  · rw [if_pos hempty]
    simp [hempty, eq_comm]
  · rw [if_neg hempty]
    cases v with
    | map entries =>
      show readEntries entries = .ok tree ↔ _
      rw [readEntries_eq_ok_iff]
      simp [hempty]
    | _ =>
      show Except.error _ = .ok tree ↔ _
      simp [hempty]

end Snapshot

end Agenda
