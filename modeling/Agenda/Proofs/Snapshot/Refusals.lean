import Agenda.Proofs.Snapshot.Entries
import Agenda.Proofs.Snapshot.Reading

/-! # Trees and refusals

    A document gives a tree, or it is refused with an error that names its file; only where a
    project has a status that is neither empty nor a text the reading breaks off without one
    (`read_answers_iff`).  The tree has the tasks of the document, each id once, with limits
    that are not negative and with tags in their kept form.

    All this is said of documents whose maps have texts for keys; under other keys nothing is
    looked up. -/

namespace Agenda

/-- A text names a status if it is the word for it, but for case and blanks around it. -/
theorem ProjectStatus.ofWord_eq_ok_iff {t : Text} {status : ProjectStatus} :
    ofWord (some t) = .ok status ↔ Text.lower (Text.trim t) = status.word := by
  unfold ofWord
  show (if Text.lower (Text.trim t) = active.word then Except.ok active
    else if Text.lower (Text.trim t) = archived.word then Except.ok archived
    else Except.error (⟨some t⟩ : Unknown)) = Except.ok status ↔ _
  by_cases hactive : Text.lower (Text.trim t) = active.word
  · rw [if_pos hactive, hactive]
    cases status <;> decide
  · rw [if_neg hactive]
    by_cases harchived : Text.lower (Text.trim t) = archived.word
    · rw [if_pos harchived, harchived]
      cases status <;> decide
    · rw [if_neg harchived]
      cases status <;> simp [hactive, harchived]

namespace Snapshot

/-! ## Section 1: Readings that give a value or a refusal -/

/-- The reading does not break off over a status. -/
def OnlyRefuses {α : Type} (x : Except Fault α) : Prop := x ≠ .error .statusNotText

section readers
variable {α β : Type} {place : Place} {v : Datum}

theorem OnlyRefuses.bind {x : Except Fault α} {next : α → Except Fault β} (hx : OnlyRefuses x)
    (hnext : ∀ a, OnlyRefuses (next a)) : OnlyRefuses (x >>= next) := by
  intro h
  rcases bind_eq_error_iff.mp h with h | ⟨a, -, h⟩
  · exact hx h
  · exact hnext a h

theorem OnlyRefuses.map {x : Except Fault α} (hx : OnlyRefuses x) (f : α → β) :
    OnlyRefuses (x.map f) := by
  cases x with
  | ok a => exact nofun
  | error fault =>
    intro h
    cases h
    exact hx rfl

theorem onlyRefuses_mapError {ε : Type} {x : Except ε α} {fault : ε → Fault}
    (hfault : ∀ e, fault e ≠ .statusNotText) : OnlyRefuses (x.mapError fault) := by
  intro h
  obtain ⟨e, -, he⟩ := mapError_eq_error_iff.mp h
  exact hfault e he

theorem OnlyRefuses.inTask {x : Except Fault α} (hx : OnlyRefuses x) (id : TaskId) :
    OnlyRefuses (x.mapError (Fault.inTask id)) := by
  intro h
  obtain ⟨fault, hfault, h⟩ := mapError_eq_error_iff.mp h
  cases fault with
  | statusNotText => exact hx hfault
  | _ => cases h

theorem onlyRefuses_refuseValue {cause : Datum → Cause} :
    OnlyRefuses (refuseValue (α := α) cause v) := by
  unfold refuseValue
  split <;> exact nofun

theorem onlyRefuses_readInteger : OnlyRefuses (readInteger place v) := by
  unfold readInteger
  split
  · exact nofun
  · exact onlyRefuses_refuseValue

theorem onlyRefuses_readId : OnlyRefuses (readId place v) := by
  unfold readId
  split
  · exact nofun
  · exact onlyRefuses_readInteger.map some

theorem onlyRefuses_requireId : OnlyRefuses (requireId place v) := by
  unfold requireId
  split
  · exact nofun
  · exact onlyRefuses_readInteger

theorem onlyRefuses_readTaskId : OnlyRefuses (readTaskId v) := by
  refine onlyRefuses_requireId.bind fun id => ?_
  split <;> exact nofun

theorem onlyRefuses_readText : OnlyRefuses (readText v) := onlyRefuses_mapError nofun

theorem onlyRefuses_readBody : OnlyRefuses (readBody v) := by
  unfold readBody
  split
  · exact nofun
  · exact (onlyRefuses_mapError nofun).map some

theorem onlyRefuses_readFlag : OnlyRefuses (readFlag place v) := by
  unfold readFlag
  split
  · exact nofun
  · exact nofun
  · exact onlyRefuses_refuseValue

theorem onlyRefuses_readMoment : OnlyRefuses (readMoment place v) := by
  unfold readMoment
  split
  · exact nofun
  · exact nofun
  · split
    · exact nofun
    · split
      · exact nofun
      · exact onlyRefuses_refuseValue

theorem onlyRefuses_readDay : OnlyRefuses (readDay place v) := by
  unfold readDay
  split
  · exact nofun
  · exact nofun
  · split
    · exact nofun
    · split
      · exact nofun
      · exact onlyRefuses_refuseValue

theorem onlyRefuses_readNames {id : TaskId} : OnlyRefuses (readNames id v) := by
  unfold readNames
  split
  · exact nofun
  · split <;> exact nofun

theorem onlyRefuses_readTags {names : List Datum} : OnlyRefuses (readTags names) := by
  unfold readTags
  split <;> exact nofun

theorem onlyRefuses_readLimit : OnlyRefuses (readLimit place v) := by
  unfold readLimit
  split
  · exact nofun
  · exact onlyRefuses_readInteger

theorem onlyRefuses_readList : OnlyRefuses (readList v) := by
  unfold readList
  split
  · exact nofun
  · split <;> exact nofun

theorem ofLimit_ne_statusNotText {id : TaskId} {e : Task.NegativeLimit} :
    Fault.ofLimit id e ≠ .statusNotText := by
  unfold Fault.ofLimit
  split <;> exact nofun

/-- A task is read or refused. -/
theorem onlyRefuses_readTask : OnlyRefuses (readTask v) := by
  cases v with
  | map entries =>
    -- the parts in the order in which they are read, the check of the limit last
    refine onlyRefuses_readTaskId.bind fun id => ?_
    refine onlyRefuses_readNames.bind fun names => ?_
    refine onlyRefuses_readLimit.bind fun limit => ?_
    refine onlyRefuses_readMoment.bind fun completedAt => ?_
    refine onlyRefuses_readMoment.bind fun startAt => ?_
    refine onlyRefuses_readMoment.bind fun createdAt => ?_
    refine onlyRefuses_readMoment.bind fun updatedAt => ?_
    refine onlyRefuses_readDay.bind fun reviewedAt => ?_
    refine onlyRefuses_readDay.bind fun dueDate => ?_
    refine OnlyRefuses.inTask ?_ id
    refine onlyRefuses_readText.bind fun title => ?_
    refine onlyRefuses_readText.bind fun sortKey => ?_
    refine onlyRefuses_readId.bind fun parent => ?_
    refine onlyRefuses_readId.bind fun project => ?_
    refine onlyRefuses_readBody.bind fun body => ?_
    refine onlyRefuses_readFlag.bind fun someday => ?_
    refine onlyRefuses_readTags.bind fun tags => ?_
    exact (onlyRefuses_mapError fun _ => ofLimit_ne_statusNotText).bind fun _ => nofun
  | _ => exact nofun

end readers

/-! ## Section 2: The reading that breaks off -/

/-- A status is given, and it is no text. -/
def IsNoText (v : Datum) : Prop := v.isEmpty = false ∧ ∀ t, v ≠ .text t

/-- A status that is missing or names one, in any case and with blanks around it. -/
def NamesStatus (v : Datum) : Prop :=
  v.isEmpty = true ∨
    ∃ t, v = .text t ∧ ∃ status : ProjectStatus, Text.lower (Text.trim t) = status.word

/-- An entry that can be read as a project: it has an integer for its id, no status that is
    unknown, and a title and a color that can be written as texts. -/
def IsProjectEntry (v : Datum) : Prop :=
  ∃ parts, v = .map parts ∧ NamesStatus (Datum.entry parts "status".toList) ∧
    (∃ id, (Datum.entry parts "id".toList).integer? = some id) ∧
    (Datum.entry parts "title".toList).hasLongInteger = false ∧
    (Datum.entry parts "color".toList).hasLongInteger = false

/-- Projects and tasks are lists, and after some entries that can be read there is a project
    whose status is no text. -/
def BreaksOff (v : Datum) : Prop :=
  ∃ entries before parts after, v = .map entries ∧
    Datum.entry entries "projects".toList = .list (before ++ .map parts :: after) ∧
    ((Datum.entry entries "tasks".toList).isEmpty = true ∨
      ∃ items, Datum.entry entries "tasks".toList = .list items) ∧
    (∀ entry ∈ before, IsProjectEntry entry) ∧ IsNoText (Datum.entry parts "status".toList)

section statuses
variable {v : Datum}

theorem readStatus_of_isEmpty (h : v.isEmpty = true) : readStatus v = .ok .active := if_pos h

theorem readStatus_of_text {t : Text} (h : (Datum.text t).isEmpty = false) :
    readStatus (.text t) =
      (ProjectStatus.ofWord (some t)).mapError fun e => .cause (.unknownStatus e) := by
  unfold readStatus
  rw [if_neg (Bool.eq_false_iff.mp h)]

theorem readStatus_of_isNoText (h : IsNoText v) : readStatus v = .error .statusNotText := by
  obtain ⟨hempty, hno⟩ := h
  unfold readStatus
  rw [if_neg (Bool.eq_false_iff.mp hempty)]
  split
  · next t => exact absurd rfl (hno t)
  · rfl

theorem readStatus_isOk_iff : (∃ status, readStatus v = .ok status) ↔ NamesStatus v := by
  constructor
  · intro h
    obtain ⟨status, h⟩ := h
    by_cases hempty : v.isEmpty = true
    · exact Or.inl hempty
    · rw [Bool.not_eq_true] at hempty
      -- what is no text is refused before any word is looked up
      by_cases htext : ∃ t, v = .text t
      · obtain ⟨t, rfl⟩ := htext
        rw [readStatus_of_text hempty, mapError_eq_ok_iff, ProjectStatus.ofWord_eq_ok_iff] at h
        exact Or.inr ⟨t, rfl, status, h⟩
      · rw [readStatus_of_isNoText ⟨hempty, not_exists.mp htext⟩] at h
        cases h
  · intro h
    by_cases hempty : v.isEmpty = true
    · exact ⟨.active, readStatus_of_isEmpty hempty⟩
    · obtain ⟨t, rfl, status, hword⟩ := h.resolve_left hempty
      rw [Bool.not_eq_true] at hempty
      refine ⟨status, ?_⟩
      rw [readStatus_of_text hempty, mapError_eq_ok_iff, ProjectStatus.ofWord_eq_ok_iff]
      exact hword

theorem readStatus_eq_statusNotText_iff : readStatus v = .error .statusNotText ↔ IsNoText v := by
  constructor
  · intro h
    refine ⟨?_, ?_⟩
    · by_contra hempty
      rw [Bool.not_eq_false] at hempty
      rw [readStatus_of_isEmpty hempty] at h
      cases h
    · intro t ht
      subst ht
      by_cases hempty : (Datum.text t).isEmpty = true
      · rw [readStatus_of_isEmpty hempty] at h
        cases h
      · rw [Bool.not_eq_true] at hempty
        rw [readStatus_of_text hempty] at h
        exact onlyRefuses_mapError nofun h
  · exact readStatus_of_isNoText

theorem readProject_isOk_iff : (∃ p, readProject v = .ok p) ↔ IsProjectEntry v := by
  constructor
  · intro h
    obtain ⟨p, hp⟩ := h
    obtain ⟨parts, rfl, hparts⟩ := readProject_eq_ok_iff.mp hp
    exact ⟨parts, rfl, readStatus_isOk_iff.mp ⟨p.status, hparts.status⟩,
      ⟨p.id, requireId_eq_ok_iff.mp hparts.id⟩, (readText_eq_ok_iff.mp hparts.title).1,
      (readText_eq_ok_iff.mp hparts.color).1⟩
  · intro h
    obtain ⟨parts, rfl, hstatus, ⟨id, hid⟩, htitle, hcolor⟩ := h
    obtain ⟨status, hstatus⟩ := readStatus_isOk_iff.mpr hstatus
    have hparts : ReadsAsProject parts ⟨id, _, status, _⟩ :=
      ⟨requireId_eq_ok_iff.mpr hid, readText_eq_ok_iff.mpr ⟨htitle, rfl⟩, hstatus,
        readText_eq_ok_iff.mpr ⟨hcolor, rfl⟩⟩
    exact ⟨_, readProject_eq_ok_iff.mpr ⟨parts, rfl, hparts⟩⟩

theorem readProject_eq_statusNotText_iff : readProject v = .error .statusNotText ↔
    ∃ parts, v = .map parts ∧ IsNoText (Datum.entry parts "status".toList) := by
  constructor
  · intro h
    cases v with
    | map parts =>
      refine ⟨parts, rfl, readStatus_eq_statusNotText_iff.mp ?_⟩
      -- the parts after the status are read or refused
      rcases bind_eq_error_iff.mp h with h | ⟨status, -, h⟩
      · exact h
      rcases bind_eq_error_iff.mp h with h | ⟨id, -, h⟩
      · exact absurd h onlyRefuses_requireId
      rcases bind_eq_error_iff.mp h with h | ⟨title, -, h⟩
      · exact absurd h onlyRefuses_readText
      rcases bind_eq_error_iff.mp h with h | ⟨color, -, h⟩
      · exact absurd h onlyRefuses_readText
      · cases h
    | _ => cases h
  · intro h
    obtain ⟨parts, rfl, h⟩ := h
    exact bind_eq_error_iff.mpr (Or.inl (readStatus_eq_statusNotText_iff.mpr h))

/-- Once the two lists are there only the status of a project can break the reading off. -/
theorem readEntries_eq_statusNotText_iff {entries : List (Text × Datum)} :
    readEntries entries = .error .statusNotText ↔
      ∃ items items', readList (Datum.entry entries "projects".toList) = .ok items ∧
        readList (Datum.entry entries "tasks".toList) = .ok items' ∧
        items.mapM readProject = .error .statusNotText := by
  unfold readEntries
  constructor
  · intro h
    -- of all that may fail here, only a project can give this reason
    rcases bind_eq_error_iff.mp h with h | ⟨items, hitems, h⟩
    · exact absurd h onlyRefuses_readList
    rcases bind_eq_error_iff.mp h with h | ⟨items', hitems', h⟩
    · exact absurd h onlyRefuses_readList
    rcases bind_eq_error_iff.mp h with h | ⟨projects, -, h⟩
    · exact ⟨items, items', hitems, hitems', h⟩
    rcases bind_eq_error_iff.mp h with h | ⟨tasks, -, h⟩
    · obtain ⟨_, _, _, -, -, h⟩ := mapM_eq_error_iff.mp h
      exact absurd h onlyRefuses_readTask
    · have hduplicate : ∀ e, Fault.cause (.duplicate e) ≠ .statusNotText := fun _ => nofun
      exact absurd h (onlyRefuses_mapError hduplicate)
  · intro h
    obtain ⟨items, items', hitems, hitems', h⟩ := h
    refine bind_eq_error_iff.mpr (Or.inr ⟨items, hitems, ?_⟩)
    refine bind_eq_error_iff.mpr (Or.inr ⟨items', hitems', ?_⟩)
    exact bind_eq_error_iff.mpr (Or.inl h)

theorem isList_iff : (∃ items, readList v = .ok items) ↔
    v.isEmpty = true ∨ ∃ items, v = .list items := by
  constructor
  · intro h
    obtain ⟨items, h⟩ := h
    rcases readList_eq_ok_iff.mp h with ⟨hempty, -⟩ | hlist
    · exact Or.inl hempty
    · exact Or.inr ⟨items, hlist⟩
  · intro h
    rcases h with hempty | ⟨items, hlist⟩
    · exact ⟨[], readList_eq_ok_iff.mpr (Or.inl ⟨hempty, rfl⟩)⟩
    · exact ⟨items, readList_eq_ok_iff.mpr (Or.inr hlist)⟩

theorem readDocument_eq_statusNotText_iff : readDocument v = .error .statusNotText ↔
    ∃ entries, v = .map entries ∧ readEntries entries = .error .statusNotText := by
  unfold readDocument
  by_cases hempty : v.isEmpty = true
  · rw [if_pos hempty]
    constructor
    · intro h
      cases h
    · intro h
      obtain ⟨entries, rfl, h⟩ := h
      obtain rfl := List.isEmpty_iff.mp hempty
      cases h
  · rw [if_neg hempty]
    split
    · next entries =>
      constructor
      · intro h
        exact ⟨entries, rfl, h⟩
      · intro h
        obtain ⟨_, heq, h⟩ := h
        obtain rfl := Datum.map.inj heq
        exact h
    · next hmap =>
      constructor
      · intro h
        cases h
      · intro h
        obtain ⟨entries, rfl, -⟩ := h
        exact absurd rfl (hmap entries)

theorem read_eq_error_iff {source : Text} {failure : Failure} : read v source = .error failure ↔
    ∃ fault, readDocument v = .error fault ∧ fault.inFile source = failure :=
  mapError_eq_error_iff

/-- The reading of a document breaks off exactly over a status that is no text. -/
theorem read_eq_statusNotText_iff {source : Text} :
    read v source = .error .statusNotText ↔ BreaksOff v := by
  have hfault : read v source = .error .statusNotText ↔
      readDocument v = .error .statusNotText := by
    rw [read_eq_error_iff]
    constructor
    · intro h
      obtain ⟨fault, h, hfile⟩ := h
      cases fault with
      | statusNotText => exact h
      | _ => cases hfile
    · intro h
      exact ⟨_, h, rfl⟩
  rw [hfault, readDocument_eq_statusNotText_iff]
  -- the list of projects fails with its first entry that fails
  unfold BreaksOff
  constructor
  · intro h
    obtain ⟨entries, rfl, h⟩ := h
    obtain ⟨items, items', hitems, hitems', h⟩ := readEntries_eq_statusNotText_iff.mp h
    obtain ⟨before, entry, after, rfl, hbefore, hentry⟩ := mapM_eq_error_iff.mp h
    obtain ⟨parts, rfl, hstatus⟩ := readProject_eq_statusNotText_iff.mp hentry
    refine ⟨entries, before, parts, after, rfl, ?_, isList_iff.mp ⟨items', hitems'⟩, ?_, hstatus⟩
    · rcases readList_eq_ok_iff.mp hitems with ⟨-, hnil⟩ | hlist
      · exact absurd hnil (by simp)
      · exact hlist
    · intro entry hmem
      exact readProject_isOk_iff.mp (hbefore entry hmem)
  · intro h
    obtain ⟨entries, before, parts, after, rfl, hprojects, htasks, hbefore, hstatus⟩ := h
    obtain ⟨items', hitems'⟩ := isList_iff.mpr htasks
    refine ⟨entries, rfl, readEntries_eq_statusNotText_iff.mpr
      ⟨_, items', readList_eq_ok_iff.mpr (Or.inr hprojects), hitems', ?_⟩⟩
    refine mapM_eq_error_iff.mpr ⟨before, .map parts, after, rfl, ?_, ?_⟩
    · intro entry hmem
      exact readProject_isOk_iff.mpr (hbefore entry hmem)
    · exact readProject_eq_statusNotText_iff.mpr ⟨parts, rfl, hstatus⟩

end statuses

/-! ## Section 3: The tasks of a document -/

/-- The names under the tags of an entry: words between commas or blanks, or the items of a
    list. -/
def tagNames : Datum → List Text
  | .text t => Text.words (Text.replaceChar ',' [' '] t)
  | .list items => items.map Datum.plain
  | _ => []

/-- A task has the id and the limit that its entry gives, where a missing limit is 0, and the
    kept forms of the tags named there. -/
def IsTaskOf (entry : Datum) (t : Task) : Prop :=
  ∃ parts, entry = .map parts ∧ (Datum.entry parts "id".toList).integer? = some t.id ∧
    (Datum.entry parts "sequential_limit".toList = .null ∧ t.sequentialLimit = 0 ∨
      (Datum.entry parts "sequential_limit".toList).integer? = some (t.sequentialLimit : Int)) ∧
    ∀ tag, tag ∈ t.tags.toList ↔
      tag ≠ [] ∧ ∃ name ∈ tagNames (Datum.entry parts "tags".toList), Tag.normalize name = tag

/-- The items of a list; another value has none. -/
def itemsOf : Datum → List Datum
  | .list items => items
  | _ => []

/-- The entries under the tasks of a document. -/
def taskItems : Datum → List Datum
  | .map entries => itemsOf (Datum.entry entries "tasks".toList)
  | _ => []

section tasks
variable {v : Datum} {t : Task}

/-- The names that are read are those under the tags of the entry. -/
theorem map_plain_of_readNames {id : TaskId} {names : List Datum}
    (h : readNames id v = .ok names) : names.map Datum.plain = tagNames v := by
  unfold readNames at h
  by_cases hempty : v.isEmpty = true
  · rw [if_pos hempty] at h
    obtain rfl := Except.ok.inj h
    cases v with
    | text t =>
      obtain rfl := List.isEmpty_iff.mp hempty
      rfl
    | list items =>
      obtain rfl := List.isEmpty_iff.mp hempty
      rfl
    | _ => rfl
  · rw [if_neg hempty] at h
    split at h
    · obtain rfl := Except.ok.inj h
      rw [List.map_map]
      exact List.map_id _
    · obtain rfl := Except.ok.inj h
      rfl
    · cases h

theorem mem_of_readTags {names : List Datum} {tags : TagSet} (h : readTags names = .ok tags)
    (tag : Text) : tag ∈ tags.toList ↔
      tag ≠ [] ∧ ∃ name ∈ names.map Datum.plain, Tag.normalize name = tag := by
  unfold readTags at h
  split at h
  · cases h
  · rw [← Except.ok.inj h, TagSet.mem_ofList]

theorem isTaskOf_of_readTask (h : readTask v = .ok t) : IsTaskOf v t := by
  obtain ⟨parts, rfl, hparts⟩ := readTask_eq_ok_iff.mp h
  obtain ⟨names, hnames, htags⟩ := hparts.tags
  refine ⟨parts, rfl, (readTaskId_eq_ok_iff.mp hparts.id).1, ?_, ?_⟩
  · rcases readLimit_eq_ok_iff.mp hparts.limit with ⟨hnull, hzero⟩ | hlimit
    · exact Or.inl ⟨hnull, Int.natCast_eq_zero.mp hzero⟩
    · exact Or.inr hlimit
  · rw [← map_plain_of_readNames hnames]
    exact mem_of_readTags htags

theorem itemsOf_eq {items : List Datum} (h : readList v = .ok items) : itemsOf v = items := by
  rcases readList_eq_ok_iff.mp h with ⟨hempty, rfl⟩ | rfl
  · cases v with
    | list items => exact List.isEmpty_iff.mp hempty
    | _ => rfl
  · rfl

/-- The tasks of a tree that is read are those of the document, one after the other. -/
theorem isTaskOf_of_read {source : Text} {tree : Tree} (h : read v source = .ok tree) :
    List.Forall₂ IsTaskOf (taskItems v) tree.tasks := by
  rcases read_ok_iff.mp h with ⟨hempty, rfl⟩ | ⟨-, entries, rfl, hread⟩
  · have hnone : taskItems v = [] := by
      cases v with
      | map entries =>
        obtain rfl := List.isEmpty_iff.mp hempty
        rfl
      | _ => rfl
    rw [hnone]
    exact List.Forall₂.nil
  · obtain ⟨items, hitems, htasks⟩ := hread.tasks
    have hlist : taskItems (.map entries) = items := itemsOf_eq hitems
    rw [hlist]
    exact htasks.imp fun _ _ => isTaskOf_of_readTask

end tasks

/-! ## Section 4: A tree or a refusal -/

/-- **A document gives a tree of its tasks or is refused in the name of its file, unless it has
    a status that is no text where the reading comes to it; there the reading breaks off.** -/
theorem read_answers_iff (v : Datum) (source : Text) :
    (¬BreaksOff v ↔
      (∃ tree, read v source = .ok tree ∧ (tree.tasks.map Task.id).Nodup ∧
        List.Forall₂ IsTaskOf (taskItems v) tree.tasks) ∨
      ∃ e : SnapshotError, read v source = .error (.refused e) ∧ e.source = source) ∧
    (BreaksOff v ↔ read v source = .error .statusNotText) := by
  have hiff : read v source = .error .statusNotText ↔ BreaksOff v := read_eq_statusNotText_iff
  refine ⟨?_, hiff.symm⟩
  rw [← hiff]
  constructor
  · intro hbreaks
    cases hread : read v source with
    | ok tree => exact Or.inl ⟨tree, rfl, tree.tasks_nodup, isTaskOf_of_read hread⟩
    | error failure =>
      -- a failure is a fault in the named file, and the one fault without a name is excluded
      obtain ⟨fault, -, rfl⟩ := read_eq_error_iff.mp hread
      cases fault with
      | cause c => exact Or.inr ⟨⟨c, source⟩, rfl, rfl⟩
      | longInteger e => exact Or.inr ⟨⟨.longInteger e, source⟩, rfl, rfl⟩
      | statusNotText => exact absurd hread hbreaks
  · intro h hbreaks
    rcases h with ⟨tree, htree, -⟩ | ⟨e, he, -⟩
    · rw [hbreaks] at htree
      cases htree
    · rw [hbreaks] at he
      cases he

/-- A project whose status is a number. -/
def numberedStatus : Datum :=
  .map [("projects".toList,
    .list [.map [("id".toList, .integer 1), ("status".toList, .integer 5)]])]

/-- The document with the number gives neither a tree nor a refusal. -/
theorem not_read_answers_numberedStatus :
    ¬((∃ tree, read numberedStatus "s.yaml".toList = .ok tree) ∨
      ∃ e : SnapshotError, read numberedStatus "s.yaml".toList = .error (.refused e) ∧
        e.source = "s.yaml".toList) := by
  have hbreaks : read numberedStatus "s.yaml".toList = .error .statusNotText := rfl
  rw [hbreaks]
  rintro (⟨tree, htree⟩ | ⟨e, he, -⟩)
  · cases htree
  · cases he

end Snapshot

end Agenda
