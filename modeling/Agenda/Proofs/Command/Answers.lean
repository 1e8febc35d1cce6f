import Agenda.Command.Run
import Agenda.Proofs.Page
import Agenda.Proofs.Review
import Agenda.Proofs.Snapshot.RoundTrip

/-! # Every command answers

    A command whose settings and snapshot can be read answers with one response, a success or a
    failure, whatever its arguments.  There is one exception: a review whose interval leads out
    of the calendar ends the program as soon as a task that takes part has been reviewed
    (`run_answers_iff`). -/

namespace Agenda.Command

/-! ## Section 1: Steps that do not break down -/

/-- The step ends, and if it fails the command answers for it. -/
def Answered {α : Type} (x : Step α) : Prop := ∀ b, x ≠ .error (.broken b)

section steps
variable {α β : Type} {x : Step α} {next : α → Step β}

theorem answered_ok (a : α) : Answered (.ok a : Step α) := by
  intro b h
  cases h

theorem answered_fail (f : Failing) : Answered (fail f : Step α) := by
  intro b h
  cases h

theorem Answered.bind (hx : Answered x) (hnext : ∀ a, x = .ok a → Answered (next a)) :
    Answered (x >>= next) := by
  intro b h
  rcases bind_eq_error_iff.mp h with h | ⟨a, ha, h⟩
  · exact hx b h
  · exact hnext a ha b h

theorem respond_isOk_iff {command : Text} {x : Step Success} :
    (∃ r, respond command x = .ok r) ↔ Answered x := by
  unfold respond Answered
  cases x with
  | ok s => simp
  | error stop => cases stop <;> simp

end steps

/-! ## Section 2: Commands that always answer -/

/-- Settings and snapshot can be read: the settings have no moment that a file cannot give
    back, no infinite interval and no level of logging that cannot be written, and no error ends
    the program while the snapshot is loaded. -/
structure Readable (env : Environment) (i : Invocation) : Prop where
  settings : env.settings.hasFineOffset = false
  interval : ∃ n, (Settings.ofFile env.settings).reviewInterval = .ok n
  level    : ∃ word, i.logLevel env = .ok word
  snapshot : Answered (load env i.snapshot)

section commands
variable {env : Environment} {i : Invocation}

theorem answered_keyBetween (before after : Option Text) (count : Int) :
    Answered (Command.keyBetween before after count) := by
  unfold Command.keyBetween
  split
  · exact answered_ok _
  · exact answered_fail _

theorem answered_pageTime (t : Option Text) : Answered (pageTime env t) := by
  unfold pageTime
  split
  · exact answered_ok _
  · split
    · exact answered_ok _
    · exact answered_fail _

theorem answered_reviewDay (t : Option Text) : Answered (reviewDay env t) := by
  unfold reviewDay
  split
  · exact answered_ok _
  · split
    · exact answered_ok _
    · exact answered_fail _

variable (h : Readable env i)
include h

theorem Readable.settings_eq : Command.settings env = .ok (Settings.ofFile env.settings) := by
  unfold Command.settings
  rw [h.settings]
  rfl

theorem Readable.answered_parseTitle (title : Text) :
    Answered (Command.parseTitle env i.snapshot title) := by
  unfold Command.parseTitle
  split
  · apply h.snapshot.bind
    intro tree _
    exact answered_ok _
  · exact answered_ok _

theorem Readable.answered_order (gesture : Gesture) :
    Answered (Command.order env i.snapshot gesture) := by
  apply h.snapshot.bind
  intro tree _
  cases gesture.plan tree with
  | ok plan => exact answered_ok _
  | error e => exact answered_fail _

theorem Readable.answered_filter (query : Text) :
    Answered (Command.filter env i.snapshot query) := by
  unfold Command.filter
  cases Filter.CompiledFilter.ofText query with
  | error e => exact answered_fail _
  | ok f =>
    apply h.snapshot.bind
    intro tree _
    exact answered_ok _

theorem Readable.answered_suggest (query : Text) (cursor : Option Int) :
    Answered (Command.suggest env i.snapshot query cursor) := by
  apply h.snapshot.bind
  intro tree _
  exact answered_ok _

theorem Readable.answered_toggle (isGiven : Bool) (isSet : Settings → Bool) :
    Answered (toggle env isGiven isSet) := by
  unfold toggle
  rw [h.settings_eq]
  split
  · exact answered_ok _
  · exact answered_ok _

theorem Readable.reviewInterval_isOk (interval : Option Int) :
    ∃ n, reviewInterval env interval = .ok n := by
  unfold reviewInterval
  cases interval with
  | some n => exact ⟨n, rfl⟩
  | none =>
    obtain ⟨n, hn⟩ := h.interval
    refine ⟨n, bind_eq_ok_iff.mpr ⟨_, h.settings_eq, ?_⟩⟩
    rw [hn]

end commands

/-! ### Loaded trees -/

/-- A tree that has been loaded was read, or there was no file. -/
theorem isTyped_of_load {env : Environment} {given : Option Text} {tree : Tree}
    (h : load env given = .ok tree) : tree.IsTyped := by
  obtain ⟨path, -, h⟩ := bind_eq_ok_iff.mp h
  cases hload : Snapshot.load (env.fileAt path) path.write with
  | error e =>
    rw [hload] at h
    cases e <;> cases h
  | ok tree' =>
    rw [hload] at h
    obtain rfl := Except.ok.inj h
    unfold Snapshot.load at hload
    split at hload
    -- where there is no file the tree is empty
    · obtain rfl := Except.ok.inj hload
      intro t ht
      cases ht
    · cases hload
    · cases hload
    · split at hload
      · cases hload
      · exact Snapshot.isTyped_of_read hload

/-- A page of a typed tree that is shown at a moment can be shown. -/
theorem timed_of_isTyped {tree : Tree} (h : tree.IsTyped) {page : Page} {now : Moment}
    (hnow : page.now = .moment now) : page.Timed tree where
  now := ⟨now, hnow⟩
  starts _ t ht := (h t ht).startAt

theorem Readable.answered_view {env : Environment} {i : Invocation} (h : Readable env i)
    (r : PageRequest) : Answered (Command.view env i.snapshot r) := by
  apply (answered_pageTime r.now).bind
  intro now _
  apply h.snapshot.bind
  intro tree htree
  apply (h.answered_toggle _ _).bind
  intro hideNonActionable _
  apply (h.answered_toggle _ _).bind
  intro showCompleted _
  have hvisible : ∃ shown, Page.visible
      { hideNonActionable, showCompleted, project := r.project,
        includeArchived := r.includeArchived, scope := r.scope, now := .moment now } tree =
          .ok shown := by
    -- the tree comes from a document, so no task starts with a whole day
    apply Page.Timed.visible_isOk
    exact timed_of_isTyped (isTyped_of_load htree) rfl
  obtain ⟨shown, hshown⟩ := hvisible
  dsimp only
  rw [hshown]
  exact answered_ok _

/-! ## Section 3: Reviews -/

/-- The request is a review whose interval leads out of the calendar, and a task that takes
    part in reviews has been reviewed, so that the first day of the interval is looked for. -/
def LeavesCalendar (env : Environment) (i : Invocation) : Prop :=
  ∃ interval given today n tree, i.request = .review interval given ∧
    reviewDay env given = .ok today ∧ reviewInterval env interval = .ok n ∧ 1 ≤ n ∧
    load env i.snapshot = .ok tree ∧
    ∃ t ∈ tree.tasks, Review.takesPart tree t = true ∧ t.reviewedAt.isSome = true ∧
      (today.ordinal : Int) ≤ n

section reviews
variable {env : Environment} {given : Option Text} {interval : Option Int} {t : Option Text}
  {today : Day} {n : Int} {tree : Tree}

theorem Readable.answered_review {i : Invocation} (h : Readable env i)
    (hlists : ∀ today n tree, reviewDay env t = .ok today → reviewInterval env interval = .ok n →
      1 ≤ n → load env i.snapshot = .ok tree → ∃ lists, Review.lists tree today n = .ok lists) :
    Answered (review env i.snapshot interval t) := by
  obtain ⟨n, hn⟩ := h.reviewInterval_isOk interval
  have hinterval : Answered (reviewInterval env interval) := by
    rw [hn]
    exact answered_ok n
  apply (answered_reviewDay t).bind
  intro today htoday
  apply hinterval.bind
  intro n hn
  by_cases hpos : n < 1
  · rw [if_pos hpos]
    exact answered_fail _
  · -- only now the snapshot is looked at
    rw [if_neg hpos]
    apply h.snapshot.bind
    intro tree htree
    obtain ⟨lists, hok⟩ := hlists today n tree htoday hn (by omega) htree
    rw [hok]
    exact answered_ok _

/-- Where the lists of a review do not exist the program ends. -/
theorem review_breaks (htoday : reviewDay env t = .ok today)
    (hn : reviewInterval env interval = .ok n) (hpos : 1 ≤ n) (htree : load env given = .ok tree)
    (hlists : ¬∃ lists, Review.lists tree today n = .ok lists) :
    review env given interval t = breakDown .outOfCalendar := by
  -- everything that is looked at before the lists is found
  refine bind_eq_error_iff.mpr (Or.inr ⟨today, htoday, ?_⟩)
  refine bind_eq_error_iff.mpr (Or.inr ⟨n, hn, ?_⟩)
  have hpos' : ¬n < 1 := by omega
  rw [if_neg hpos']
  refine bind_eq_error_iff.mpr (Or.inr ⟨tree, htree, ?_⟩)
  cases hcases : Review.lists tree today n with
  | ok lists => exact absurd ⟨lists, hcases⟩ hlists
  | error e =>
    cases e
    rfl

theorem not_lists_isOk_iff (hpos : 1 ≤ n) :
    (¬∃ lists, Review.lists tree today n = .ok lists) ↔
      ∃ t ∈ tree.tasks, Review.takesPart tree t = true ∧ t.reviewedAt.isSome = true ∧
        (today.ordinal : Int) ≤ n := by
  have hreviewed (t : Task) : (Review.lastReview t).isSome = t.reviewedAt.isSome := by
    unfold Review.lastReview
    exact Option.isSome_map
  rw [Review.lists_isOk_iff]
  simp only [hreviewed, Review.back?_isSome_iff hpos]
  constructor
  · intro h
    by_contra hnone
    apply h
    intro t ht hpart hsome
    by_contra hlt
    exact hnone ⟨t, ht, hpart, hsome, by omega⟩
  · intro h hall
    obtain ⟨t, ht, hpart, hsome, hle⟩ := h
    have hlt := hall t ht hpart hsome
    omega

end reviews

/-! ## Section 4: Every command -/

/-- The response reports a success with the exit code 0, or a failure with the exit code 1. -/
def Response.Reports (r : Response) : Prop :=
  (r.exitCode = 0 ∧ ∀ time, item "status" (.text "OK".toList) ∈ r.entries time) ∨
    (r.exitCode = 1 ∧ ∀ time, item "status" (.text "ERROR".toList) ∈ r.entries time)

theorem Response.reports (r : Response) : r.Reports := by
  unfold Response.Reports Response.exitCode Response.entries
  cases r.ok with
  | true =>
    refine Or.inl ⟨rfl, ?_⟩
    intro time
    simp
  | false =>
    refine Or.inr ⟨rfl, ?_⟩
    intro time
    simp

section answers
variable {env : Environment} {i : Invocation} {args : List Text}

/-- Every request is answered, if it does not leave the calendar. -/
theorem exists_answer (h : Readable env i) (hstays : ¬LeavesCalendar env i) :
    ∃ r, i.request.answer env i.snapshot = .ok r := by
  cases hrequest : i.request with
  | parseTitle title => exact respond_isOk_iff.mpr (h.answered_parseTitle title)
  | keyBetween before after count =>
    exact respond_isOk_iff.mpr (answered_keyBetween before after count)
  | order gesture => exact respond_isOk_iff.mpr (h.answered_order gesture)
  | view page => exact respond_isOk_iff.mpr (h.answered_view page)
  | filter query => exact respond_isOk_iff.mpr (h.answered_filter query)
  | checkFilter query => exact ⟨checkFilter query, rfl⟩
  | suggest query cursor => exact respond_isOk_iff.mpr (h.answered_suggest query cursor)
  | review interval given =>
    apply respond_isOk_iff.mpr
    apply h.answered_review
    intro today n tree htoday hn hpos htree
    by_contra hlists
    have hreviewed := (not_lists_isOk_iff hpos).mp hlists
    exact hstays ⟨interval, given, today, n, tree, hrequest, htoday, hn, hpos, htree, hreviewed⟩

theorem answer_of_leavesCalendar (h : LeavesCalendar env i) :
    i.request.answer env i.snapshot = .error .outOfCalendar := by
  obtain ⟨interval, given, today, n, tree, hrequest, htoday, hn, hpos, htree, hreviewed⟩ := h
  have hlists := (not_lists_isOk_iff hpos).mpr hreviewed
  rw [hrequest]
  show respond _ (review env i.snapshot interval given) = _
  rw [review_breaks htoday hn hpos htree hlists]
  rfl

theorem run_of_read (hargs : Call.read args = .ok (.invoke i)) (h : Readable env i) :
    run env args = (i.request.answer env i.snapshot).map .answered := by
  obtain ⟨word, hlevel⟩ := h.level
  have hanswer : i.answer env = i.request.answer env i.snapshot := by
    unfold Invocation.answer
    rw [hlevel]
    rfl
  unfold run
  rw [hargs, ← hanswer]

/-- **A command whose settings and snapshot can be read answers with one response exactly if it
    is no review that leaves the calendar**; such a review ends the program. -/
theorem run_answers_iff (hargs : Call.read args = .ok (.invoke i))
    (h : Readable env i) :
    ((∃ r, run env args = .ok (.answered r) ∧ r.Reports) ↔ ¬LeavesCalendar env i) ∧
      (LeavesCalendar env i → run env args = .error .outOfCalendar) := by
  have hrun := run_of_read hargs h
  have hbreaks (hleaves : LeavesCalendar env i) : run env args = .error .outOfCalendar := by
    rw [hrun, answer_of_leavesCalendar hleaves]
    rfl
  refine ⟨?_, hbreaks⟩
  constructor
  · intro hanswers hleaves
    obtain ⟨r, hr, -⟩ := hanswers
    rw [hbreaks hleaves] at hr
    cases hr
  · intro hstays
    obtain ⟨r, hr⟩ := exists_answer h hstays
    refine ⟨r, ?_, r.reports⟩
    rw [hrun, hr]
    rfl

end answers

/-- A snapshot with one task that was reviewed on the first day, and no settings. -/
def oneReviewed : Environment where
  settings := .absent
  fileAt _ := .holding (.map [item "tasks" (.list [.map [item "id" (.integer 1),
    item "reviewed_at" (.day Day.first)]])])
  homes _ := none
  today := Day.first
  now := Moment.midnight Day.first

/-- The arguments of a review with an interval of so many days. -/
def reviewArguments (days : String) : List Text :=
  ["review", "--snapshot", "snapshot.yaml", "--interval", days, "--today", "2024-06-01"].map
    String.toList

/-- What these arguments ask for. -/
def reviewInvocation (days : Int) : Invocation where
  request := .review (some days) (some "2024-06-01".toList)
  snapshot := some "snapshot.yaml".toList

theorem load_oneReviewed : ∃ tree, load oneReviewed (some "snapshot.yaml".toList) = .ok tree ∧
    ∃ t ∈ tree.tasks, Review.takesPart tree t = true ∧ t.reviewedAt.isSome = true := by
  have hany : (load oneReviewed (some "snapshot.yaml".toList)).toOption.any (fun tree =>
      tree.tasks.any fun t => Review.takesPart tree t && t.reviewedAt.isSome) = true := by
    decide +kernel
  obtain ⟨tree, htree, hany⟩ := (Option.any_eq_true _ _).mp hany
  obtain ⟨t, ht, hboth⟩ := List.any_eq_true.mp hany
  exact ⟨tree, toOption_eq_some_iff.mp htree, t, ht, Bool.and_eq_true_iff.mp hboth⟩

theorem readable_oneReviewed (days : Int) : Readable oneReviewed (reviewInvocation days) where
  settings := rfl
  interval := ⟨7, rfl⟩
  level := ⟨_, rfl⟩
  snapshot := by
    obtain ⟨tree, htree, -⟩ := load_oneReviewed
    show Answered (load oneReviewed (some "snapshot.yaml".toList))
    rw [htree]
    exact answered_ok tree

theorem reviewDay_oneReviewed : ∃ today,
    reviewDay oneReviewed (some "2024-06-01".toList) = .ok today ∧ today.ordinal = 739038 :=
  ⟨_, rfl, by decide +kernel⟩

/-- A review with an interval of a week answers. -/
theorem run_answers_week : Call.read (reviewArguments "7") = .ok (.invoke (reviewInvocation 7)) ∧
    Readable oneReviewed (reviewInvocation 7) ∧
    ¬LeavesCalendar oneReviewed (reviewInvocation 7) ∧
    ∃ r, run oneReviewed (reviewArguments "7") = .ok (.answered r) ∧ r.Reports := by
  have hargs : Call.read (reviewArguments "7") = .ok (.invoke (reviewInvocation 7)) :=
    toOption_eq_some_iff.mp (by decide +kernel)
  have hstays : ¬LeavesCalendar oneReviewed (reviewInvocation 7) := by
    intro hleaves
    obtain ⟨interval, given, today, n, tree, hrequest, htoday, hn, -, -, t, -, -, -, hle⟩ :=
      hleaves
    obtain ⟨rfl, rfl⟩ := Request.review.inj hrequest
    obtain rfl := Except.ok.inj hn
    obtain ⟨day, hday, hordinal⟩ := reviewDay_oneReviewed
    obtain rfl := Except.ok.inj (hday.symm.trans htoday)
    omega
  exact ⟨hargs, readable_oneReviewed 7, hstays,
    (run_answers_iff hargs (readable_oneReviewed 7)).1.mpr hstays⟩

/-- A review with an interval of a million days, which began before the calendar does, ends the
    program. -/
theorem not_run_answers_millionDays :
    Call.read (reviewArguments "1000000") = .ok (.invoke (reviewInvocation 1000000)) ∧
    Readable oneReviewed (reviewInvocation 1000000) ∧
    ¬∃ r, run oneReviewed (reviewArguments "1000000") = .ok (.answered r) := by
  have hargs : Call.read (reviewArguments "1000000") =
      .ok (.invoke (reviewInvocation 1000000)) :=
    toOption_eq_some_iff.mp (by decide +kernel)
  obtain ⟨today, htoday, hordinal⟩ := reviewDay_oneReviewed
  obtain ⟨tree, htree, t, ht, hpart, hreviewed⟩ := load_oneReviewed
  have hleaves : LeavesCalendar oneReviewed (reviewInvocation 1000000) :=
    ⟨_, _, today, _, tree, rfl, htoday, rfl, by decide, htree, t, ht, hpart, hreviewed, by omega⟩
  refine ⟨hargs, readable_oneReviewed _, ?_⟩
  intro hanswers
  obtain ⟨r, hr⟩ := hanswers
  rw [run_of_read hargs (readable_oneReviewed _), answer_of_leavesCalendar hleaves] at hr
  cases hr

end Agenda.Command
