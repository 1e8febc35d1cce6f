import Mathlib.Tactic.SplitIfs
import Agenda.Settings
import Agenda.Text.CaseLemmas

/-! # Settings are a record

    A call of a setter either is refused, and the file is as it was, or replaces the file by one
    in which the key of the setter has what the setter keeps and every other key has what it had
    (`Call.run_cases`).  So a run of calls is a run of those that succeed (`writes_of_calls`), and
    by induction on these each getter gives what the last call of its own setter asks for, other
    keys are left alone, and there is a file exactly if there is a key (`calls_record`).

    All this is said of values that come back from a file as they were written (`Durable`), and
    of files whose maps have texts for keys, as those that the setters write. -/

namespace Agenda

/-! ## Section 1: What comes back from a file -/

theorem Text.stored_of_notMem {t : Text} (h : Text.nextLine ∉ t) : Text.stored t = t := by
  simp [Text.stored, h]

namespace Datum

/-- A value comes back from a file, and as it was. -/
structure Durable (v : Datum) : Prop where
  stored_eq : v.stored = v
  coarse : v.hasFineOffset = false

theorem durable_integer (n : Int) : (integer n).Durable := ⟨rfl, rfl⟩

theorem durable_truth (b : Bool) : (truth b).Durable := ⟨rfl, rfl⟩

theorem durable_text {t : Text} (h : Text.stored t = t) : (text t).Durable :=
  ⟨congrArg text h, rfl⟩

theorem storedEntries_eq_self_iff {entries : List (Text × Datum)} :
    storedEntries entries = entries ↔ ∀ e ∈ entries, Text.stored e.1 = e.1 ∧ e.2.stored = e.2 := by
  induction entries with
  | nil => simp [storedEntries]
  | cons e rest ih =>
    rw [storedEntries, List.cons.injEq, Prod.ext_iff, ih, List.forall_mem_cons]

theorem anyFineOffsetIn_eq_false_iff {entries : List (Text × Datum)} :
    anyFineOffsetIn entries = false ↔ ∀ e ∈ entries, e.2.hasFineOffset = false := by
  induction entries with
  | nil => simp [anyFineOffsetIn]
  | cons e rest ih => simp [anyFineOffsetIn, ih]

/-- A map comes back as it was if every key and every value does. -/
theorem durable_map_iff {entries : List (Text × Datum)} :
    (map entries).Durable ↔ ∀ e ∈ entries, Text.stored e.1 = e.1 ∧ e.2.Durable := by
  have hstored : (map entries).stored = map entries ↔ storedEntries entries = entries := by
    rw [stored, map.injEq]
  have hcoarse : (map entries).hasFineOffset = anyFineOffsetIn entries := by rw [hasFineOffset]
  constructor
  · rintro ⟨hs, hf⟩ e he
    rw [hstored, storedEntries_eq_self_iff] at hs
    rw [hcoarse, anyFineOffsetIn_eq_false_iff] at hf
    exact ⟨(hs e he).1, (hs e he).2, hf e he⟩
  · intro h
    refine ⟨?_, ?_⟩
    · rw [hstored, storedEntries_eq_self_iff]
      exact fun e he => ⟨(h e he).1, (h e he).2.stored_eq⟩
    · rw [hcoarse, anyFineOffsetIn_eq_false_iff]
      exact fun e he => (h e he).2.coarse

end Datum

namespace Settings

section files
variable {s : Settings} {file : StoredFile} {key : Text} {kept : Option Datum}

/-- Settings come back from a file as they were. -/
def Durable (s : Settings) : Prop := (Datum.map s.entries).Durable

theorem Durable.update (hs : s.Durable) (hkey : Text.stored key = key)
    (hkept : ∀ v, kept = some v → v.Durable) : (s.update key kept).Durable := by
  unfold Settings.Durable at hs ⊢
  rw [Datum.durable_map_iff] at hs ⊢
  intro e he
  cases kept with
  | none => exact hs e (List.mem_filter.mp he).1
  | some v =>
    rcases eq_or_mem_of_mem_putBy he with rfl | he
    · exact ⟨hkey, hkept v rfl⟩
    · exact hs e he

theorem toFile_eq_absent_iff : s.toFile = .absent ↔ s.entries = [] := by
  unfold toFile
  cases s.entries with
  | nil => simp
  | cons e rest => simp [StoredFile.save]

theorem toFile_of_ne_nil (hs : s.Durable) (hne : s.entries ≠ []) :
    s.toFile = .holding (.map s.entries) := by
  unfold toFile StoredFile.save
  rw [hs.stored_eq]
  simp [hne]

theorem ofFile_toFile (hs : s.Durable) : ofFile s.toFile = s := by
  by_cases hne : s.entries = []
  · rw [toFile_eq_absent_iff.mpr hne]
    exact congrArg Settings.mk hne.symm
  · rw [toFile_of_ne_nil hs hne]
    rfl

/-- There is no file, or it holds settings that come back as they were. -/
def Sound (file : StoredFile) : Prop :=
  file = .absent ∨ ∃ entries, file = .holding (.map entries) ∧ (Datum.map entries).Durable

theorem durable_empty : Durable ⟨[]⟩ := by
  refine ⟨?_, ?_⟩
  · simp [Datum.stored, Datum.storedEntries]
  · simp [Datum.hasFineOffset, Datum.anyFineOffsetIn]

theorem Sound.durable (h : Sound file) : (ofFile file).Durable := by
  rcases h with rfl | ⟨entries, rfl, hentries⟩
  · exact durable_empty
  · exact hentries

theorem Durable.sound (hs : s.Durable) : Sound s.toFile := by
  by_cases hne : s.entries = []
  · exact .inl (toFile_eq_absent_iff.mpr hne)
  · exact .inr ⟨s.entries, toFile_of_ne_nil hs hne, hs⟩

theorem exists_get?_iff : (∃ key v, s.get? key = some v) ↔ s.entries ≠ [] := by
  constructor
  · rintro ⟨key, v, h⟩ hnil
    simp [get?, hnil] at h
  · intro hne
    obtain ⟨e, rest, he⟩ := List.exists_cons_of_ne_nil hne
    exact ⟨e.1, e.2, by simp [get?, he]⟩

theorem get?_update_self : (s.update key kept).get? key = kept := by
  cases kept with
  | none => exact (get?_remove s key key).trans (if_pos rfl)
  | some v => exact (get?_assign s key key v).trans (if_pos rfl)

theorem get?_update_of_ne {other : Text} (h : key ≠ other) :
    (s.update key kept).get? other = s.get? other := by
  cases kept with
  | none => exact (get?_remove s key other).trans (if_neg h)
  | some v => exact (get?_assign s key other v).trans (if_neg h)

end files

/-! ## Section 2: One call -/

/-- A call of a setter with a value. -/
structure Call where
  setter : Setter
  value  : Datum

/-- What comes of a call, and the file that it leaves. -/
def Call.run (c : Call) (file : StoredFile) : Except Refusal Unit × StoredFile :=
  (c.setter.call c.value).run file

/-- A call that succeeds: the file is replaced by one in which the key of the setter has what
    the setter keeps. -/
def Call.Writes (c : Call) (file file' : StoredFile) : Prop :=
  ∃ kept, c.setter.kept c.value = .ok kept ∧
    file' = ((ofFile file).update c.setter.key kept).toFile

/-- The path that a call sets, if it sets one, comes back from a file as it was. -/
def Call.Durable (c : Call) : Prop :=
  ∀ t, c.setter = .snapshotPath → c.value = .text t → Text.stored (Text.trim t) = Text.trim t

section call
variable {c : Call} {file file' : StoredFile}

theorem run_bind {α β : Type} (x : Change α) (f : α → Change β) (file : StoredFile) :
    (x >>= f).run file = match x.run file with
      | (.error e, file') => (.error e, file')
      | (.ok a, file') => (f a).run file' := by
  simp only [bind, ExceptT.bind, ExceptT.run, ExceptT.mk, StateT.bind]
  cases x file with
  | mk r file' => cases r <;> rfl

theorem run_load (file : StoredFile) :
    load.run file =
      if file.hasFineOffset then (.error .fineOffset, file) else (.ok (ofFile file), file) := by
  show (if file.hasFineOffset then throw .fineOffset else return ofFile file :
    Change Settings).run file = _
  split <;> rfl

theorem run_store (s : Settings) (file : StoredFile) :
    (store s).run file =
      if (Datum.map s.entries).hasLongInteger then (.error (.longInteger ⟨⟩), file)
      else (.ok (), s.toFile) := by
  unfold store
  split <;> rfl

theorem run_call (setter : Setter) (v : Datum) (file : StoredFile) :
    (setter.call v).run file = match setter.kept v with
      | .error e => (.error e, file)
      | .ok kept => (load >>= fun s => store (s.update setter.key kept)).run file := by
  unfold Setter.call
  cases setter.kept v <;> rfl

/-- **A call is refused and leaves the file as it was, or it writes what it keeps.** -/
theorem Call.run_cases (c : Call) (file : StoredFile) :
    (∃ e, c.run file = (.error e, file)) ∨
      ∃ file', c.run file = (.ok (), file') ∧ c.Writes file file' := by
  unfold Call.run
  rw [run_call]
  cases hkept : c.setter.kept c.value with
  | error e => exact .inl ⟨e, rfl⟩
  | ok kept =>
    dsimp only
    -- what can still fail comes before the file is replaced: reading it and writing the new one
    rw [run_bind, run_load]
    by_cases hfine : file.hasFineOffset = true
    · rw [if_pos hfine]
      exact .inl ⟨.fineOffset, rfl⟩
    · rw [if_neg hfine]
      dsimp only
      rw [run_store]
      split_ifs with hlong
      · exact .inl ⟨.longInteger ⟨⟩, rfl⟩
      · exact .inr ⟨_, rfl, kept, hkept, rfl⟩

theorem Call.run_error {e : Refusal} (h : (c.run file).1 = .error e) : (c.run file).2 = file := by
  rcases c.run_cases file with ⟨e', hrun⟩ | ⟨file', hrun, -⟩
  · rw [hrun]
  · rw [hrun] at h
    cases h

theorem setter_key_stored (setter : Setter) : Text.stored setter.key = setter.key := by
  apply Text.stored_of_notMem
  cases setter <;> decide

theorem keptInterval_cases {v : Datum} {kept : Option Datum} (h : keptInterval v = .ok kept) :
    (v = .null ∧ kept = none) ∨
      (v ≠ .null ∧ ∃ n, v.toInteger = .ok n ∧ 1 ≤ n ∧ kept = some (.integer n)) := by
  unfold keptInterval at h
  split at h
  · exact .inl ⟨rfl, (Except.ok.inj h).symm⟩
  · rename_i hnull
    refine .inr ⟨hnull, ?_⟩
    cases hv : v.toInteger with
    | error e =>
      rw [hv] at h
      cases h
    | ok n =>
      rw [hv] at h
      replace h : (if n < 1 then .error .notPositive else .ok (some (.integer n)) :
        Except Refusal (Option Datum)) = .ok kept := h
      split_ifs at h with hn
      exact ⟨n, rfl, by omega, (Except.ok.inj h).symm⟩

theorem keptToggle_cases (v : Datum) :
    keptToggle v = none ∨ keptToggle v = some (.truth true) := by
  unfold keptToggle
  cases v.isEmpty with
  | true => exact .inl rfl
  | false => exact .inr rfl

theorem keptPath_cases {v : Datum} {kept : Option Datum} (h : keptPath v = .ok kept) :
    (Text.trim v.plainOrEmpty = [] ∧ kept = none) ∨
      ∃ t, v = .text t ∧ Text.trim t ≠ [] ∧ kept = some (.text (Text.trim t)) := by
  unfold keptPath at h
  split_ifs at h with hempty
  · refine .inl ⟨?_, (Except.ok.inj h).symm⟩
    rw [Datum.plainOrEmpty, if_pos hempty]
    rfl
  · split at h
    · rename_i t
      obtain rfl := Except.ok.inj h
      rw [Datum.plainOrEmpty_text]
      by_cases ht : Text.trim t = []
      · exact .inl ⟨ht, if_pos ht⟩
      · exact .inr ⟨t, rfl, ht, if_neg ht⟩
    · cases h

/-- What a call keeps comes back from a file as it was. -/
theorem Call.Durable.kept {v : Datum} (hc : c.Durable)
    (h : c.setter.kept c.value = .ok (some v)) : v.Durable := by
  -- integers and truth values always come back; of texts the call has to promise it
  have htoggle : ∀ u, keptToggle u = some v → v.Durable := by
    intro u hu
    rcases keptToggle_cases u with hnone | hsome
    · rw [hnone] at hu
      cases hu
    · obtain rfl := Option.some.inj (hsome.symm.trans hu)
      exact Datum.durable_truth true
  obtain ⟨setter, value⟩ := c
  cases setter with
  | reviewInterval =>
    obtain ⟨-, hnone⟩ | ⟨-, n, -, -, hsome⟩ := keptInterval_cases h
    · cases hnone
    · obtain rfl := Option.some.inj hsome
      exact Datum.durable_integer n
  | hideNonActionable => exact htoggle value (Except.ok.inj h)
  | showCompleted => exact htoggle value (Except.ok.inj h)
  | snapshotPath =>
    obtain ⟨-, hnone⟩ | ⟨t, hvalue, -, hsome⟩ := keptPath_cases h
    · cases hnone
    · obtain rfl := Option.some.inj hsome
      exact Datum.durable_text (hc t rfl hvalue)

/-- What a successful call writes comes back from the file as it was. -/
theorem Call.Writes.durable (h : c.Writes file file') (hfile : Sound file) (hc : c.Durable) :
    ∃ kept, c.setter.kept c.value = .ok kept ∧ ((ofFile file).update c.setter.key kept).Durable ∧
      file' = ((ofFile file).update c.setter.key kept).toFile := by
  obtain ⟨kept, hkept, rfl⟩ := h
  refine ⟨kept, hkept, ?_, rfl⟩
  apply hfile.durable.update (setter_key_stored c.setter)
  rintro v rfl
  exact hc.kept hkept

/-- **A successful call updates the settings of the file**, which stays sound. -/
theorem Call.Writes.sound (h : c.Writes file file') (hfile : Sound file) (hc : c.Durable) :
    Sound file' ∧ ∃ kept, c.setter.kept c.value = .ok kept ∧
      ofFile file' = (ofFile file).update c.setter.key kept := by
  obtain ⟨kept, hkept, hdurable, rfl⟩ := h.durable hfile hc
  exact ⟨hdurable.sound, kept, hkept, ofFile_toFile hdurable⟩

end call

/-! ## Section 3: Getters and setters -/

/-- What the getter of a setter gives. -/
inductive Reading where
  | interval (n : Except Datum.IntegerFault Int)
  | toggle (b : Bool)
  | path (p : Except PathFault (Option Path))

/-- Is there an answer? -/
def Reading.answers : Reading → Bool
  | interval n => n.isOk
  | toggle _ => true
  | path p => p.isOk

/-- The getter of a setter. -/
def Setter.reading (homes : Path.Homes) (s : Settings) : Setter → Reading
  | reviewInterval => .interval s.reviewInterval
  | hideNonActionable => .toggle s.hideNonActionable
  | showCompleted => .toggle s.showCompleted
  | snapshotPath => .path (s.snapshotPath homes)

/-- The review interval that a value asks for: null asks for the default. -/
def askedInterval : Datum → Except Datum.IntegerFault Int
  | .null => .ok Review.defaultInterval
  | v => v.toInteger

/-- What the getter of a setter should give when the setter has been called with a value: the
    interval that it asks for; whether it stands for something; the path that a text without the
    blanks around it writes, with the home directory in it, and none for blanks. -/
def Setter.asked (homes : Path.Homes) (v : Datum) : Setter → Reading
  | reviewInterval => .interval (askedInterval v)
  | hideNonActionable | showCompleted => .toggle !v.isEmpty
  | snapshotPath => .path (pathOf v.plainOrEmpty homes)

/-- A text begins with a tilde and the name of a user whose home directory is not known. -/
def NoHome (homes : Path.Homes) (t : Text) : Prop :=
  ∃ user rest, Path.ofText (Text.trim t) = ⟨[], ('~' :: user) :: rest⟩ ∧ homes user = none

section readings
variable {homes : Path.Homes} {s s' : Settings} {setter : Setter} {v : Datum}
  {kept : Option Datum}

/-- A getter looks at the key of its setter only. -/
theorem reading_congr (h : s.get? setter.key = s'.get? setter.key) :
    setter.reading homes s = setter.reading homes s' := by
  cases setter <;>
    simp only [Setter.key] at h <;>
    simp only [Setter.reading, reviewInterval, hideNonActionable, showCompleted, toggle,
      snapshotPath, h]

theorem askedInterval_of_ne_null (h : v ≠ .null) : askedInterval v = v.toInteger := by
  unfold askedInterval
  split
  · exact absurd rfl h
  · rfl

theorem reviewInterval_of_kept (h : keptInterval v = .ok kept) (hget : s.get? intervalKey = kept) :
    Setter.reviewInterval.reading homes s = Setter.reviewInterval.asked homes v := by
  apply congrArg Reading.interval
  unfold reviewInterval
  rw [hget]
  rcases keptInterval_cases h with ⟨rfl, rfl⟩ | ⟨hnull, n, hv, hpos, rfl⟩
  · rfl
  · show Except.ok (if n < 1 then _ else n) = _
    rw [askedInterval_of_ne_null hnull, hv, if_neg (by omega)]

theorem toggle_of_kept {key : Text} (hget : s.get? key = keptToggle v) :
    s.toggle key = !v.isEmpty := by
  unfold toggle
  rw [hget, keptToggle]
  cases v.isEmpty <;> rfl

theorem pathOf_trim (t : Text) : pathOf (Text.trim t) homes = pathOf t homes := by
  unfold pathOf
  rw [Text.trim_of_trimmed (Text.trimmed_trim t)]

theorem pathOf_blanks {t : Text} (h : Text.trim t = []) : pathOf t homes = .ok none :=
  if_pos h

theorem snapshotPath_of_kept (h : keptPath v = .ok kept) (hget : s.get? snapshotKey = kept) :
    s.snapshotPath homes = pathOf v.plainOrEmpty homes := by
  unfold snapshotPath
  rw [hget]
  rcases keptPath_cases h with ⟨hblank, rfl⟩ | ⟨t, rfl, -, rfl⟩
  · rw [pathOf_blanks hblank]
    rfl
  -- the text is trimmed once before it is kept and again when it is read
  · rw [Datum.plainOrEmpty_text, ← pathOf_trim]
    show pathOf (Datum.text (Text.trim t)).plainOrEmpty homes = _
    rw [Datum.plainOrEmpty_text]

/-- **A getter gives what its setter was asked for.** -/
theorem reading_of_kept (h : setter.kept v = .ok kept) (hget : s.get? setter.key = kept) :
    setter.reading homes s = setter.asked homes v := by
  cases setter with
  | reviewInterval => exact reviewInterval_of_kept h hget
  | hideNonActionable =>
    obtain rfl := Except.ok.inj h
    exact congrArg Reading.toggle (toggle_of_kept hget)
  | showCompleted =>
    obtain rfl := Except.ok.inj h
    exact congrArg Reading.toggle (toggle_of_kept hget)
  | snapshotPath => exact congrArg Reading.path (snapshotPath_of_kept h hget)

theorem isOk_expandHome_iff (p : Path) : (p.expandHome homes).isOk = true ↔
    ¬∃ user rest, p = ⟨[], ('~' :: user) :: rest⟩ ∧ homes user = none := by
  obtain ⟨root, names⟩ := p
  unfold Path.expandHome
  split
  · rename_i user rest hroot hnames
    dsimp only at hroot hnames
    subst hroot hnames
    cases hhome : homes user with
    | none => exact iff_of_false nofun fun h => h ⟨user, rest, rfl, hhome⟩
    | some home =>
      refine iff_of_true rfl ?_
      rintro ⟨user', rest', hp, hnone⟩
      cases hp
      rw [hhome] at hnone
      cases hnone
  · rename_i hother
    refine iff_of_true rfl ?_
    rintro ⟨user, rest, hp, -⟩
    cases hp
    exact hother user rest rfl rfl

theorem isOk_pathOf_iff (t : Text) : (pathOf t homes).isOk = true ↔ ¬NoHome homes t := by
  unfold pathOf NoHome
  rw [← isOk_expandHome_iff]
  by_cases ht : Text.trim t = []
  · rw [if_pos ht, ht]
    rfl
  · rw [if_neg ht]
    cases (Path.ofText (Text.trim t)).expandHome homes <;> rfl

/-- **What a setter has kept is answered**, but for a path without a home directory to begin
    with. -/
theorem answers_asked_iff (h : setter.kept v = .ok kept) :
    (setter.asked homes v).answers = true ↔
      ¬(setter = .snapshotPath ∧ NoHome homes v.plainOrEmpty) := by
  cases setter with
  | reviewInterval =>
    refine iff_of_true ?_ nofun
    rcases keptInterval_cases h with ⟨rfl, -⟩ | ⟨hnull, n, hv, -, -⟩
    · rfl
    · rw [Setter.asked, askedInterval_of_ne_null hnull, hv]
      rfl
  | hideNonActionable => exact iff_of_true rfl nofun
  | showCompleted => exact iff_of_true rfl nofun
  | snapshotPath =>
    rw [Setter.asked, Reading.answers, isOk_pathOf_iff]
    simp

end readings

/-! ## Section 4: Runs of calls -/

/-- The file after calls one after another, refused or not. -/
def fileAfter (file : StoredFile) (calls : List Call) : StoredFile :=
  calls.foldl (fun file c => (c.run file).2) file

/-- The calls that succeed, each in the file that it finds. -/
def successes (file : StoredFile) : List Call → List Call
  | [] => []
  | c :: rest =>
    match c.run file with
    | (.ok (), file') => c :: successes file' rest
    | (.error _, file') => successes file' rest

/-- The last of the calls of a setter. -/
def lastOf (setter : Setter) (calls : List Call) : Option Call :=
  calls.reverse.find? (·.setter = setter)

theorem lastOf_cons (setter : Setter) (c : Call) (calls : List Call) :
    lastOf setter (c :: calls) =
      (lastOf setter calls).or (if c.setter = setter then some c else none) := by
  rw [lastOf, List.reverse_cons, List.find?_append, lastOf]
  congr 1
  by_cases h : c.setter = setter <;> simp [h]

theorem mem_of_lastOf {setter : Setter} {c : Call} {calls : List Call}
    (h : lastOf setter calls = some c) : c ∈ calls ∧ c.setter = setter :=
  ⟨List.mem_reverse.mp (List.mem_of_find?_eq_some h), by simpa using List.find?_some h⟩

/-- Successful calls lead from one file to another. -/
inductive Writes : StoredFile → List Call → StoredFile → Prop where
  | nil (file : StoredFile) : Writes file [] file
  | cons {file mid file' : StoredFile} {c : Call} {done : List Call}
      (head : c.Writes file mid) (tail : Writes mid done file') : Writes file (c :: done) file'

section runs
variable {file file' : StoredFile} {calls done : List Call}

/-- **A run of calls is a run of those that succeed.** -/
theorem writes_of_calls (file : StoredFile) (calls : List Call) :
    Writes file (successes file calls) (fileAfter file calls) := by
  induction calls generalizing file with
  | nil => exact .nil file
  | cons c rest ih =>
    rw [successes, fileAfter, List.foldl_cons]
    rcases c.run_cases file with ⟨e, hrun⟩ | ⟨mid, hrun, hwrites⟩
    · rw [hrun]
      exact ih file
    · rw [hrun]
      exact .cons hwrites (ih mid)

theorem successes_subset (file : StoredFile) (calls : List Call) :
    successes file calls ⊆ calls := by
  induction calls generalizing file with
  | nil => exact List.Subset.refl []
  | cons c rest ih =>
    rw [successes]
    split
    · exact List.cons_subset_cons c (ih _)
    · exact List.subset_cons_of_subset c (ih _)

theorem Writes.kept (h : Writes file done file') {c : Call} (hc : c ∈ done) :
    ∃ kept, c.setter.kept c.value = .ok kept := by
  induction h with
  | nil => cases hc
  | cons head _ ih =>
    rcases List.mem_cons.mp hc with rfl | hc
    · exact head.imp fun _ hkept => hkept.1
    · exact ih hc

/-- A key that no call is for keeps its value. -/
theorem Writes.get?_of_untouched (h : Writes file done file') (hfile : Sound file)
    (hdone : ∀ c ∈ done, c.Durable) {key : Text} (hkey : ∀ c ∈ done, c.setter.key ≠ key) :
    (ofFile file').get? key = (ofFile file).get? key := by
  induction h with
  | nil => rfl
  | cons head _ ih =>
    rw [List.forall_mem_cons] at hdone hkey
    obtain ⟨hmid, kept, -, hupdate⟩ := head.sound hfile hdone.1
    rw [ih hmid hdone.2 hkey.2, hupdate, get?_update_of_ne hkey.1]

theorem Setter.key_injective {a b : Setter} (h : a.key = b.key) : a = b := by
  cases a <;> cases b <;> first | rfl | exact absurd h (by decide)

/-- A getter gives what the last call of its setter asks for, and without one what it gave. -/
theorem Writes.reading (h : Writes file done file') (hfile : Sound file)
    (hdone : ∀ c ∈ done, c.Durable) (homes : Path.Homes) (setter : Setter) :
    setter.reading homes (ofFile file') = match lastOf setter done with
      | some c => setter.asked homes c.value
      | none => setter.reading homes (ofFile file) := by
  induction h with
  | nil => rfl
  | @cons file mid file' c done head _ ih =>
    rw [List.forall_mem_cons] at hdone
    obtain ⟨hmid, kept, hkept, hupdate⟩ := head.sound hfile hdone.1
    rw [ih hmid hdone.2, lastOf_cons]
    -- a later call of the setter hides the first one
    cases lastOf setter done with
    | some c' => rfl
    | none =>
      rw [Option.none_or]
      by_cases hc : c.setter = setter
      · subst hc
        rw [if_pos rfl, hupdate]
        exact reading_of_kept hkept get?_update_self
      · rw [if_neg hc, hupdate]
        apply reading_congr
        exact get?_update_of_ne fun hkey => hc (Setter.key_injective hkey)

theorem Writes.durable (h : Writes file done file') (hfile : Sound file)
    (hdone : ∀ c ∈ done, c.Durable) (hne : done ≠ []) :
    ∃ s : Settings, s.Durable ∧ file' = s.toFile := by
  induction h with
  | nil => exact absurd rfl hne
  | cons head tail ih =>
    rw [List.forall_mem_cons] at hdone
    -- what the last call has written is all that counts
    cases tail with
    | nil =>
      obtain ⟨kept, -, hdurable, hwritten⟩ := head.durable hfile hdone.1
      exact ⟨_, hdurable, hwritten⟩
    | cons => exact ih (head.sound hfile hdone.1).1 hdone.2 (List.cons_ne_nil _ _)

/-- When a call has succeeded there is a file exactly if there is a key. -/
theorem Writes.exists_iff (h : Writes file done file') (hfile : Sound file)
    (hdone : ∀ c ∈ done, c.Durable) (hne : done ≠ []) :
    file' ≠ .absent ↔ ∃ key v, (ofFile file').get? key = some v := by
  obtain ⟨s, hs, rfl⟩ := h.durable hfile hdone hne
  rw [ofFile_toFile hs, exists_get?_iff, ne_eq, toFile_eq_absent_iff]

end runs

/-! ## Section 5: The record -/

/-- What the file of the settings is after calls of setters. -/
structure Record (file : StoredFile) (calls : List Call) : Prop where
  /-- A call that is refused leaves the file as it found it. -/
  refused : ∀ before c after e, calls = before ++ c :: after →
    (c.run (fileAfter file before)).1 = .error e →
      fileAfter file (before ++ [c]) = fileAfter file before
  /-- A getter gives what the last successful call of its setter asks for. -/
  readings : ∀ homes (setter : Setter), setter.reading homes (ofFile (fileAfter file calls)) =
    match lastOf setter (successes file calls) with
    | some c => setter.asked homes c.value
    | none => setter.reading homes (ofFile file)
  /-- That is an answer, unless a path begins with a home directory that is not known. -/
  answers : ∀ homes (setter : Setter) c, lastOf setter (successes file calls) = some c →
    ((setter.asked homes c.value).answers = true ↔
      ¬(setter = .snapshotPath ∧ NoHome homes c.value.plainOrEmpty))
  /-- The level of logging has no setter. -/
  level : (ofFile (fileAfter file calls)).logLevel = (ofFile file).logLevel
  /-- A key for which no call has succeeded keeps its value. -/
  untouched : ∀ key, (∀ c ∈ successes file calls, c.setter.key ≠ key) →
    (ofFile (fileAfter file calls)).get? key = (ofFile file).get? key
  /-- When a call has succeeded there is a file exactly if there is a key. -/
  exists_iff : successes file calls ≠ [] →
    (fileAfter file calls ≠ .absent ↔ ∃ key v, (ofFile (fileAfter file calls)).get? key = some v)

theorem setter_key_ne_levelKey (setter : Setter) : setter.key ≠ levelKey := by
  cases setter <;> decide

/-- **Settings are a record**, over any run of calls from no file or from one that holds a map:
    refused calls leave the file alone, each getter follows the last success of its own setter,
    other keys keep their values, and there is a file exactly if there is a key. -/
theorem calls_record {file : StoredFile} {calls : List Call} (hfile : Sound file)
    (hcalls : ∀ c ∈ calls, c.Durable) : Record file calls := by
  have hwrites := writes_of_calls file calls
  have hdone : ∀ c ∈ successes file calls, c.Durable :=
    fun c hc => hcalls c (successes_subset file calls hc)
  refine ⟨?_, hwrites.reading hfile hdone, ?_, ?_, ?_, hwrites.exists_iff hfile hdone⟩
  · intro before c after e _ herror
    rw [fileAfter, List.foldl_append]
    exact Call.run_error herror
  · intro homes setter c hlast
    obtain ⟨hmem, rfl⟩ := mem_of_lastOf hlast
    obtain ⟨kept, hkept⟩ := hwrites.kept hmem
    exact answers_asked_iff hkept
  · have hlevel := hwrites.get?_of_untouched hfile hdone fun c _ => setter_key_ne_levelKey c.setter
    unfold logLevel
    rw [hlevel]
  · intro key hkey
    exact hwrites.get?_of_untouched hfile hdone hkey

/-- Settings with a key that none of the setters is for, and a level of logging. -/
def coloured : StoredFile :=
  .holding (.map [("colour".toList, .integer 5), (levelKey, .text "debug".toList)])

/-- An interval that is set and one that is refused, a path with blanks around it, and a toggle
    that is put on and off again. -/
def mixedCalls : List Call :=
  [⟨.reviewInterval, .integer 14⟩, ⟨.hideNonActionable, .truth true⟩,
    ⟨.snapshotPath, .text " ~/tasks.yaml ".toList⟩, ⟨.reviewInterval, .integer (-1)⟩,
    ⟨.hideNonActionable, .truth false⟩]

theorem calls_record_mixed :
    Sound coloured ∧ (∀ c ∈ mixedCalls, c.Durable) ∧ Record coloured mixedCalls := by
  have hfile : Sound coloured := by
    refine .inr ⟨_, rfl, Datum.durable_map_iff.mpr ?_⟩
    intro e he
    simp only [List.mem_cons, List.not_mem_nil, or_false] at he
    rcases he with rfl | rfl
    · exact ⟨Text.stored_of_notMem (by decide), Datum.durable_integer 5⟩
    · exact ⟨Text.stored_of_notMem (by decide),
        Datum.durable_text (Text.stored_of_notMem (by decide))⟩
  have hcalls : ∀ c ∈ mixedCalls, c.Durable := by
    intro c hc t hsetter hvalue
    simp only [mixedCalls, List.mem_cons, List.not_mem_nil, or_false] at hc
    rcases hc with rfl | rfl | rfl | rfl | rfl
    case inr.inr.inl =>
      obtain rfl := Datum.text.inj hvalue
      exact Text.stored_of_notMem (by decide +kernel)
    all_goals cases hsetter
  exact ⟨hfile, hcalls, calls_record hfile hcalls⟩

end Settings

end Agenda
