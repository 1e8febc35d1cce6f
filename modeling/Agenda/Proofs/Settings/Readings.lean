import Mathlib.Data.Char
import Agenda.Settings
import Agenda.Text.CaseLemmas

/-! # What settings are read as

    A getter gives the value of its key where that is acceptable, and the default where it is
    not or where there is none (`Reads`).  For the level of logging only texts are acceptable:
    whatever else a document can hold is written with a character that no level has
    (`notLevel_of_mark`).  Two values are neither accepted nor passed over, and on these the
    getters break off: an infinite number as the review interval, and a level of logging that
    cannot be written, for there is an integer in it that is too long (`readings_legal_iff`).

    The files are those whose maps have texts for keys; no getter looks at another key. -/

namespace Agenda.Text

/-! ## Section 1: Characters that stay -/

section stay
variable {c : Char} {t : Text}

theorem mem_dropWhile {p : Char → Bool} (hc : c ∈ t) (hp : p c = false) : c ∈ t.dropWhile p := by
  rw [← List.takeWhile_append_dropWhile (p := p) (l := t), List.mem_append] at hc
  rcases hc with hc | hc
  · rw [List.all_eq_true.mp List.all_takeWhile c hc] at hp
    cases hp
  · exact hc

theorem mem_trim (hc : c ∈ t) (hblank : isBlank c = false) : c ∈ trim t :=
  List.mem_reverse.mpr
    (mem_dropWhile (List.mem_reverse.mpr (mem_dropWhile hc hblank)) hblank)

theorem mem_upper (hc : c ∈ t) (hupper : upperChar c = [c]) : c ∈ upper t :=
  List.mem_flatMap.mpr ⟨c, hc, by rw [hupper]; exact List.mem_singleton_self c⟩

end stay

end Agenda.Text

namespace Agenda.Settings

/-! ## Section 2: Values that are no level -/

/-- A character that stays when a text is trimmed and put into capitals, and is in no level. -/
def isMark (c : Char) : Bool :=
  !Text.isBlank c && decide (Text.upperChar c = [c]) && levels.all fun w => !w.contains c

section marks
variable {c : Char} {t u : Text}

/-- **A text with a mark in it is no level.** -/
theorem notLevel_of_mark (hc : c ∈ t) (hmark : isMark c = true) :
    Text.upper (Text.trim t) ∉ levels := by
  simp only [isMark, Bool.and_eq_true, Bool.not_eq_true', decide_eq_true_eq] at hmark
  obtain ⟨⟨hblank, hupper⟩, hlevels⟩ := hmark
  intro hmem
  have hno := List.all_eq_true.mp hlevels _ hmem
  have hin : c ∈ Text.upper (Text.trim t) := Text.mem_upper (Text.mem_trim hc hblank) hupper
  simp [hin] at hno

theorem marks_isMark : (".+-[\x7b".toList.all isMark) = true := by decide +kernel

theorem digits_isMark : ((List.range' 48 10).all fun n => isMark (Char.ofNat n)) = true := by
  decide +kernel

theorem isMark_of_isDigit (h : c.isDigit = true) : isMark c = true := by
  have hrange : c.toNat ∈ List.range' 48 10 := by
    obtain ⟨hlow, hhigh⟩ := Char.isDigit_iff_toNat.mp h
    have hzero : '0'.toNat = 48 := rfl
    have hnine : '9'.toNat = 57 := rfl
    rw [List.mem_range'_1]
    omega
  have hmark := List.all_eq_true.mp digits_isMark _ hrange
  rwa [Char.ofNat_toNat] at hmark

/-- A text that has a mark in it. -/
def HasMark (t : Text) : Prop := ∃ c ∈ t, isMark c = true

theorem HasMark.append_left (h : HasMark t) (u : Text) : HasMark (u ++ t) := by
  obtain ⟨c, hc, hmark⟩ := h
  exact ⟨c, List.mem_append_right u hc, hmark⟩

theorem HasMark.append_right (h : HasMark t) (u : Text) : HasMark (t ++ u) := by
  obtain ⟨c, hc, hmark⟩ := h
  exact ⟨c, List.mem_append_left u hc, hmark⟩

theorem hasMark_of_mem (hc : c ∈ ".+-[\x7b".toList) (ht : c ∈ t) : HasMark t :=
  ⟨c, ht, List.all_eq_true.mp marks_isMark c hc⟩

theorem hasMark_writeNat (n : Nat) : HasMark (Integer.writeNat n) := by
  obtain ⟨c, rest, hn⟩ := List.exists_cons_of_ne_nil (Nat.toDigits_ne_nil (n := n) (b := 10))
  have hc : c ∈ Nat.toDigits 10 n := hn ▸ List.mem_cons_self
  exact ⟨c, hc, isMark_of_isDigit (Nat.isDigit_of_mem_toDigits (by decide) (by decide) hc)⟩

theorem hasMark_writePadded (width n : Nat) : HasMark (Integer.writePadded width n) :=
  (hasMark_writeNat n).append_left _

theorem hasMark_write_integer (n : Int) : HasMark (Integer.write n) := by
  cases n with
  | ofNat n => exact hasMark_writeNat n
  | negSucc n => exact (hasMark_writeNat (n + 1)).append_left ['-']

/-- A finite number is written with a point or with the sign of an exponent. -/
theorem hasMark_write_finite (negative : Bool) (m : Nat) (e : Int) :
    HasMark (Binary64.write (.finite negative m e)) := by
  unfold Binary64.write
  apply HasMark.append_left
  dsimp only
  split_ifs with hzero hpositional hpoint
  · exact hasMark_of_mem (c := '.') (by decide) (by decide)
  · exact hasMark_of_mem (c := '.') (by decide) hpoint
  · exact hasMark_of_mem (c := '.') (by decide) (List.mem_append_right _ (by decide))
  · unfold Binary64.scientific
    exact (hasMark_writePadded _ _).append_left _

theorem hasMark_write_day (d : Day) : HasMark d.write :=
  (hasMark_writePadded _ _).append_left _

theorem hasMark_write_moment (separator : Char) (m : Moment) : HasMark (m.write separator) := by
  unfold Moment.write
  simp only [List.append_assoc]
  exact (hasMark_write_day m.day).append_right _

end marks

/-- **Only texts spell a level.** -/
theorem exists_text_of_level {v : Datum}
    (h : Text.upper (Text.trim v.plainOrEmpty) ∈ levels) : ∃ t, v = .text t := by
  have hempty : Text.upper (Text.trim []) ∉ levels := by decide +kernel
  unfold Datum.plainOrEmpty at h
  split_ifs at h with hv
  · exact absurd h hempty
  · have hno : ∀ {t : Text}, HasMark t → Text.upper (Text.trim t) ∉ levels := by
      rintro t ⟨c, hc, hmark⟩
      exact notLevel_of_mark hc hmark
    -- `True`, `nan`, `inf` and `-inf` are looked up among the levels; all else has a mark
    cases v with
    | null => exact absurd rfl hv
    | truth b =>
      cases b with
      | false => exact absurd rfl hv
      | true => exact absurd h (by decide +kernel)
    | integer n => exact absurd h (hno (hasMark_write_integer n))
    | number x =>
      cases x with
      | finite negative m e => exact absurd h (hno (hasMark_write_finite negative m e))
      | infinite negative => cases negative <;> exact absurd h (by decide +kernel)
      | nan => exact absurd h (by decide +kernel)
    | text t => exact ⟨t, rfl⟩
    | day d => exact absurd h (hno (hasMark_write_day d))
    | moment m => exact absurd h (hno (hasMark_write_moment ' ' m))
    | list items =>
      have hbracket : '[' ∈ Datum.plain (.list items) := List.mem_cons_self
      exact absurd h (hno (hasMark_of_mem (by decide) hbracket))
    | map entries =>
      have hbrace : '\x7b' ∈ Datum.plain (.map entries) := List.mem_cons_self
      exact absurd h (hno (hasMark_of_mem (by decide) hbrace))

/-! ## Section 3: Getters -/

/-- What is read where a key has a value or none: what the value is accepted as, and otherwise the
    default. -/
inductive Reads {α : Type} (accepts : Datum → α → Prop) (default : α) :
    Option Datum → α → Prop where
  | accepted {v : Datum} {a : α} (h : accepts v a) : Reads accepts default (some v) a
  | refused {v : Datum} (h : ∀ a, ¬accepts v a) : Reads accepts default (some v) default
  | missing : Reads accepts default none default

/-- Review intervals: values that stand for a positive integer. -/
def AsInterval (v : Datum) (n : Int) : Prop := v.toInteger = .ok n ∧ 1 ≤ n

/-- Toggles: truth values. -/
def AsToggle (v : Datum) (b : Bool) : Prop := v = .truth b

/-- Levels of logging: texts that are a level in capitals, with blanks around it or none. -/
def AsLevel (v : Datum) (w : Text) : Prop :=
  ∃ t, v = .text t ∧ w = Text.upper (Text.trim t) ∧ w ∈ levels

section getters
variable {s : Settings} {v : Datum}

theorem reads_toggle (s : Settings) (key : Text) :
    Reads AsToggle false (s.get? key) (s.toggle key) := by
  unfold toggle
  cases s.get? key with
  | none => exact .missing
  | some v =>
    cases v with
    | truth b => exact .accepted rfl
    | _ => exact .refused nofun

theorem toInteger_eq_infinite_iff :
    v.toInteger = .error .infinite ↔ ∃ negative, v = .number (.infinite negative) := by
  constructor
  · intro h
    cases v with
    | number x =>
      cases x with
      | infinite negative => exact ⟨negative, rfl⟩
      | finite => cases h
      | nan => cases h
    | text t =>
      replace h : Datum.ofNumeral t = .error .infinite := h
      unfold Datum.ofNumeral at h
      split at h
      · cases h
      · split at h <;> cases h
    | _ => cases h
  · rintro ⟨negative, rfl⟩
    rfl

/-- **The review interval is legal but for an infinite number.** -/
theorem reviewInterval_legal_iff :
    (∃ n, s.reviewInterval = .ok n ∧ 1 ≤ n ∧
      Reads AsInterval Review.defaultInterval (s.get? intervalKey) n) ↔
      ∀ negative, s.get? intervalKey ≠ some (.number (.infinite negative)) := by
  unfold reviewInterval
  cases s.get? intervalKey with
  | none =>
    refine iff_of_true ?_ nofun
    exact ⟨Review.defaultInterval, rfl, by decide, .missing⟩
  | some v =>
    rw [Option.getD_some]
    cases hv : v.toInteger with
    | ok n =>
      have hfinite : ∀ negative, v ≠ .number (.infinite negative) := by
        rintro negative rfl
        cases hv
      refine iff_of_true ?_ fun negative h => hfinite negative (Option.some.inj h)
      dsimp only
      -- an integer below one is refused like a value that stands for none
      by_cases hn : n < 1
      · refine ⟨Review.defaultInterval, by rw [if_pos hn], by decide, .refused ?_⟩
        rintro m ⟨hm, hpos⟩
        obtain rfl := Except.ok.inj (hv.symm.trans hm)
        omega
      · exact ⟨n, by rw [if_neg hn], by omega, .accepted ⟨hv, by omega⟩⟩
    | error e =>
      have hno : ∀ n, ¬AsInterval v n := by
        rintro n ⟨hn, -⟩
        rw [hv] at hn
        cases hn
      by_cases he : e = .infinite
      · -- nothing answers for this fault, so both sides fail
        subst he
        obtain ⟨negative, rfl⟩ := toInteger_eq_infinite_iff.mp hv
        refine iff_of_false ?_ fun h => h negative rfl
        rintro ⟨n, hn, -⟩
        cases hn
      · have hfinite : ∀ negative, some v ≠ some (.number (.infinite negative)) := by
          intro negative h
          obtain rfl := Option.some.inj h
          exact he (Except.error.inj hv).symm
        refine iff_of_true ⟨Review.defaultInterval, ?_, by decide, .refused hno⟩ hfinite
        cases e with
        | infinite => exact absurd rfl he
        | _ => rfl

theorem defaultLevel_mem : defaultLevel ∈ levels := by decide

/-- **The level of logging is legal but for values that cannot be written.** -/
theorem logLevel_legal_iff :
    (∃ w, s.logLevel = .ok w ∧ w ∈ levels ∧ Reads AsLevel defaultLevel (s.get? levelKey) w) ↔
      ∀ v, s.get? levelKey = some v → v.hasLongInteger = false := by
  unfold logLevel
  cases s.get? levelKey with
  | none =>
    refine iff_of_true ⟨defaultLevel, ?_, defaultLevel_mem, .missing⟩ nofun
    decide +kernel
  | some v =>
    rw [Option.getD_some, Datum.toText]
    -- only an integer that is too long to be written out is refused
    cases hlong : v.hasLongInteger with
    | true =>
      refine iff_of_false ?_ fun h => by simpa [hlong] using h v rfl
      rintro ⟨w, hw, -⟩
      cases hw
    | false =>
      refine iff_of_true ?_ ?_
      · rw [if_neg Bool.false_ne_true]
        by_cases hlevel : Text.upper (Text.trim v.plainOrEmpty) ∈ levels
        · refine ⟨Text.upper (Text.trim v.plainOrEmpty), ?_, hlevel, ?_⟩
          · simp [Except.map, hlevel]
          · obtain ⟨t, rfl⟩ := exists_text_of_level hlevel
            rw [Datum.plainOrEmpty_text] at hlevel ⊢
            exact .accepted ⟨t, rfl, rfl, hlevel⟩
        · refine ⟨defaultLevel, ?_, defaultLevel_mem, .refused ?_⟩
          · simp [Except.map, hlevel]
          · rintro w ⟨t, rfl, rfl, hw⟩
            rw [Datum.plainOrEmpty_text] at hlevel
            exact hlevel hw
      · intro v' hv'
        obtain rfl := Option.some.inj hv'
        exact hlong

end getters

/-! ## Section 4: Legal settings -/

/-- Settings are read as they should be: every getter answers, with a legal value, which is the
    one that is set where that is acceptable and the default elsewhere. -/
structure Legal (s : Settings) : Prop where
  interval : ∃ n, s.reviewInterval = .ok n ∧ 1 ≤ n ∧
    Reads AsInterval Review.defaultInterval (s.get? intervalKey) n
  hide  : Reads AsToggle false (s.get? hideKey) s.hideNonActionable
  shown : Reads AsToggle false (s.get? showKey) s.showCompleted
  level : ∃ w, s.logLevel = .ok w ∧ w ∈ levels ∧
    Reads AsLevel defaultLevel (s.get? levelKey) w

/-- **What a file of settings is read as**, whatever it holds.  One that holds no map has no
    keys.  The settings are read as they should be exactly if the review interval is no infinite
    number and the level of logging can be written. -/
theorem readings_legal_iff (file : StoredFile) :
    ((∀ entries, file ≠ .holding (.map entries)) → ∀ key, (ofFile file).get? key = none) ∧
      (Legal (ofFile file) ↔
        (∀ negative, (ofFile file).get? intervalKey ≠ some (.number (.infinite negative))) ∧
          ∀ v, (ofFile file).get? levelKey = some v → v.hasLongInteger = false) := by
  constructor
  · intro hfile key
    unfold ofFile
    split
    · exact absurd rfl (hfile _)
    · rfl
  · rw [← reviewInterval_legal_iff, ← logLevel_legal_iff]
    constructor
    · intro h
      exact ⟨h.interval, h.level⟩
    · intro h
      exact ⟨h.1, reads_toggle _ hideKey, reads_toggle _ showKey, h.2⟩

/-- An infinite review interval is read as nothing. -/
theorem not_legal_endless :
    ¬Legal (ofFile (.holding (.map [(intervalKey, .number (.infinite false))]))) := by
  intro h
  obtain ⟨n, hn, -⟩ := h.interval
  cases hn

end Agenda.Settings
