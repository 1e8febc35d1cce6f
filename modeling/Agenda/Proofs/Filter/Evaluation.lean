import Agenda.Filter.Meaning
import Mathlib.Logic.Relation

/-! # Evaluation with two stacks

    Evaluation takes turns with a stack of work and a stack of results.  Whatever stands on the
    two stacks, the work stack has an outcome: the results as they will be when no work is left
    (`outcome`).  No turn changes the outcome (`outcome_eq_of_turn`), and where there is one a
    turn can be taken as long as there is work.  A single expression has its meaning for an
    outcome, so evaluation never lacks an operand and ends with that one result
    (`evaluate_by_structure`). -/

namespace Agenda.Filter

variable {s : Subject} {p : Pending} {work pushed : List Pending} {results results' : List Bool}

/-! ## Section 1: What the work comes to -/

/-- What an expression on the work stack does to the results in the end: a new one adds its
    value, an expanded one takes off what its operands added. -/
def Pending.effect (s : Subject) (p : Pending) (results : List Bool) : Option (List Bool) :=
  if p.expanded then (p.turn s results).map Prod.snd else some (p.expr.holds s :: results)

/-- The results after all the work, from the top of the work stack down; `none` if an operand
    will be missing. -/
def outcome (s : Subject) (work : List Pending) (results : List Bool) : Option (List Bool) :=
  work.foldlM (fun results p => p.effect s results) results

@[simp] theorem outcome_nil : outcome s [] results = some results := rfl

@[simp] theorem outcome_cons :
    outcome s (p :: work) results = (p.effect s results).bind (outcome s work) := rfl

theorem outcome_append :
    outcome s (pushed ++ work) results = (outcome s pushed results).bind (outcome s work) := by
  unfold outcome
  rw [List.foldlM_append]
  rfl

/-! ## Section 2: One turn -/

/-- What a turn puts on the work stack comes to what the expression it took off comes to. -/
theorem Pending.outcome_of_turn (h : p.turn s results = some (pushed, results')) :
    outcome s pushed results' = p.effect s results := by
  obtain ⟨e, expanded⟩ := p
  cases expanded with
  | true =>
    -- an expanded expression, or a condition, leaves nothing behind on the work stack
    have hnil : pushed = [] := by
      unfold turn at h
      split at h <;> simp_all
    rw [hnil, outcome_nil]
    show some results' = (turn s ⟨e, true⟩ results).map Prod.snd
    rw [h]
    rfl
  | false =>
    -- a new one is put back under its operands
    cases e with
    | cond _ | not _ | and _ _ | or _ _ =>
      obtain ⟨rfl, rfl⟩ := Prod.mk.inj (Option.some.inj h)
      rfl

/-- Only an expanded expression can lack an operand. -/
theorem Pending.effect_of_turn_eq_none (h : p.turn s results = none) :
    p.effect s results = none := by
  obtain ⟨e, expanded⟩ := p
  cases expanded with
  | true =>
    show (turn s ⟨e, true⟩ results).map Prod.snd = none
    rw [h]
    rfl
  | false => cases e <;> cases h

/-- The stacks of an evaluation: the work and the results. -/
abbrev Stacks := List Pending × List Bool

/-- One turn of an evaluation. -/
inductive Turn (s : Subject) : Stacks → Stacks → Prop
  | take {p : Pending} {work pushed : List Pending} {results results' : List Bool}
      (h : p.turn s results = some (pushed, results')) :
      Turn s (p :: work, results) (pushed ++ work, results')

variable {m m' : Stacks}

/-- A turn leaves the outcome as it is. -/
theorem outcome_eq_of_turn (h : Turn s m m') : outcome s m'.1 m'.2 = outcome s m.1 m.2 := by
  obtain ⟨h⟩ := h
  rw [outcome_append, Pending.outcome_of_turn h, outcome_cons]

/-- Where there is an outcome, no operand is missing: a turn can be taken, or no work is left
    and the results are the outcome. -/
theorem eq_or_exists_turn {r : List Bool} (h : outcome s m.1 m.2 = some r) :
    m = ([], r) ∨ ∃ m', Turn s m m' := by
  obtain ⟨work, results⟩ := m
  cases work with
  | nil =>
    obtain rfl := Option.some.inj h
    exact Or.inl rfl
  | cons p work =>
    right
    cases hturn : p.turn s results with
    | none =>
      have hnone : outcome s (p :: work) results = none := by
        rw [outcome_cons, Pending.effect_of_turn_eq_none hturn]
        rfl
      rw [hnone] at h
      cases h
    | some next => exact ⟨_, Turn.take hturn⟩

/-- A turn leaves less to do. -/
theorem turnsLeft_lt_of_turn (h : Turn s m m') : turnsLeft m'.1 < turnsLeft m.1 := by
  obtain ⟨h⟩ := h
  have hturns := Pending.turns_of_turn h
  rw [turnsLeft_append]
  show _ < Pending.turns _ + turnsLeft _
  omega

/-- Turns cannot go on for ever. -/
theorem turn_wellFounded (s : Subject) : WellFounded fun m' m => Turn s m m' :=
  Subrelation.wf (fun h => turnsLeft_lt_of_turn h) (measure fun m : Stacks => turnsLeft m.1).wf

/-! ## Section 3: Whole runs -/

/-- No number of turns changes the outcome. -/
theorem outcome_eq_of_turns (h : Relation.ReflTransGen (Turn s) m m') :
    outcome s m'.1 m'.2 = outcome s m.1 m.2 := by
  induction h with
  | refl => rfl
  | tail _ hturn ih => rw [outcome_eq_of_turn hturn, ih]

/-- To work until nothing is left gives the outcome. -/
theorem runWork_eq_outcome (s : Subject) (work : List Pending) (results : List Bool) :
    runWork s work results = outcome s work results := by
  fun_induction runWork s work results with
  | case1 results => rfl
  | case2 results p work hturn =>
    rw [outcome_cons, Pending.effect_of_turn_eq_none hturn]
    rfl
  | case3 results p work pushed results' hturn ih =>
    rw [ih]
    exact outcome_eq_of_turn (Turn.take hturn)

/-- Its results are reached by turns. -/
theorem turns_of_runWork {r : List Bool} (h : runWork s work results = some r) :
    Relation.ReflTransGen (Turn s) (work, results) ([], r) := by
  fun_induction runWork s work results with
  | case1 results =>
    obtain rfl := Option.some.inj h
    exact Relation.ReflTransGen.refl
  | case2 results p work hturn => cases h
  | case3 results p work pushed results' hturn ih =>
    exact Relation.ReflTransGen.head (Turn.take hturn) (ih h)

/-- A single expression comes to its meaning. -/
theorem runWork_single (e : Expr) (s : Subject) :
    runWork s [{ expr := e }] [] = some [e.holds s] := by
  rw [runWork_eq_outcome]
  rfl

theorem evaluate_eq_holds (e : Expr) (s : Subject) : e.evaluate s = e.holds s := by
  unfold Expr.evaluate
  rw [runWork_single]

theorem meets_some (e : Expr) (s : Subject) : s.meets (some e) = e.holds s :=
  evaluate_eq_holds e s

/-- **Evaluation with stacks gives the meaning by structure**, for expressions of any size and
    shape.  It ends, no turn that it comes to lacks an operand, and there is one result in the
    end, the meaning.  A missing expression and the empty query are met by every task. -/
theorem evaluate_by_structure (s : Subject) :
    (WellFounded fun m' m => Turn s m m') ∧
    (∀ e : Expr,
      (∀ m, Relation.ReflTransGen (Turn s) ([{ expr := e }], []) m →
        m = ([], [e.holds s]) ∨ ∃ m', Turn s m m') ∧
      Relation.ReflTransGen (Turn s) ([{ expr := e }], []) ([], [e.holds s]) ∧
      runWork s [{ expr := e }] [] = some [e.holds s] ∧
      s.meets (some e) = e.holds s) ∧
    s.meets none = true ∧
    ∀ q : Query, q.matches s = (q.expression.map (Expr.holds s)).getD true := by
  refine ⟨turn_wellFounded s, ?_, rfl, ?_⟩
  · intro e
    have hrun := runWork_single e s
    refine ⟨?_, turns_of_runWork hrun, hrun, meets_some e s⟩
    intro m hm
    -- turns do not change the outcome, so whatever is come to can be finished
    have houtcome : outcome s m.1 m.2 = some [e.holds s] := outcome_eq_of_turns hm
    exact eq_or_exists_turn houtcome
  · intro q
    unfold Query.matches
    cases q.expression with
    | none => rfl
    | some e => exact meets_some e s

end Agenda.Filter
