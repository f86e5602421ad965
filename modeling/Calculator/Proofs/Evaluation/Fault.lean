/-
This file proves that the first fault of a tree is its error, wherever the fault stands.
-/

import Calculator.Evaluation
import Calculator.Proofs.Expr.Subtrees

namespace Calculator.Expr

section Faults

variable [Elementary] {answer : Float} {unit : AngleUnit}

/-- The operands of the tree have values, but its own operation refuses them. An infinite number has
no operands, and it is refused by itself. -/
inductive Faulty (answer : Float) (unit : AngleUnit) : Expr → MathError → Prop where
  | number {x : Float} : x.isInf → Faulty answer unit (.number x) .overflow
  | binary {op : Operator} {left right : Expr} {x y : Float} {cause : MathError} :
      left.compute answer unit = .ok x → right.compute answer unit = .ok y →
      op.apply x y = .error cause → Faulty answer unit (.binary op left right) cause
  | call {f : NamedFunction} {argument : Expr} {x : Float} {cause : MathError} :
      argument.compute answer unit = .ok x → f.apply unit x = .error cause →
      Faulty answer unit (.call f argument) cause
  | factorial {operand : Expr} {x : Float} {cause : MathError} :
      operand.compute answer unit = .ok x → Calculator.factorial x = .error cause →
      Faulty answer unit (.factorial operand) cause

/-- None of the trees is faulty. -/
def Sound (answer : Float) (unit : AngleUnit) (trees : List Expr) : Prop :=
  ∀ tree ∈ trees, ∀ cause, ¬tree.Faulty answer unit cause

/-- The first faulty one of the trees has this cause. -/
def FirstFault (answer : Float) (unit : AngleUnit) (trees : List Expr) (cause : MathError) : Prop :=
  ∃ before tree after, trees = before ++ tree :: after ∧ Sound answer unit before ∧
    tree.Faulty answer unit cause

/-- The result tells the first fault of the trees. -/
def Explained (answer : Float) (unit : AngleUnit) (trees : List Expr) :
    Except MathError Float → Prop
  | .ok _ => Sound answer unit trees
  | .error cause => FirstFault answer unit trees cause

/-- A faulty tree has no value. -/
theorem Faulty.compute {tree : Expr} {cause : MathError} (faulty : tree.Faulty answer unit cause) :
    tree.compute answer unit = .error cause := by
  cases faulty with
  | number infinite => rw [Expr.compute, if_pos infinite]
  | binary first second refused => simp only [Expr.compute, first, second, refused]
  | call inner refused => simp only [Expr.compute, inner, refused]
  | factorial inner refused => simp only [Expr.compute, inner, refused]

section Lists

variable {first second : List Expr} {cause other : MathError}

theorem Sound.nothing : Sound answer unit [] :=
  fun _ none => (List.not_mem_nil none).elim

theorem Sound.append (sound : Sound answer unit first) (later : Sound answer unit second) :
    Sound answer unit (first ++ second) := by
  intro tree member
  rcases List.mem_append.mp member with early | late
  · exact sound tree early
  · exact later tree late

theorem FirstFault.append (fault : FirstFault answer unit first cause) (second : List Expr) :
    FirstFault answer unit (first ++ second) cause := by
  obtain ⟨before, tree, after, rfl, sound, faulty⟩ := fault
  exact ⟨before, tree, after ++ second, by simp, sound, faulty⟩

theorem FirstFault.behind (sound : Sound answer unit first)
    (fault : FirstFault answer unit second cause) :
    FirstFault answer unit (first ++ second) cause := by
  obtain ⟨before, tree, after, rfl, soundBefore, faulty⟩ := fault
  exact ⟨first ++ before, tree, after, by simp, sound.append soundBefore, faulty⟩

theorem FirstFault.notSound (fault : FirstFault answer unit first cause) :
    ¬Sound answer unit first := by
  obtain ⟨before, tree, after, rfl, _, faulty⟩ := fault
  exact fun sound => sound tree (by simp) cause faulty

/-- Of two first faults neither stands before the other. -/
theorem FirstFault.unique (fault : FirstFault answer unit first cause)
    (faultOther : FirstFault answer unit first other) : cause = other := by
  obtain ⟨before, tree, after, rfl, sound, faulty⟩ := fault
  obtain ⟨beforeOther, treeOther, afterOther, split, soundOther, faultyOther⟩ := faultOther
  have same : tree = treeOther := by
    rcases List.append_eq_append_iff.mp split with ⟨between, rfl, rest⟩ | ⟨between, rfl, rest⟩
    · cases between with
      | nil => exact (List.cons.inj rest).1
      | cons head tail =>
          obtain ⟨rfl, _⟩ := List.cons.inj rest
          exact absurd faulty (soundOther tree (by simp) cause)
    · cases between with
      | nil => exact (List.cons.inj rest).1.symm
      | cons head tail =>
          obtain ⟨rfl, _⟩ := List.cons.inj rest
          exact absurd faultyOther (sound treeOther (by simp) other)
  subst same
  have computed := faulty.compute
  rw [faultyOther.compute] at computed
  cases computed
  rfl

/-- Trees that are not sound have a first fault. -/
theorem soundOrFault (answer : Float) (unit : AngleUnit) (trees : List Expr) :
    Sound answer unit trees ∨ ∃ cause, FirstFault answer unit trees cause := by
  induction trees with
  | nil => exact .inl .nothing
  | cons tree rest inductionHypothesis =>
      by_cases faulty : ∃ cause, tree.Faulty answer unit cause
      · obtain ⟨cause, own⟩ := faulty
        exact .inr ⟨cause, [], tree, rest, rfl, .nothing, own⟩
      · have alone : Sound answer unit [tree] := fun only member cause own =>
          faulty ⟨cause, List.mem_singleton.mp member ▸ own⟩
        rcases inductionHypothesis with sound | ⟨cause, fault⟩
        · exact .inl (alone.append sound)
        · exact .inr ⟨cause, fault.behind alone⟩

/-- The second result is asked for only if the first one is a value. -/
theorem Explained.step {result : Except MathError Float} {next : Float → Except MathError Float} :
    Explained answer unit first result →
    (∀ x, result = .ok x → Explained answer unit second (next x)) →
    Explained answer unit (first ++ second) (match result with
      | .ok x => next x
      | .error cause => .error cause) := by
  intro explained later
  cases result with
  | error cause => exact FirstFault.append explained second
  | ok x =>
      have rest := later x rfl
      simp only
      cases ended : next x with
      | ok y =>
          rw [ended] at rest
          exact Sound.append explained rest
      | error cause =>
          rw [ended] at rest
          exact FirstFault.behind explained rest

/-- A tree whose operands have values is explained by its own operation. -/
theorem explainedAlone {tree : Expr} {result : Except MathError Float}
    (own : ∀ cause, tree.Faulty answer unit cause ↔ result = .error cause) :
    Explained answer unit [tree] result := by
  cases result with
  | ok x =>
      intro only member cause faulty
      rw [List.mem_singleton.mp member, own] at faulty
      cases faulty
  | error cause => exact ⟨[], tree, [], rfl, .nothing, (own cause).mpr rfl⟩

end Lists

/-- A tree without an operation of its own has the result of its operand. -/
theorem explainedKept {tree : Expr} {x : Float}
    (kept : ∀ cause, ¬tree.Faulty answer unit cause) : Explained answer unit [tree] (.ok x) :=
  explainedAlone fun cause => ⟨fun faulty => (kept cause faulty).elim, fun none => nomatch none⟩

/-- Every result is explained. The induction follows the tree, and each operand stands before its
operation. -/
theorem computeExplained (expr : Expr) (answer : Float) (unit : AngleUnit) :
    Explained answer unit expr.subtrees (expr.compute answer unit) := by
  induction expr with
  | number x =>
      refine explainedAlone fun cause => ?_
      rw [compute]
      constructor
      · intro faulty
        cases faulty with
        | number infinite => rw [if_pos infinite]
      · split
        · next infinite =>
          rintro ⟨⟩
          exact .number infinite
        · exact fun none => nomatch none
  | answer => exact explainedKept nofun
  | negate operand inductionHypothesis =>
      exact Explained.step inductionHypothesis fun x _ => explainedKept nofun
  | group inside inductionHypothesis =>
      have kept (x : Float) : Explained answer unit [.group inside] (.ok x) := explainedKept nofun
      have stepped := Explained.step inductionHypothesis fun x _ => kept x
      rw [subtrees, compute]
      cases computed : inside.compute answer unit <;> rwa [computed] at stepped
  | binary op left right leftHypothesis rightHypothesis =>
      rw [subtrees, List.append_assoc]
      refine Explained.step leftHypothesis fun x first => Explained.step rightHypothesis
        fun y second => explainedAlone fun cause => ⟨fun faulty => ?_, .binary first second⟩
      cases faulty with
      | binary firstOther secondOther refused =>
          rw [first] at firstOther
          rw [second] at secondOther
          cases firstOther
          cases secondOther
          exact refused
  | call f argument inductionHypothesis =>
      refine Explained.step inductionHypothesis fun x inner =>
        explainedAlone fun cause => ⟨fun faulty => ?_, .call inner⟩
      cases faulty with
      | call other refused =>
          rw [inner] at other
          cases other
          exact refused
  | factorial operand inductionHypothesis =>
      refine Explained.step inductionHypothesis fun x inner =>
        explainedAlone fun cause => ⟨fun faulty => ?_, .factorial inner⟩
      cases faulty with
      | factorial other refused =>
          rw [inner] at other
          cases other
          exact refused

/-- The error of a tree is the cause of its first fault. -/
theorem computeErrorIff (expr : Expr) (answer : Float) (unit : AngleUnit) (cause : MathError) :
    expr.compute answer unit = .error cause ↔ FirstFault answer unit expr.subtrees cause := by
  have explained := computeExplained expr answer unit
  constructor
  · intro computed
    rwa [computed] at explained
  · intro fault
    cases computed : expr.compute answer unit with
    | ok x =>
        rw [computed] at explained
        exact absurd explained fault.notSound
    | error other =>
        rw [computed] at explained
        rw [fault.unique explained]

/-- A tree has no value exactly if one of its subtrees is faulty, and its error is the cause of the
first faulty one. An infinite number is refused whatever stands around it, and only a fault before
it is reported in its place. -/
theorem firstFaultReported (expr : Expr) (answer : Float) (unit : AngleUnit) :
    ((∃ cause, expr.compute answer unit = .error cause) ↔
      ∃ tree ∈ expr.subtrees, ∃ cause, tree.Faulty answer unit cause) ∧
    (∀ cause, expr.compute answer unit = .error cause ↔
      FirstFault answer unit expr.subtrees cause) ∧
    ∀ before x after, expr.subtrees = before ++ .number x :: after → x.isInf →
      (Sound answer unit before ∧ expr.evaluate answer unit = .error .overflow) ∨
        ∃ cause, FirstFault answer unit before cause ∧
          expr.evaluate answer unit = .error cause := by
  have reported (cause : MathError) := computeErrorIff expr answer unit cause
  have refused {cause : MathError} (fault : FirstFault answer unit expr.subtrees cause) :
      expr.evaluate answer unit = .error cause := by
    rw [evaluate, (reported cause).mpr fault]
  refine ⟨⟨?_, ?_⟩, reported, ?_⟩
  · rintro ⟨cause, computed⟩
    obtain ⟨before, tree, after, split, _, faulty⟩ := (reported cause).mp computed
    exact ⟨tree, by simp [split], cause, faulty⟩
  · rintro ⟨tree, member, cause, faulty⟩
    rcases soundOrFault answer unit expr.subtrees with sound | ⟨first, fault⟩
    · exact absurd faulty (sound tree member cause)
    · exact ⟨first, (reported first).mpr fault⟩
  · intro before x after split infinite
    rcases soundOrFault answer unit before with sound | ⟨cause, fault⟩
    · exact .inl ⟨sound, refused ⟨before, _, after, split, sound, .number infinite⟩⟩
    · exact .inr ⟨cause, fault, refused (split ▸ fault.append _)⟩

end Faults

/-- The infinite base of a power is an overflow, although the exponent is zero. A division by zero
before it is reported in its place. -/
theorem firstFaultReportedPower :
    let power : Expr := .binary .pow (.number Binary64.infinity) (.number 0)
    let quotient : Expr := .binary .div (.number 1) (.number 0)
    let sum : Expr := .binary .add quotient power
    power.subtrees = [] ++ .number Binary64.infinity :: [.number 0, power] ∧
      Binary64.infinity.isInf ∧ power.evaluate 0 .degree = .error .overflow ∧
      FirstFault 0 .degree sum.subtrees .divisionByZero ∧
      sum.compute 0 .degree = .error .divisionByZero := by
  intro power quotient sum
  have infinite : Binary64.infinity.isInf := by decide
  have plain (x : Float) (finite : x.isInf = false) : Sound 0 .degree [.number x] := by
    intro tree member cause faulty
    rw [List.mem_singleton.mp member] at faulty
    cases faulty with
    | number other =>
        rw [finite] at other
        cases other
  have refused : quotient.Faulty 0 .degree .divisionByZero := .binary rfl rfl rfl
  have fault : FirstFault 0 .degree sum.subtrees .divisionByZero :=
    ⟨[.number 1, .number 0], quotient, power.subtrees ++ [sum], rfl,
      (plain 1 (by decide)).append (plain 0 (by decide)), refused⟩
  refine ⟨rfl, infinite, ?_, fault, ((firstFaultReported sum 0 .degree).2.1 _).mpr fault⟩
  rcases (firstFaultReported power 0 .degree).2.2 [] _ [.number 0, power] rfl infinite with
    ⟨_, evaluated⟩ | ⟨_, none, _⟩
  · exact evaluated
  · exact absurd .nothing none.notSound

end Calculator.Expr
