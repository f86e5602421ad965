/-
This file proves that the angle unit and the answer matter only to the texts that name them.
-/

import Calculator.Proofs.Grammar.Names
import Calculator.Proofs.Scanning.Analysis

namespace Calculator

/-- Only a function of an angle reads the unit. -/
theorem NamedFunction.applyCongr [Elementary] {f : NamedFunction} {unit other : AngleUnit}
    (same : ∀ g, f = .angle g → unit = other) (x : Float) : f.apply unit x = f.apply other x := by
  cases f with
  | angle g => rw [same g rfl]
  | log | ln | sqrt | abs => rfl

/-- An evaluation reads the answer and the unit only through the names in its tree. -/
theorem Expr.computeCongr [Elementary] {expr : Expr} {first second : Float} {unit other : AngleUnit}
    (answers : .answer ∈ expr.names → first = second)
    (units : ∀ f, .function (.angle f) ∈ expr.names → unit = other) :
    expr.compute first unit = expr.compute second other := by
  induction expr with
  | number x => rfl
  | answer => rw [compute, compute, answers (by simp [names])]
  | negate _ inductionHypothesis | factorial _ inductionHypothesis
  | group _ inductionHypothesis =>
      simp only [compute, inductionHypothesis answers units]
  | call f argument inductionHypothesis =>
      have inner := inductionHypothesis (fun named => answers (by simp [names, named]))
        fun g named => units g (by simp [names, named])
      have own (x : Float) : f.apply unit x = f.apply other x :=
        NamedFunction.applyCongr (fun g angle => units g (by simp [names, angle])) x
      simp only [compute, inner, own]
  | binary op left right leftHypothesis rightHypothesis =>
      have before := leftHypothesis (fun named => answers (by simp [names, named]))
        fun g named => units g (by simp [names, named])
      have after := rightHypothesis (fun named => answers (by simp [names, named]))
        fun g named => units g (by simp [names, named])
      simp only [compute, before, after]

/-- The token stands in the text. -/
def Mentions (text : String) (token : Token) : Prop :=
  ∃ tokens, Token.scan text = .ok tokens ∧ token ∈ tokens

/-- The text mentions every name in its tree. -/
theorem mentionsOfNames {text : String} {analysis : Analysis} {token : Token}
    (analysed : analyse text = .ok analysis) (named : token ∈ analysis.expr.names) :
    Mentions text token := by
  obtain ⟨tokens, scanned, read⟩ := scanOfAnalysis analysed
  obtain ⟨_, _, _, derives⟩ := Expr.derivesOfTokens read
  rw [derives.names, Token.namesWithProducts] at named
  obtain ⟨source, member, name⟩ := List.mem_filterMap.mp named
  exact ⟨tokens, scanned, Token.nameSelf name ▸ member⟩

/-- A calculation reads the answer and the unit only if its text mentions them. -/
theorem calculateCongr {text : String} {first second : Float} {unit other : AngleUnit}
    (answers : Mentions text .answer → first = second)
    (units : ∀ f, Mentions text (.function (.angle f)) → unit = other) (mode : DisplayMode) :
    calculateWithSteps text first unit mode = calculateWithSteps text second other mode := by
  unfold calculateWithSteps
  cases analysed : analyse text with
  | error cause => rfl
  | ok analysis =>
      have same : analysis.expr.compute first unit = analysis.expr.compute second other :=
        Expr.computeCongr (fun named => answers (mentionsOfNames analysed named))
          fun f named => units f (mentionsOfNames analysed named)
      simp only [Expr.evaluate, same]

/-- A text without the name of an angle function has one outcome in all units, and a text without
the name of the answer has one outcome for all answers. -/
theorem influenceMentioned (text : String) :
    ((∀ f, ¬Mentions text (.function (.angle f))) → ∀ answer unit other mode,
      calculateWithSteps text answer unit mode = calculateWithSteps text answer other mode) ∧
    (¬Mentions text .answer → ∀ first second unit mode,
      calculateWithSteps text first unit mode = calculateWithSteps text second unit mode) := by
  constructor
  · intro absent answer unit other mode
    exact calculateCongr (fun _ => rfl) (fun f mentioned => absurd mentioned (absent f)) mode
  · intro absent first second unit mode
    exact calculateCongr (fun mentioned => absurd mentioned absent) (fun _ _ => rfl) mode

/-- A root of the answer ignores the unit, and the sine of a number ignores even an answer that is
no number. -/
theorem influenceMentionedRoot :
    (∀ f, ¬Mentions "√(Ans)÷0" (.function (.angle f))) ∧ ¬Mentions "2sin(45" .answer ∧
      (∀ answer unit mode, calculateWithSteps "√(Ans)÷0" answer unit mode =
        calculateWithSteps "√(Ans)÷0" answer .degree mode) ∧
      ∀ unit mode, calculateWithSteps "2sin(45" (0 / 0) unit mode =
        calculateWithSteps "2sin(45" 0 unit mode := by
  have rootScanned : Token.scan "√(Ans)÷0" =
      .ok [.function .sqrt, .opening, .answer, .closing, .operator .div, .number 0] := by
    decide +kernel
  have sineScanned : Token.scan "2sin(45" =
      .ok [.number 2, .function (.angle .sin), .opening, .number 45] := by decide +kernel
  have root (f : AngleFunction) : ¬Mentions "√(Ans)÷0" (.function (.angle f)) := by
    rintro ⟨tokens, scanned, member⟩
    rw [rootScanned] at scanned
    cases scanned
    simp at member
  have sine : ¬Mentions "2sin(45" .answer := by
    rintro ⟨tokens, scanned, member⟩
    rw [sineScanned] at scanned
    cases scanned
    simp at member
  exact ⟨root, sine, fun answer unit => (influenceMentioned _).1 root answer unit .degree,
    (influenceMentioned _).2 sine (0 / 0) 0⟩

end Calculator
