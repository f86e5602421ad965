/-
This file proves that the text of some tokens has these tokens again.
-/

import Calculator.Proofs.Binary64.Closure
import Calculator.Proofs.Decimal.Shortest
import Calculator.Proofs.Grammar.Omission
import Calculator.Proofs.Scanning.Analysis
import Calculator.Proofs.Scanning.Numeral

namespace Calculator

namespace Lexeme

variable {rest : List Char}

/-- The spelling of a number without a sign is one number. -/
theorem givesNumber {x : Float} (plus : Binary64.negative x = false) (finite : x.isFinite)
    (ends : EndsNumeral rest) : Gives (spellNumber x ++ rest) [.number x] rest := by
  obtain ⟨whole, fraction, canonical, fractionDigits, text, reads⟩ := spellReads plus finite
  have given := givesNumeral canonical fractionDigits.digit ends
  rwa [← text, reads] at given

theorem givesFunction (f : NamedFunction) (rest : List Char) :
    Gives (f.name.toList ++ rest) [.function f] rest := by
  have word : .function f ∈ words := by rcases f with (_ | _ | _) | _ | _ | _ | _ <;> decide
  exact givesWord word rest

theorem givesOperator (op : Operator) (rest : List Char) :
    Gives (op.symbol :: rest) [.operator op] rest :=
  givesSymbol (by cases op <;> rfl) rest

/-- Only a number may go on after its spelling. -/
theorem givesSpelling (token : Token)
    (plain : ∀ x, token = .number x → x.isFinite ∧ Binary64.negative x = false)
    (ends : EndsNumeral rest) : Gives (token.spelling ++ rest) [token] rest := by
  cases token with
  | number x =>
      obtain ⟨finite, plus⟩ := plain x rfl
      exact givesNumber plus finite ends
  | answer => exact givesWord (show .answer ∈ words by decide) rest
  | function f => exact givesFunction f rest
  | operator op => exact givesOperator op rest
  | pi | factorial | opening | closing => exact givesSymbol rfl rest

/-- The induction is on the tokens. The space after each spelling ends its number. -/
theorem givesSpellings (tokens : List Token)
    (plain : ∀ x, .number x ∈ tokens → x.isFinite ∧ Binary64.negative x = false) :
    Gives (Token.spellAll tokens) tokens [] := by
  induction tokens using Token.spellAll.induct with
  | case1 => exact ⟨[], .stop [], rfl⟩
  | case2 token =>
      have given := givesSpelling token (fun x same => plain x (by simp [same])) endsNothing
      rwa [List.append_nil] at given
  | case3 token rest several inductionHypothesis =>
      rw [Token.spellAll]
      · have ends := endsSymbol (c := ' ') rfl (Token.spellAll rest)
        have first := givesSpelling token (fun x same => plain x (by simp [same])) ends
        have others := inductionHypothesis fun x member => plain x (by simp [member])
        exact first.append ((givesSpace _).append others)
      · exact several

end Lexeme

namespace Token

variable {tokens : List Token} {token : Token}

/-- Numbers without a sign that are not infinite are read back from the text of their tokens. -/
theorem scanText (tokens : List Token)
    (plain : ∀ x, .number x ∈ tokens → x.isFinite ∧ Binary64.negative x = false) :
    scan (text tokens) = .ok tokens := by
  rw [scan, text, String.toList_ofList]
  exact (Lexeme.givesSpellings tokens plain).scan 0

/-- Only signs of products are new among the tokens with every product. -/
theorem memWithProducts (member : token ∈ withProducts tokens) :
    token ∈ tokens ∨ token = .operator .mul := by
  rw [← insertionsAll] at member
  obtain ⟨entry, inside, rfl⟩ := List.mem_map.mp member
  cases new : entry.2 with
  | true => exact .inr (insertionsNew entry inside new)
  | false =>
      left
      rw [← insertionsOld tokens]
      exact List.mem_map.mpr ⟨entry, List.mem_filter.mpr ⟨inside, by simp [new]⟩, rfl⟩

theorem numberWithProducts {x : Float} (member : .number x ∈ withProducts tokens) :
    .number x ∈ tokens := by
  rcases memWithProducts member with old | sign
  · exact old
  · cases sign

end Token

section Steps

variable {text : String} {tokens : List Token} {analysis : Analysis}

/-- A scanned number without an overflow is a finite number without a sign. -/
theorem scannedPlain (scanned : Token.scan text = .ok tokens)
    (bounded : ∀ x, .number x ∈ tokens → x.isInf = false) (x : Float)
    (member : .number x ∈ tokens) : x.isFinite ∧ Binary64.negative x = false := by
  obtain ⟨number, plus⟩ := Lexeme.scannedPlus scanned member
  exact ⟨Binary64.finiteIffNumber.mpr ⟨number, bounded x member⟩, plus⟩

/-- The steps of an analysis show its tokens, its tokens with every product, and its tree. -/
theorem stepsOfAnalysis (scanned : Token.scan text = .ok tokens)
    (analysed : analyse text = .ok analysis) :
    tokens ≠ [] ∧ ∃ expr, Expr.ofTokens (Token.withProducts tokens) = .ok expr ∧
      analysis = ⟨expr, ⟨Token.text tokens, Token.text (Token.withProducts tokens), expr.text⟩⟩ := by
  have present : tokens ≠ [] := by
    rintro rfl
    obtain ⟨others, again, read⟩ := scanOfAnalysis analysed
    rw [scanned] at again
    cases again
    cases read
  rw [analyseScanned scanned present] at analysed
  split at analysed
  · cases analysed
  · next expr read =>
    cases analysed
    exact ⟨present, expr, read, rfl⟩

end Steps

/-- The text of tokens reads back as the tokens if every number in them is finite and has no sign,
and the numbers of a text without an overflow are such numbers. So the two lines of tokens in the
steps of an analysis are analysed to the same tree. -/
theorem tokenTextReadsBack :
    (∀ tokens : List Token,
      (∀ x, .number x ∈ tokens → x.isFinite ∧ Binary64.negative x = false) →
        Token.scan (Token.text tokens) = .ok tokens) ∧
    ∀ text tokens, Token.scan text = .ok tokens →
      (∀ x, .number x ∈ tokens → x.isInf = false) →
        Token.scan (Token.text tokens) = .ok tokens ∧
        ∀ analysis, analyse text = .ok analysis →
          analyse analysis.steps.tokens = .ok analysis ∧
          analyse analysis.steps.resolved = .ok ⟨analysis.expr,
            ⟨analysis.steps.resolved, analysis.steps.resolved, analysis.steps.tree⟩⟩ := by
  refine ⟨Token.scanText, fun text tokens scanned bounded => ?_⟩
  have plain := scannedPlain scanned bounded
  have again := Token.scanText tokens plain
  refine ⟨again, fun analysis analysed => ?_⟩
  obtain ⟨present, expr, read, rfl⟩ := stepsOfAnalysis scanned analysed
  constructor
  · rw [analyseScanned again present, read]
  · have resolved := Token.scanText (Token.withProducts tokens) fun x member =>
      plain x (Token.numberWithProducts member)
    have same := (Token.omitsWithProducts tokens).withProducts
    have others : Token.withProducts tokens ≠ [] := by
      intro nothing
      rw [nothing] at read
      cases read
    rw [analyseScanned resolved others, ← same, read]

/-- The exponent of a number and the sign of a product are read back in another spelling. -/
theorem tokenTextReadsBackProduct :
    let tokens : List Token :=
      [.number 0.0025, .function (.angle .sin), .opening, .number 30, .closing]
    Token.text tokens = "0.0025 sin ( 30 )" ∧
      Token.scan "0.0025 sin ( 30 )" = .ok tokens ∧
      ∃ analysis, analyse "2.5E-3sin(30)" = .ok analysis ∧
        analyse "0.0025 sin ( 30 )" = .ok analysis ∧
        analyse "0.0025 * sin ( 30 )" = .ok ⟨analysis.expr,
          ⟨"0.0025 * sin ( 30 )", "0.0025 * sin ( 30 )", "(0.0025 * sin[30])"⟩⟩ := by
  intro tokens
  have spelled : Token.text tokens = "0.0025 sin ( 30 )" := by decide +kernel
  have scanned : Token.scan "2.5E-3sin(30)" = .ok tokens := by decide +kernel
  have typed : analyse "2.5E-3sin(30)" = .ok
      ⟨.binary .mul (.number 0.0025) (.call (.angle .sin) (.number 30)),
        ⟨"0.0025 sin ( 30 )", "0.0025 * sin ( 30 )", "(0.0025 * sin[30])"⟩⟩ := by decide +kernel
  have plain : ∀ x, .number x ∈ tokens →
      x.isInf = false ∧ x.isFinite ∧ Binary64.negative x = false := by
    intro x member
    have literal : x = 0.0025 ∨ x = 30 := by simpa [tokens] using member
    rcases literal with rfl | rfl <;> decide
  have again := tokenTextReadsBack.1 tokens fun x member => (plain x member).2
  obtain ⟨_, steps⟩ := tokenTextReadsBack.2 _ tokens scanned fun x member => (plain x member).1
  obtain ⟨first, second⟩ := steps _ typed
  rw [spelled] at again
  exact ⟨spelled, again, _, typed, first, second⟩

end Calculator
