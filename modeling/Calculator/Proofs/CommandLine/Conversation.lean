/-
This file proves that a conversation without commands is a fold over its lines.
-/

import Calculator.CommandLine.Conversation
import Calculator.CommandLine.Report
import Calculator.Proofs.Scanning.Analysis
import Calculator.Proofs.Session.Run

namespace Calculator.CommandLine

/-- The input consists of these lines. -/
def Reads (input : ByteArray) (lines : List String) : Prop :=
  (splitLines input.toList).map decodeLine = lines.map some

/-- A command starts with a colon after its blanks. -/
def Plain (line : String) : Prop :=
  (Text.trim line.toList).head? ≠ some ':'

instance (input : ByteArray) (lines : List String) : Decidable (Reads input lines) :=
  inferInstanceAs (Decidable (_ = _))

instance (line : String) : Decidable (Plain line) :=
  inferInstanceAs (Decidable (_ ≠ _))

/-- An account holds the last expression, the answer, and the outcome of each printed line. -/
structure Account where
  expression : String := ""
  answer : Float := 0
  outcomes : List Outcome := []

namespace Account

/-- A blank line keeps the expression, and after a result an operator continues from the answer. -/
def next (account : Account) (line : String) : String :=
  let text := String.ofList (Text.trim line.toList)
  if text = "" then account.expression
  else if account.outcomes ≠ [] ∧ text.toList.head?.any "+-×÷*/^".toList.contains then
    "Ans" ++ text
  else text

/-- Each line calculates the next expression, if there is one. -/
def read (settings : Settings) (account : Account) (line : String) : Account :=
  let expression := account.next line
  if expression = "" then account
  else
    let outcome := calculate expression account.answer settings.angle settings.format
    ⟨expression, outcome.answer.getD account.answer, account.outcomes ++ [outcome]⟩

end Account

/-- The result of the session tells whether a line has been printed. -/
structure Simulates (settings : Settings) (session : Session) (account : Account) : Prop where
  settings : session.settings = settings
  expression : session.expression = account.expression
  answer : session.answer = account.answer
  printed : session.result = "" ↔ account.outcomes = []
  fresh : account.outcomes = [] → account.expression = ""
  present : account.expression ≠ "" → Text.trim account.expression.toList ≠ []

variable {settings : Settings} {session : Session} {account : Account} {line : String}

section Step

theorem continuesIff (text : String) :
    Session.continues text = text.toList.head?.any "+-×÷*/^".toList.contains := by
  rw [Session.continues]
  cases text.toList <;> rfl

/-- Without an expression the line is blank, and no line before it had one. -/
theorem nextEmpty (empty : account.next line = "") :
    String.ofList (Text.trim line.toList) = "" ∧ account.expression = "" := by
  rw [Account.next] at empty
  split at empty
  · next blank => exact ⟨blank, empty⟩
  · next written =>
    split at empty
    · have letters := congrArg String.toList empty
      simp at letters
    · exact absurd empty written

/-- The next expression is not blank. -/
theorem nextPresent (simulates : Simulates settings session account)
    (nonempty : account.next line ≠ "") : Text.trim (account.next line).toList ≠ [] := by
  rw [Account.next] at nonempty ⊢
  split at nonempty
  · next blank =>
    rw [if_pos blank]
    exact simulates.present nonempty
  · next written =>
    rw [if_neg written]
    split
    · intro blank
      have letter := Text.trimEmpty.mp blank 'A' (by simp)
      revert letter
      decide
    · rw [String.toList_ofList, Text.trimTrim]
      intro blank
      rw [blank] at written
      exact written rfl

/-- The session enters the line as the account does. -/
theorem Simulates.enter (simulates : Simulates settings session account) (text : String)
    (trimmed : String.ofList (Text.trim line.toList) = text) (written : text ≠ "") :
    (session.enter text).expression = account.next line ∧
      (session.enter text).settings = settings ∧ (session.enter text).answer = account.answer := by
  rw [Account.next, trimmed, if_neg written, ← continuesIff, Session.enter]
  by_cases fresh : account.outcomes = []
  · have empty : session.result = "" := simulates.printed.mpr fresh
    have start : session.expression = "" := simulates.expression.trans (simulates.fresh fresh)
    rw [if_pos (by simp [empty]), if_neg (fun both => both.1 fresh)]
    exact ⟨by simp [start], simulates.settings, simulates.answer⟩
  · have shown : session.result ≠ "" := fun empty => fresh (simulates.printed.mp empty)
    rw [if_neg (by simpa using shown)]
    refine ⟨?_, simulates.settings, simulates.answer⟩
    simp [fresh, Session.clearResult]

theorem turnPlain (session : Session) (plain : Plain line) :
    turn session line = ⟨some (submit session (String.ofList (Text.trim line.toList))).1,
      (submit session (String.ofList (Text.trim line.toList))).2⟩ := by
  rw [turn]
  split
  · next name trimmed =>
    rw [Plain, trimmed] at plain
    exact absurd rfl plain
  · generalize submit session _ = submitted
    rfl

theorem submitBlank (session : Session) (blank : Text.trim session.expression.toList = []) :
    submit session "" = (session, []) := by
  have executed : session.execute = (session, none) := by simp [Session.execute, blank]
  simp [submit, executed]

/-- A session with an expression prints the display of its outcome. -/
theorem submitPresent (session : Session) (text : String) {entered : Session}
    (same : (if text.isEmpty then session else session.enter text) = entered)
    (present : Text.trim entered.expression.toList ≠ []) :
    let outcome := calculate entered.expression entered.answer entered.settings.angle
      entered.settings.format
    submit session text = ({ entered with
      result := outcome.display
      succeeded := outcome.updatesAnswer
      answer := outcome.answer.getD entered.answer }, [outcome.display]) := by
  have nonempty : (Text.trim entered.expression.toList).isEmpty = false := by simpa using present
  simp only [submit, same, Session.execute, nonempty, Bool.false_eq_true, if_false]

/-- One line keeps the session in line with the account, and it prints the new outcome. -/
theorem Simulates.turn (simulates : Simulates settings session account) (plain : Plain line) :
    ∃ next new, turn session line = ⟨some next, List.map Outcome.display new⟩ ∧
      Simulates settings next (account.read settings line) ∧
      (account.read settings line).outcomes = account.outcomes ++ new := by
  rw [turnPlain session plain]
  by_cases empty : account.next line = ""
  · obtain ⟨blank, start⟩ := nextEmpty empty
    have nothing : Text.trim session.expression.toList = [] := by
      rw [simulates.expression, start]
      rfl
    have kept : account.read settings line = account := by rw [Account.read, if_pos empty]
    rw [blank, submitBlank session nothing, kept]
    exact ⟨session, [], rfl, simulates, by simp⟩
  · have present := nextPresent simulates empty
    -- The session still holds the expression of a blank line, and it enters any other line.
    generalize trimmed : String.ofList (Text.trim line.toList) = text
    obtain ⟨entered, same, expression, unchanged, answer⟩ : ∃ entered,
        (if text.isEmpty then session else session.enter text) = entered ∧
        entered.expression = account.next line ∧ entered.settings = settings ∧
        entered.answer = account.answer := by
      by_cases blank : text = ""
      · refine ⟨session, by simp [blank], ?_, simulates.settings, simulates.answer⟩
        rw [Account.next, trimmed, if_pos blank, simulates.expression]
      · exact ⟨_, if_neg (by simpa using blank), simulates.enter text trimmed blank⟩
    rw [submitPresent session text same (by rwa [expression])]
    simp only [expression, unchanged, answer, Account.read, if_neg empty]
    generalize account.next line = written at present ⊢
    generalize computed :
      calculate written account.answer settings.angle settings.format = outcome
    have shown : outcome.display ≠ "" := computed ▸ Calculation.displayPresent _ _ _
    refine ⟨_, [outcome], rfl, ?_, rfl⟩
    exact {
      settings := rfl
      expression := rfl
      answer := rfl
      printed := by simp [shown]
      fresh := by simp
      present := fun _ => present }

end Step

section Run

/-- The printed lines are the displays of the outcomes. -/
theorem transcriptReads {lines : List String} (simulates : Simulates settings session account)
    (plain : ∀ line ∈ lines, Plain line) :
    ∃ new, transcript session (lines.map some) = (0, List.map Outcome.display new) ∧
      (lines.foldl (Account.read settings) account).outcomes = account.outcomes ++ new := by
  induction lines generalizing session account with
  | nil => exact ⟨[], rfl, by simp⟩
  | cons line rest inductionHypothesis =>
      obtain ⟨next, first, turned, after, outcomes⟩ := simulates.turn (plain line (by simp))
      obtain ⟨new, later, all⟩ :=
        inductionHypothesis after fun other member => plain other (by simp [member])
      refine ⟨first ++ new, ?_, ?_⟩
      · simp only [List.map_cons, transcript, turned, later, List.map_append]
      · rw [List.foldl_cons, all, outcomes, List.append_assoc]

theorem converseReads (settings : Settings) {input : ByteArray} {lines : List String}
    (reads : Reads input lines) (plain : ∀ line ∈ lines, Plain line) :
    converse settings input =
      .ofLines 0 ((lines.foldl (Account.read settings) {}).outcomes.map Outcome.display) := by
  have initial : Simulates settings { settings := settings } {} :=
    ⟨rfl, rfl, rfl, by simp, fun _ => rfl, fun present => absurd rfl present⟩
  obtain ⟨new, printed, outcomes⟩ := transcriptReads initial plain
  rw [converse, reads, printed, outcomes]
  rfl

/-- The answer of an account is the value of its last success. -/
theorem answerReads (settings : Settings) (lines : List String)
    (current : account.answer = Session.lastAnswer 0 account.outcomes) :
    (lines.foldl (Account.read settings) account).answer =
      Session.lastAnswer 0 (lines.foldl (Account.read settings) account).outcomes := by
  induction lines generalizing account with
  | nil => exact current
  | cons line rest inductionHypothesis =>
      rw [List.foldl_cons]
      refine inductionHypothesis ?_
      rw [Account.read]
      split
      · exact current
      · simp only [Session.lastAnswerAppend, ← current]
        cases calculate _ _ _ _ with
        | mk display answer => cases answer <;> rfl

/-- A blank line calculates the last expression once more, with the newest answer. -/
theorem readBlank (settings : Settings) (account : Account)
    (blank : Text.trim line.toList = []) :
    (account.read settings line).outcomes = account.outcomes ++
      if account.expression = "" then []
      else [calculate account.expression account.answer settings.angle settings.format] := by
  have kept : account.next line = account.expression := by simp [Account.next, blank]
  rw [Account.read, kept]
  split <;> simp

theorem converseBlank (settings : Settings) {input : ByteArray} {lines : List String}
    (reads : Reads input (lines ++ [line])) (plain : ∀ line ∈ lines, Plain line)
    (blank : Text.trim line.toList = []) {account : Account}
    (before : lines.foldl (Account.read settings) {} = account) :
    converse settings input = .ofLines 0 ((account.outcomes ++
      if account.expression = "" then []
      else [calculate account.expression account.answer settings.angle settings.format]).map
        Outcome.display) := by
  have command : Plain line := by simp [Plain, blank]
  have all : ∀ other ∈ lines ++ [line], Plain other := by
    intro other member
    rcases List.mem_append.mp member with before | last
    · exact plain other before
    · rwa [List.mem_singleton.mp last]
  rw [converseReads settings reads all, List.foldl_append, before, List.foldl_cons, List.foldl_nil,
    readBlank settings account blank]

/-- A conversation of one line prints the plain report of that line. -/
theorem converseSingle (settings : Settings) {input : ByteArray} (reads : Reads input [line])
    (plain : Plain line) (present : Text.trim line.toList ≠ []) :
    (converse settings input).output = (report settings line 0 false false).output := by
  have text : String.ofList (Text.trim line.toList) ≠ "" := fun empty =>
    present (by simpa using congrArg String.toList empty)
  have next : Account.next {} line = String.ofList (Text.trim line.toList) := by
    simp [Account.next, present]
  have calculated : calculate (String.ofList (Text.trim line.toList)) 0 settings.angle
      settings.format = (calculateWithSteps line 0 settings.angle settings.format).1 := by
    rw [calculate, calculateWithSteps, analyseTrim, ← calculateWithSteps]
  rw [converseReads settings reads (by simpa using plain), List.foldl_cons, List.foldl_nil,
    Account.read, next, if_neg text, calculated]
  rfl

/-- A conversation without commands prints the displays of a fold over its lines. A line that is not
blank is the next expression, with the answer before it if it starts with an operator after a printed
line, and a blank line keeps the expression. The answer is the value of the last success, also after
an error, and a single line that is not blank is answered like a report of that line. -/
theorem converseFolds (settings : Settings) (input : ByteArray) (lines : List String)
    (reads : Reads input lines) (plain : ∀ line ∈ lines, Plain line) :
    let account := lines.foldl (Account.read settings) {}
    converse settings input = .ofLines 0 (account.outcomes.map Outcome.display) ∧
    account.answer = Session.lastAnswer 0 account.outcomes ∧
    (∀ longer line, Reads longer (lines ++ [line]) → Text.trim line.toList = [] →
      converse settings longer = .ofLines 0 ((account.outcomes ++
        if account.expression = "" then []
        else [calculate account.expression account.answer settings.angle settings.format]).map
          Outcome.display)) ∧
    ∀ line, lines = [line] → Text.trim line.toList ≠ [] →
      (converse settings input).output = (report settings line 0 false false).output := by
  refine ⟨converseReads settings reads plain, answerReads settings lines rfl,
    fun longer line more blank => converseBlank settings more plain blank rfl, ?_⟩
  rintro line rfl present
  exact converseSingle settings reads (plain line (by simp)) present

/-- After an error the operator continues from the answer before it. -/
theorem converseFoldsError :
    converse {} "2+3\n÷0\n\n ×2".toUTF8 = .ofLines 0 ["5", "Math Error", "Math Error", "10"] := by
  have reads : Reads "2+3\n÷0\n\n ×2".toUTF8 ["2+3", "÷0", "", " ×2"] := by decide +kernel
  have plain : ∀ line ∈ ["2+3", "÷0", "", " ×2"], Plain line := by decide
  have outcomes : ((["2+3", "÷0", "", " ×2"].foldl (Account.read {}) {}).outcomes.map
      Outcome.display) = ["5", "Math Error", "Math Error", "10"] := by decide +kernel
  obtain ⟨printed, _⟩ := converseFolds {} _ _ reads plain
  rw [printed, outcomes]

/-- A single blank line prints nothing, and its report is a message. -/
theorem converseBlankAlone :
    Reads " \n".toUTF8 [" "] ∧ Plain " " ∧ (converse {} " \n".toUTF8).output = "" ∧
      (report {} " " 0 false false).output = "Syntax Error\n" := by
  decide +kernel

end Run

end Calculator.CommandLine
