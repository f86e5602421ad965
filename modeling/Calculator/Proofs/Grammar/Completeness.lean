/-
This file proves that the reader reads every derived list unless its nesting exceeds the limit.
-/

import Calculator.Proofs.Grammar.Frames

namespace Calculator

namespace Reader

theorem runThen {reader next : Reader} {first : List Token} (reached : reader.run first = .ok next)
    (second : List Token) : reader.run (first ++ second) = next.run second := by
  rw [runAppend, reached]

theorem runStops {reader : Reader} {first : List Token} {cause : SyntaxError}
    (stopped : reader.run first = .error cause) (second : List Token) :
    reader.run (first ++ second) = .error cause := by
  rw [runAppend, stopped]

/-- The reader reads an operand of a layer above any frames that the operand fits. The frames that
it leaves hold the rest of the operand, and only the limit of the nesting can stop it. -/
def Reads (layer : Layer) (tokens : List Token) (expr : Expr) (nesting : Nat) : Prop :=
  ∀ (position : Nat) (stack : List Frame), layer.Fits stack → stack.length < Frame.depthLimit →
    (nesting + stack.length ≤ Frame.depthLimit → ∃ frames operand,
      run ⟨position, stack, .operand⟩ tokens =
        .ok ⟨position + tokens.length, frames ++ stack, .value operand⟩ ∧
      Frame.fillAll frames operand = expr ∧ ∀ frame ∈ frames, layer.Leaves frame) ∧
    (Frame.depthLimit < nesting + stack.length →
      run ⟨position, stack, .operand⟩ tokens = .error .tooDeep)

variable {layer : Layer} {tokens inside first second : List Token} {expr left right : Expr}
  {nesting m n : Nat}

/-- An operand of one token leaves no frame. -/
theorem readsToken {token : Token}
    (taken : ∀ position stack, operand position stack token = .ok (stack, .value expr)) :
    Reads .primary [token] expr 1 := by
  intro position stack _ room
  constructor
  · intro _
    refine ⟨[], expr, ?_, rfl, by simp⟩
    simp [run, step, advance, taken]
  · intro deep
    omega

theorem readsLooser (reads : Reads layer tokens expr nesting) :
    Reads layer.looser tokens expr nesting := by
  intro position stack fits room
  obtain ⟨within, beyond⟩ := reads position stack (fits.tighten layer.rankLeLooser) room
  refine ⟨fun shallow => ?_, beyond⟩
  obtain ⟨frames, operand, reached, filled, leaves⟩ := within shallow
  exact ⟨frames, operand, reached, filled, fun frame member => (leaves frame member).loosen⟩

/-- A list that leaves no frame can be marked. -/
theorem readsFactorial (reads : Reads .marked tokens expr nesting) :
    Reads .marked (tokens ++ [.factorial]) (.factorial expr) nesting := by
  intro position stack fits room
  obtain ⟨within, beyond⟩ := reads position stack fits room
  constructor
  · intro shallow
    obtain ⟨frames, operand, reached, filled, leaves⟩ := within shallow
    have empty : frames = [] := List.eq_nil_iff_forall_not_mem.mpr leaves
    subst empty
    refine ⟨[], .factorial expr, ?_, rfl, by simp⟩
    rw [runThen reached, ← filled]
    simp [run, step, advance, afterValue, Frame.fillAll, Nat.add_assoc]
  · intro deep
    exact runStops (beyond deep) _

/-- The reader opens a frame and goes on with the operand of the frame. -/
def enter (position : Nat) (frame : Frame) (stack : List Frame) (tokens : List Token) :
    Except SyntaxError Reader :=
  match Frame.push frame stack with
  | .ok stack => run ⟨position, stack, .operand⟩ tokens
  | .error cause => .error cause

/-- A frame adds one to the nesting of its operand. -/
theorem Reads.enter {frame : Frame} {stack : List Frame}
    (reads : Reads layer tokens expr nesting) (position : Nat) (positive : 0 < nesting)
    (fits : layer.Fits (frame :: stack)) :
    (nesting + 1 + stack.length ≤ Frame.depthLimit → ∃ frames operand,
      enter position frame stack tokens =
        .ok ⟨position + tokens.length, frames ++ frame :: stack, .value operand⟩ ∧
      Frame.fillAll frames operand = expr ∧ ∀ frame ∈ frames, layer.Leaves frame) ∧
    (Frame.depthLimit < nesting + 1 + stack.length →
      enter position frame stack tokens = .error .tooDeep) := by
  by_cases pushed : stack.length + 2 ≤ Frame.depthLimit
  · have start : Reader.enter position frame stack tokens =
        run ⟨position, frame :: stack, .operand⟩ tokens := by
      rw [Reader.enter, Frame.pushWithin pushed]
    obtain ⟨within, beyond⟩ := reads position (frame :: stack) fits pushed
    rw [List.length_cons] at within beyond
    rw [start]
    exact ⟨fun shallow => within (by omega), fun deep => beyond (by omega)⟩
  · refine ⟨fun shallow => absurd shallow (by omega), fun _ => ?_⟩
    rw [Reader.enter, Frame.pushBeyond (Nat.lt_of_not_le pushed)]

/-- A sign is a frame around its operand. -/
theorem readsSign {sign : Token} (frame : Frame)
    (taken : ∀ position stack, operand position stack sign =
      (Frame.push frame stack).map fun stack => (stack, .operand))
    (leaves : Layer.signed.Leaves frame) (reads : Reads .signed tokens expr nesting)
    (positive : 0 < nesting) :
    Reads .signed (sign :: tokens) (frame.fill expr) (nesting + 1) := by
  intro position stack _ _
  have start : run ⟨position, stack, .operand⟩ (sign :: tokens) =
      enter (position + 1) frame stack tokens := by
    simp only [run, step, advance, taken, enter]
    cases Frame.push frame stack <;> rfl
  obtain ⟨within, beyond⟩ :=
    reads.enter (position + 1) positive (Layer.fitsSigned (frame :: stack))
  rw [start]
  refine ⟨fun shallow => ?_, beyond⟩
  obtain ⟨frames, operand, reached, filled, left⟩ := within shallow
  refine ⟨frames ++ [frame], operand, ?_, ?_, ?_⟩
  · rw [reached]
    simp [Nat.add_assoc, Nat.add_comm 1]
  · rw [Frame.fillAllAppend, filled]
    rfl
  · intro other member
    rcases List.mem_append.mp member with inner | outer
    · exact left other inner
    · rw [List.mem_singleton.mp outer]
      exact leaves

/-- An operator settles its left operand and opens a frame for its right operand. -/
theorem readsBinary (op : Operator) (readsLeft : Reads op.left first left m)
    (readsRight : Reads op.right second right n) (positive : 0 < n) :
    Reads op.layer (first ++ .operator op :: second) (.binary op left right) (max m (n + 1)) := by
  intro position stack fits room
  have fitsLeft : op.left.Fits stack := fits.tighten op.leftLeLayer
  have fitsRight : op.right.Fits (.operand left op :: stack) := Nat.le_refl _
  obtain ⟨withinLeft, beyondLeft⟩ := readsLeft position stack fitsLeft room
  obtain ⟨withinRight, beyondRight⟩ :=
    readsRight.enter (position + first.length + 1) positive fitsRight
  -- The left operand decides first, because its nesting is reached first.
  by_cases shallowLeft : m + stack.length ≤ Frame.depthLimit
  · obtain ⟨frames, operand, reached, filled, leaves⟩ := withinLeft shallowLeft
    have start : run ⟨position, stack, .operand⟩ (first ++ .operator op :: second) =
        enter (position + first.length + 1) (.operand left op) stack second := by
      rw [runThen reached]
      simp only [run, step, advance, afterValue, Frame.settleOperand op leaves filled fitsLeft,
        enter]
      cases Frame.push (.operand left op) stack <;> rfl
    rw [start]
    refine ⟨fun shallow => ?_, fun deep => beyondRight (by omega)⟩
    obtain ⟨above, value, read, whole, leavesAbove⟩ := withinRight (by omega)
    refine ⟨above ++ [.operand left op], value, ?_, ?_, ?_⟩
    · rw [read]
      simp [Nat.add_assoc, Nat.add_comm 1]
    · rw [Frame.fillAllAppend, whole]
      rfl
    · intro other member
      rcases List.mem_append.mp member with inner | outer
      · exact op.leavesRight (leavesAbove other inner)
      · rw [List.mem_singleton.mp outer]
        exact op.leavesOperand left
  · refine ⟨fun shallow => absurd shallow (by omega), fun _ => ?_⟩
    exact runStops (beyondLeft (by omega)) _

/-- A pair of parentheses closes on the frame that it opens. -/
theorem readsEnclosed (f : Option NamedFunction) (reads : Reads .sum inside expr nesting)
    (positive : 0 < nesting) (starts : ∃ token rest, inside = token :: rest ∧ token ≠ .closing)
    (position : Nat) (stack : List Frame) :
    (nesting + 1 + stack.length ≤ Frame.depthLimit →
      run ⟨position, stack, .opened f⟩ (inside ++ [.closing]) =
        .ok ⟨position + (inside.length + 1), stack, .value ((enclosing f).fill expr)⟩) ∧
    (Frame.depthLimit < nesting + 1 + stack.length →
      run ⟨position, stack, .opened f⟩ (inside ++ [.closing]) = .error .tooDeep) := by
  have encloses : (enclosing f).room = .sum := by cases f <;> rfl
  have fits : Layer.sum.Fits (enclosing f :: stack) := by
    show Layer.sum.rank ≤ (enclosing f).room.rank
    exact Nat.le_of_eq (congrArg Layer.rank encloses.symm)
  have start : run ⟨position, stack, .opened f⟩ inside =
      enter position (enclosing f) stack inside := by
    obtain ⟨token, rest, rfl, opens⟩ := starts
    simp only [run, step, advance, enter, if_neg opens]
    cases Frame.push (enclosing f) stack <;> rfl
  obtain ⟨within, beyond⟩ := reads.enter position positive fits
  rw [← start] at within beyond
  refine ⟨fun shallow => ?_, fun deep => runStops (beyond deep) _⟩
  obtain ⟨frames, operand, reached, filled, leaves⟩ := within shallow
  have closed : Frame.close? (frames ++ enclosing f :: stack) operand =
      some (stack, (enclosing f).fill expr) := by
    rw [Frame.closeSettle, Frame.settleOperand .add leaves filled fits]
    cases f <;> rfl
  rw [runThen reached]
  simp [run, step, advance, afterValue, closed, Nat.add_assoc]

/-- The proof follows the derivation, and each rule is one of the lemmas above. -/
theorem readsDerived (derives : Derives layer tokens expr nesting) :
    Reads layer tokens expr nesting := by
  induction derives with
  | number x => exact readsToken fun _ _ => rfl
  | pi => exact readsToken fun _ _ => rfl
  | answer => exact readsToken fun _ _ => rfl
  | group derives reads =>
      intro position stack _ _
      obtain ⟨within, beyond⟩ :=
        readsEnclosed none reads derives.positive derives.starts (position + 1) stack
      refine ⟨fun shallow => ⟨[], _, (within shallow).trans ?_, rfl, by simp⟩, beyond⟩
      simp [enclosing, Frame.fill, Nat.add_assoc, Nat.add_comm 1]
  | call f derives reads =>
      intro position stack _ _
      obtain ⟨within, beyond⟩ :=
        readsEnclosed (some f) reads derives.positive derives.starts (position + 2) stack
      refine ⟨fun shallow => ⟨[], _, (within shallow).trans ?_, rfl, by simp⟩, beyond⟩
      simp [enclosing, Frame.fill, Nat.add_assoc, Nat.add_comm 2]
  | factorial _ reads => exact readsFactorial reads
  | negate derives reads =>
      exact readsSign .negate (fun _ _ => rfl) (Nat.lt_succ_self _) reads
        derives.positive
  | keep derives reads =>
      exact readsSign .keep (fun _ _ => rfl) (Nat.lt_succ_self _) reads
        derives.positive
  | binary op _ derives readsLeft readsRight =>
      exact readsBinary op readsLeft readsRight derives.positive
  | loosen _ reads => exact readsLooser reads

end Reader

namespace Expr

variable {tokens : List Token} {expr : Expr} {nesting : Nat}

theorem ofTokensRun (derives : Derives .sum tokens expr nesting)
    (short : tokens.length ≤ tokenLimit) :
    ofTokens tokens = match Reader.start.run tokens with
      | .ok reader => reader.finish
      | .error cause => .error cause := by
  obtain ⟨token, rest, rfl, _⟩ := derives.starts
  have within : ¬tokenLimit < (token :: rest).length := Nat.not_lt.mpr short
  cases reached : Reader.start.run (token :: rest) <;>
    simp only [ofTokens, List.isEmpty_cons, Bool.false_eq_true, if_false, within, reached]

theorem ofTokensLong (long : ¬tokens.length ≤ tokenLimit) :
    ofTokens tokens = .error (.tooLong tokens.length) := by
  have present : tokens.isEmpty = false := by
    cases tokens with
    | nil => exact absurd (Nat.zero_le _) long
    | cons _ _ => rfl
  rw [ofTokens, present, if_neg (by decide), if_pos (Nat.lt_of_not_le long)]

/-- A derived list has its tree within the limit of the nesting. -/
theorem ofTokensShallow (derives : Derives .sum tokens expr nesting)
    (short : tokens.length ≤ tokenLimit) (shallow : nesting ≤ Frame.depthLimit) :
    ofTokens tokens = .ok expr := by
  obtain ⟨frames, operand, reached, filled, leaves⟩ :=
    (Reader.readsDerived derives 0 [] trivial (by decide)).1 shallow
  have complete : Frame.complete? (frames ++ []) operand = some expr := by
    have fits : Layer.sum.Fits [] := trivial
    rw [Frame.completeSettle, Frame.settleOperand .add leaves filled fits]
    rfl
  rw [ofTokensRun derives short, Reader.start, reached]
  simp only [Reader.finish, complete]

/-- A derived list beyond the limit of the nesting is refused for no other reason. -/
theorem ofTokensDeep (derives : Derives .sum tokens expr nesting)
    (short : tokens.length ≤ tokenLimit) (deep : Frame.depthLimit < nesting) :
    ofTokens tokens = .error .tooDeep := by
  have stopped := (Reader.readsDerived derives 0 [] trivial (by decide)).2 deep
  rw [ofTokensRun derives short, Reader.start, stopped]

end Expr

end Calculator
