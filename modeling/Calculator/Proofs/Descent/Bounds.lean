/-
This file proves that every call keeps the depth within its limit and goes forward.
-/

import Calculator.Proofs.Descent.Basic

namespace Calculator.Descent

/-- A call gives back the depth that it found, and it has read at least one token of the list. -/
structure Advances (tokens : List Token) (entry exit : Cursor) : Prop where
  depth : exit.depth = entry.depth
  forward : entry.position < exit.position
  within : exit.position ≤ tokens.length

def Event.Bounded (tokens : List Token) : Event → Prop
  | .looked cursor => cursor.depth ≤ Frame.depthLimit
  | .returned entry exit => Advances tokens entry exit

/-- Nothing stands here that binds an operand this strongly. -/
def Stops (least : Nat) : Option Token → Prop
  | some .factorial => factorialStrength < least
  | some (.operator op) => op.leftStrength < least
  | _ => True

/-- Every event is bounded, and a value meets the condition. -/
structure Record.Ensures {A : Type} (tokens : List Token) (record : Record A)
    (condition : A → Prop) : Prop where
  events : ∀ event ∈ record.events, event.Bounded tokens
  value : ∀ value, record.ending = some (.ok value) → condition value

namespace Record

variable {A B : Type} {tokens : List Token} {condition : A → Prop} {final : B → Prop}

theorem Ensures.done {value : A} (holds : condition value) :
    (Record.done value).Ensures tokens condition where
  events _ member := (List.not_mem_nil member).elim
  value _ same := by
    cases same
    exact holds

theorem Ensures.refused (cause : SyntaxError) :
    (Record.refused cause : Record A).Ensures tokens condition where
  events _ member := (List.not_mem_nil member).elim
  value _ same := by cases same

theorem Ensures.stopped : (Record.stopped : Record A).Ensures tokens condition where
  events _ member := (List.not_mem_nil member).elim
  value _ same := by cases same

/-- The condition of a record is what the next one may rely on. -/
theorem Ensures.andThen {record : Record A} {next : A → Record B}
    (first : record.Ensures tokens condition)
    (second : ∀ value, condition value → (next value).Ensures tokens final) :
    (record.andThen next).Ensures tokens final := by
  cases ended : record.ending with
  | none =>
      simp only [Record.andThen, ended]
      exact ⟨first.events, fun _ same => nomatch same⟩
  | some result =>
      cases result with
      | error cause =>
          simp only [Record.andThen, ended]
          exact ⟨first.events, fun _ same => nomatch same⟩
      | ok value =>
          have rest := second value (first.value value ended)
          simp only [Record.andThen, ended]
          refine ⟨fun event member => ?_, rest.value⟩
          rcases List.mem_append.mp member with early | late
          · exact first.events event early
          · exact rest.events event late

theorem Ensures.weaken {record : Record A} {weaker : A → Prop}
    (ensures : record.Ensures tokens condition)
    (implies : ∀ value, condition value → weaker value) : record.Ensures tokens weaker :=
  ⟨ensures.events, fun value ended => implies value (ensures.value value ended)⟩

end Record

variable {tokens : List Token} {cursor : Cursor} {call : Call}

theorem lookEnsures (cursor : Cursor) (shallow : cursor.depth ≤ Frame.depthLimit) :
    (look tokens cursor).Ensures tokens fun token => token = tokens[cursor.position]? where
  events event member := by
    rw [List.mem_singleton.mp member]
    exact shallow
  value _ same := by
    cases same
    rfl

/-- A token at the cursor can be read. -/
theorem advancesToken {token : Token} (here : some token = tokens[cursor.position]?) :
    Advances tokens cursor cursor.next where
  depth := rfl
  forward := Nat.lt_succ_self _
  within := (List.getElem?_eq_some_iff.mp here.symm).1

theorem Advances.trans {entry middle exit : Cursor} (first : Advances tokens entry middle)
    (second : Advances tokens middle exit) : Advances tokens entry exit where
  depth := second.depth.trans first.depth
  forward := Nat.lt_trans first.forward second.forward
  within := second.within

/-- Every call with this strength returns behind its operand. -/
def Returns (tokens : List Token) (call : Call) : Prop :=
  ∀ least entry, (call least entry).Ensures tokens fun result =>
    Advances tokens entry result.2 ∧ Stops least tokens[result.2.position]?

theorem closeEnsures (f : Option NamedFunction) (inside : Expr)
    (shallow : cursor.depth ≤ Frame.depthLimit) :
    (close tokens f inside cursor).Ensures tokens fun result =>
      Advances tokens cursor result.2 := by
  refine (lookEnsures cursor shallow).andThen fun token here => ?_
  split
  · exact .done (advancesToken here)
  · exact .refused _
  · exact .refused _

theorem enclosedEnsures (returns : Returns tokens call) (f : Option NamedFunction)
    (cursor : Cursor) (shallow : cursor.depth ≤ Frame.depthLimit) :
    (enclosed tokens call f cursor).Ensures tokens fun result =>
      Advances tokens cursor result.2 := by
  refine (lookEnsures cursor shallow).andThen fun token _ => ?_
  split
  · exact .refused _
  · refine (returns 0 cursor).andThen fun (inside, reached) ⟨advances, _⟩ => ?_
    refine (closeEnsures f inside ?_).weaken fun result closes => advances.trans closes
    rw [advances.depth]
    exact shallow

theorem atomEnsures (returns : Returns tokens call) (shallow : cursor.depth ≤ Frame.depthLimit) :
    (atom tokens call cursor).Ensures tokens fun result => Advances tokens cursor result.2 := by
  refine (lookEnsures cursor shallow).andThen fun token here => ?_
  split
  · exact .done (advancesToken here)
  · exact .done (advancesToken here)
  · exact .done (advancesToken here)
  · exact (returns _ _).andThen fun (operand, exit) result =>
      .done ((advancesToken here).trans result.1)
  · exact (returns _ _).weaken fun result condition => (advancesToken here).trans condition.1
  · exact (enclosedEnsures returns none cursor.next shallow).weaken fun result condition =>
      (advancesToken here).trans condition
  · refine (lookEnsures cursor.next shallow).andThen fun second there => ?_
    split
    · next opening =>
      subst opening
      have opened := (advancesToken here).trans (advancesToken there)
      exact (enclosedEnsures returns _ cursor.next.next shallow).weaken fun result condition =>
        opened.trans condition
    · exact .refused _
  · exact .refused _

/-- The left operand may stay as it is. -/
structure Reaches (tokens : List Token) (least : Nat) (cursor reached : Cursor) : Prop where
  depth : reached.depth = cursor.depth
  onward : cursor.position ≤ reached.position
  within : reached.position ≤ tokens.length
  stops : Stops least tokens[reached.position]?

theorem Reaches.behind {least : Nat} {next reached : Cursor}
    (reaches : Reaches tokens least next reached) (advances : Advances tokens cursor next) :
    Reaches tokens least cursor reached where
  depth := reaches.depth.trans advances.depth
  onward := Nat.le_trans (Nat.le_of_lt advances.forward) reaches.onward
  within := reaches.within
  stops := reaches.stops

/-- The operand on the left only grows, until nothing that follows binds it. The induction is on the
clock, and each step goes on where a factorial sign or a right operand ends. -/
theorem extendEnsures (returns : Returns tokens call) (clock least : Nat) (left : Expr)
    (shallow : cursor.depth ≤ Frame.depthLimit) (inside : cursor.position ≤ tokens.length) :
    (extend tokens call clock least left cursor).Ensures tokens fun result =>
      Reaches tokens least cursor result.2 := by
  induction clock generalizing left cursor with
  | zero => exact .stopped
  | succ clock inductionHypothesis =>
      have stay (stops : Stops least tokens[cursor.position]?) (left : Expr) :
          (Record.done (left, cursor)).Ensures tokens fun result =>
            Reaches tokens least cursor result.2 :=
        .done ⟨rfl, Nat.le_refl _, inside, stops⟩
      have goOn {next : Cursor} (advances : Advances tokens cursor next) (left : Expr) :
          (extend tokens call clock least left next).Ensures tokens fun result =>
            Reaches tokens least cursor result.2 := by
        refine (inductionHypothesis left ?_ advances.within).weaken fun result reaches =>
          reaches.behind advances
        rw [advances.depth]
        exact shallow
      refine (lookEnsures cursor shallow).andThen fun token here => ?_
      split
      · split
        · next strong => exact stay (here ▸ strong) left
        · exact goOn (advancesToken here) _
      · next op =>
        split
        · next strong => exact stay (here ▸ strong) left
        · exact (returns _ _).andThen fun (right, exit) result =>
            goOn ((advancesToken here).trans result.1) _
      · next mark sign =>
        refine stay ?_ left
        rw [← here, Stops]
        · trivial
        · exact mark
        · exact sign

theorem workEnsures (returns : Returns tokens call) (clock least : Nat)
    (shallow : cursor.depth ≤ Frame.depthLimit) :
    (work tokens call clock least cursor).Ensures tokens fun result =>
      Advances tokens cursor result.2 ∧ Stops least tokens[result.2.position]? := by
  refine (atomEnsures returns shallow).andThen fun (left, reached) advances => ?_
  refine (extendEnsures returns clock least left ?_ advances.within).weaken
    fun result reaches => ⟨⟨?_, ?_, reaches.within⟩, reaches.stops⟩
  · rw [advances.depth]
    exact shallow
  · exact reaches.depth.trans advances.depth
  · exact Nat.lt_of_lt_of_le advances.forward reaches.onward

/-- A call raises the depth only below its limit, and it lowers the depth again. -/
theorem expressionReturns (clock : Nat) : Returns tokens (expression tokens clock) := by
  induction clock with
  | zero => exact fun _ _ => .stopped
  | succ clock inductionHypothesis =>
      intro least entry
      rw [expression]
      split
      · next shallow =>
        refine (workEnsures inductionHypothesis clock least shallow).andThen
          fun (expr, reached) ⟨advances, stops⟩ => ?_
        have depth : reached.depth - 1 = entry.depth := by
          rw [advances.depth]
          exact Nat.add_sub_cancel _ _
        have returned : Advances tokens entry ⟨reached.position, reached.depth - 1⟩ :=
          ⟨depth, advances.forward, advances.within⟩
        constructor
        · intro event member
          rw [List.mem_singleton.mp member]
          exact returned
        · intro value same
          cases same
          exact ⟨returned, stops⟩
      · exact .refused _

theorem parseEnsures (tokens : List Token) : (parse tokens).Ensures tokens fun _ => True := by
  rw [parse]
  split
  · exact .refused _
  · split
    · exact .refused _
    · refine (expressionReturns _ 0 ⟨0, 0⟩).andThen fun (expr, exit) _ => ?_
      dsimp only
      split
      · exact .done trivial
      · exact .refused _
      · exact .refused _

end Calculator.Descent
