/-
This file proves that the delete key undoes exactly one key.
-/

import Calculator.Proofs.Session.Run
import Mathlib.InformationTheory.Coding.UniquelyDecodable

namespace Calculator

namespace Session

open InformationTheory (UniquelyDecodable)

/-- Each of these characters has a key of its own. -/
def symbols : List Char :=
  "0123456789.E+-×÷*/^!()π".toList

/-- A key writes one of these units. -/
def keypad : List (List Char) :=
  keys ++ symbols.map fun c => [c]

/-- A text is entered with one key. -/
def Action.isKeyed : Action → Bool
  | .enter text => keypad.contains text.toList
  | _ => true

/-- The keys have written the text. -/
structure Typed (units : List (List Char)) (text : String) : Prop where
  keyed : ∀ unit ∈ units, unit ∈ keypad
  written : text.toList = units.flatten

/-- These are the keys in the expression after an action. -/
def pressed (session : Session) (units : List (List Char)) : Action → List (List Char)
  | .enter text =>
    if session.result.isEmpty then units ++ [text.toList]
    else if continues text then ["Ans".toList, text.toList]
    else [text.toList]
  | .delete => units.dropLast
  | .clear => []
  | .execute | .toggleFormat | .setAngle _ => units

variable {unit key : List Char} {units : List (List Char)} {text : String}

section Units

theorem keypadSolid : ∀ unit ∈ keypad, unit ≠ [] ∧ ' ' ∉ unit := by
  decide +kernel

theorem keypadBegins : ∀ unit ∈ keypad, ∀ other ∈ keypad, unit <+: other → unit = other := by
  decide +kernel

/-- A unit that meets the end of a word key is the word or its opening parenthesis. No unit meets
the end of what stands before the parenthesis. -/
theorem keypadEnds : ∀ key ∈ keys, ∀ unit ∈ keypad, key <:+ unit ∨ unit <:+ key →
    unit = key ∨ (unit = ['('] ∧ key = key.dropLast ++ ['('] ∧ key.dropLast ≠ [] ∧
      ∀ before ∈ keypad, ¬(key.dropLast <:+ before ∨ before <:+ key.dropLast)) := by
  decide +kernel

/-- No unit begins another one, so a text is read from its start in one way. -/
theorem keypadDecodable : UniquelyDecodable {unit | unit ∈ keypad} := by
  have empty {units : List (List Char)} (keyed : ∀ unit ∈ units, unit ∈ keypad)
      (nothing : units.flatten = []) : units = [] := by
    cases units with
    | nil => rfl
    | cons unit units =>
        have solid := keypadSolid unit (keyed unit List.mem_cons_self)
        exact absurd (List.append_eq_nil_iff.mp nothing).1 solid.1
  intro units others keyed otherKeyed same
  induction units generalizing others with
  | nil => exact (empty otherKeyed same.symm).symm
  | cons unit units inductionHypothesis =>
      cases others with
      | nil => exact empty keyed same
      | cons other others =>
          have unitKeyed := keyed unit List.mem_cons_self
          have firstKeyed := otherKeyed other List.mem_cons_self
          rw [List.flatten_cons, List.flatten_cons] at same
          have begins : unit <+: other ∨ other <+: unit :=
            List.prefix_or_prefix_of_prefix (List.prefix_append unit units.flatten)
              (same ▸ List.prefix_append other others.flatten)
          obtain rfl : unit = other := by
            rcases begins with shorter | longer
            · exact keypadBegins unit unitKeyed other firstKeyed shorter
            · exact (keypadBegins other firstKeyed unit unitKeyed longer).symm
          rw [inductionHypothesis others (fun unit member => keyed unit (.tail _ member))
            (fun unit member => otherKeyed unit (.tail _ member)) (List.append_cancel_left same)]

end Units

section Text

theorem Typed.nothing : Typed [] "" :=
  ⟨List.forall_mem_nil _, rfl⟩

theorem typedKey (key : text.toList ∈ keypad) : Typed [text.toList] text :=
  ⟨List.forall_mem_singleton.mpr key, List.flatten_singleton.symm⟩

theorem Typed.append {others : List (List Char)} {rest : String} (typed : Typed units text)
    (next : Typed others rest) : Typed (units ++ others) (text ++ rest) where
  keyed := List.forall_mem_append.mpr ⟨typed.keyed, next.keyed⟩
  written := by rw [String.toList_append, typed.written, next.written, List.flatten_append]

theorem Typed.unique {others : List (List Char)} (typed : Typed units text)
    (other : Typed others text) : others = units :=
  keypadDecodable others units other.keyed typed.keyed (other.written.symm.trans typed.written)

end Text

section Delete

/-- A word key at the end of a text is its last unit, also after any other units. -/
theorem lastKey (keyed : ∀ before ∈ units, before ∈ keypad) (last : unit ∈ keypad)
    (member : key ∈ keys) (ends : key <:+ units.flatten ++ unit) : unit = key := by
  have meets := List.suffix_or_suffix_of_suffix ends (List.suffix_append units.flatten unit)
  rcases keypadEnds key member unit last meets with same | ⟨rfl, whole, present, apart⟩
  · exact same
  · -- Without the parenthesis the word has to end inside the units before it.
    generalize key.dropLast = word at whole present apart
    obtain ⟨start, split⟩ := whole ▸ ends
    rw [← List.append_assoc] at split
    have wordEnds : word <:+ units.flatten := ⟨start, List.append_cancel_right split⟩
    rcases units.eq_nil_or_concat' with rfl | ⟨earlier, before, rfl⟩
    · exact absurd (List.suffix_nil.mp wordEnds) present
    · rw [List.flatten_concat] at wordEnds
      have beforeMeets :=
        List.suffix_or_suffix_of_suffix wordEnds (List.suffix_append earlier.flatten before)
      exact absurd beforeMeets (apart before (keyed before (by simp)))

theorem dropKeyLast (keyed : ∀ before ∈ units, before ∈ keypad) (last : unit ∈ keypad) :
    dropKey (units.flatten ++ unit) = units.flatten := by
  rw [dropKey]
  cases found : keys.find? fun key => key.isSuffixOf (units.flatten ++ unit) with
  | some key =>
      have ends : key <:+ units.flatten ++ unit := by
        simpa using List.find?_some found
      obtain rfl := lastKey keyed last (List.mem_of_find?_eq_some found) ends
      simp
  | none =>
      rcases List.mem_append.mp last with word | single
      · have absent := List.find?_eq_none.mp found unit word
        exact absurd (List.isSuffixOf_iff_suffix.mpr (List.suffix_append _ _)) absent
      · obtain ⟨c, _, rfl⟩ := List.mem_map.mp single
        exact List.dropLast_concat

/-- The keys write no spaces. -/
theorem dropSpacesTyped (keyed : ∀ unit ∈ units, unit ∈ keypad) :
    dropSpaces units.flatten = units.flatten := by
  have solid : ' ' ∉ units.flatten := by
    rw [List.mem_flatten]
    rintro ⟨unit, member, space⟩
    exact (keypadSolid unit (keyed unit member)).2 space
  rw [dropSpaces, List.dropWhile_eq_self_iff.mpr, List.reverse_reverse]
  intro present space
  have member := List.getElem_mem present
  rw [beq_iff_eq.mp space, List.mem_reverse] at member
  exact solid member

theorem dropKeyTyped (keyed : ∀ unit ∈ units, unit ∈ keypad) :
    dropKey (dropSpaces units.flatten) = units.dropLast.flatten := by
  rw [dropSpacesTyped keyed]
  rcases units.eq_nil_or_concat' with rfl | ⟨before, unit, rfl⟩
  · decide +kernel
  · rw [List.flatten_concat, List.dropLast_concat]
    exact dropKeyLast (fun other member => keyed other (by simp [member])) (keyed unit (by simp))

end Delete

section Step

variable {session : Session}

/-- A key comes after the others, or it starts a new list after a result. -/
theorem enterTyped (typed : Typed units session.expression) (key : text.toList ∈ keypad) :
    Typed (session.pressed units (.enter text)) (session.enter text).expression := by
  have last := typedKey key
  have answer : Typed ["Ans".toList] "Ans" := typedKey (by decide +kernel)
  rw [enter, pressed]
  split
  · exact typed.append last
  · split
    · exact answer.append last
    · exact last

/-- Each action changes the list of keys as a whole. -/
theorem performTyped {action : Action} (typed : Typed units session.expression)
    (keyed : action.isKeyed) :
    Typed (session.pressed units action) (session.perform action).1.expression := by
  cases action with
  | enter text => exact enterTyped typed (List.contains_iff_mem.mp keyed)
  | delete =>
      refine ⟨fun unit member => typed.keyed unit (List.mem_of_mem_dropLast member), ?_⟩
      show (String.ofList _).toList = _
      rw [String.toList_ofList, typed.written, dropKeyTyped typed.keyed]
      rfl
  | clear => exact .nothing
  | execute =>
      show Typed units session.execute.1.expression
      rw [execute]
      split <;> exact typed
  | toggleFormat | setAngle _ => exact typed

end Step

section Run

theorem runTyped {session : Session} {actions : List Action}
    (typed : Typed units session.expression) (keyed : ∀ action ∈ actions, action.isKeyed) :
    ∃ units, Typed units (session.run actions).1.expression := by
  induction actions generalizing session units with
  | nil => exact ⟨units, typed⟩
  | cons action actions inductionHypothesis =>
      have next := performTyped typed (keyed action List.mem_cons_self)
      exact inductionHypothesis next fun later member => keyed later (.tail _ member)

/-- An expression that is entered key by key is written by exactly one list of keys. The delete key
takes the last of them and clears the result, the keys that enter nothing keep them all, and the
next key comes last. -/
theorem deleteLastKey (settings : Settings) (first : Float) {actions : List Action}
    (keyed : ∀ action ∈ actions, action.isKeyed) :
    let reached := (({ answer := first, settings := settings } : Session).run actions).1
    ∃ units, Typed units reached.expression ∧
      (∀ others, Typed others reached.expression → others = units) ∧
      Typed units.dropLast reached.delete.expression ∧ reached.delete.ShowsNothing ∧
      Typed units reached.execute.1.expression ∧ Typed units reached.toggleFormat.expression ∧
      (∀ unit, Typed units (reached.setAngle unit).expression) ∧
      ∀ text, text.toList ∈ keypad →
        Typed (reached.pressed units (.enter text)) (reached.enter text).expression := by
  intro reached
  obtain ⟨units, typed⟩ : ∃ units, Typed units reached.expression :=
    runTyped .nothing keyed
  have step (action : Action) (keyed : action.isKeyed) := performTyped typed keyed
  exact ⟨units, typed, fun others => typed.unique, step .delete rfl, ⟨rfl, rfl⟩,
    step .execute rfl, step .toggleFormat rfl, fun unit => step (.setAngle unit) rfl,
    fun text => enterTyped typed⟩

/-- An opening parenthesis after the last answer is deleted alone. -/
theorem deleteLastKeyParenthesis :
    let actions : List Action := [.enter "2", .execute, .enter "Ans", .enter "("]
    (∀ action ∈ actions, action.isKeyed) ∧
      (({} : Session).run actions).1.delete.expression = "Ans" := by
  intro actions
  have keyed : ∀ action ∈ actions, action.isKeyed := by decide +kernel
  obtain ⟨units, typed, unique, deleted, _⟩ := deleteLastKey {} 0 keyed
  have written : Typed ["Ans".toList, ['(']] (({} : Session).run actions).1.expression :=
    ⟨by decide +kernel, by decide +kernel⟩
  rw [← unique _ written] at deleted
  exact ⟨keyed, String.toList_injective deleted.written⟩

end Run

end Session

end Calculator
