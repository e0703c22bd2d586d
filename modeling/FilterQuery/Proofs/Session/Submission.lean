import FilterQuery.Proofs.Draft.Unmarked
import FilterQuery.Proofs.Tree.Wire
import FilterQuery.Proofs.Validation
import FilterQuery.Session
import Mathlib

/-!
What the filter box shows is what a submission does. A pass compiles its input with a cursor and a
submission compiles it without one; the cursor changes neither whether there is an error nor its
message, and of the tree it changes nothing but cursors.
-/

set_option autoImplicit false

namespace FilterQuery

/-- Only texts and comparators are looked at. -/
@[simp] theorem Tree.validate_unmarked (vocabulary : Vocabulary) (tree : Tree) :
    tree.unmarked.validate vocabulary = tree.validate vocabulary := by
  rw [validate_eq_for_conditions, validate_eq_for_conditions]
  apply Condition.valid_of_subjects
  rw [unmarked, map_words_eq_map_conditions, conditions_map_conditions, List.map_map]
  rfl

namespace Compiled

def unmarked (compiled : Compiled) : Compiled :=
  ⟨compiled.tree.map Tree.unmarked, compiled.syntaxError.map SyntaxError.unmarked,
    compiled.validationError⟩

@[simp]
theorem is_valid_unmarked (compiled : Compiled) : compiled.unmarked.isValid = compiled.isValid := by
  rw [isValid, isValid, unmarked, Option.isSome_map, Option.isNone_map]

@[simp] theorem diagnostic_unmarked (compiled : Compiled) :
    compiled.unmarked.diagnostic = compiled.diagnostic := by
  obtain ⟨tree, syntaxError, validationError⟩ := compiled
  cases syntaxError with
  | none => rfl
  | some error => exact congrArg some error.message_unmarked

/-- The tree is missing only together with a syntax error. -/
def Explained (compiled : Compiled) : Prop :=
  compiled.tree = none → compiled.syntaxError ≠ none

theorem is_valid_iff (compiled : Compiled) (explained : compiled.Explained) :
    compiled.isValid = true ↔ compiled.diagnostic = none := by
  obtain ⟨tree, syntaxError, validationError⟩ := compiled
  cases syntaxError with
  | some error => simp [isValid, diagnostic]
  | none =>
      cases tree with
      | none => exact absurd rfl (explained rfl)
      | some tree => cases validationError <;> simp [isValid, diagnostic]

end Compiled

namespace Session

/-- What an input that stands for itself is understood as. -/
def understand (session : Session) (input : Text) (cursor : Option Nat) : Compiled :=
  let (tree, syntaxError) := match Tree.ofText input cursor with
    | .ok tree => (some tree, none)
    | .error error => (error.understood, some { error with understood := none })
  let validationError := match tree.map (Tree.validate session.vocabulary) with
    | some (.error error) => some error
    | _ => none
  ⟨tree, syntaxError, validationError⟩

theorem compile_eq (session : Session) (input : Text) (cursor : Option Nat) :
    session.compile input cursor =
      session.understand (session.effectiveInput input cursor).1
        (session.effectiveInput input cursor).2 := rfl

theorem understand_unmarked (session : Session) (input : Text) (cursor : Option Nat) :
    session.understand input none = (session.understand input cursor).unmarked := by
  rw [understand, understand, Tree.of_text_without_cursor input cursor]
  cases Tree.ofText input cursor with
  | ok tree =>
      simp only [unmarkedOutcome, Option.map_some, Tree.validate_unmarked]
      rfl
  | error error =>
      obtain ⟨cause, understood⟩ := error
      cases understood with
      | none => rfl
      | some tree =>
          simp only [unmarkedOutcome, SyntaxError.unmarked, Option.map_some,
            Tree.validate_unmarked]
          rfl

theorem compile_unmarked (session : Session) (input : Text) (cursor : Option Nat) :
    session.compile input none = (session.compile input cursor).unmarked := by
  rw [compile_eq, compile_eq, effectiveInput, effectiveInput]
  split
  · exact session.understand_unmarked _ none
  · exact session.understand_unmarked input cursor

theorem compile_explained (session : Session) (input : Text) (cursor : Option Nat) :
    (session.compile input cursor).Explained := by
  rw [compile_eq, Compiled.Explained, understand]
  cases Tree.ofText _ _ with
  | ok tree => exact fun absent => nomatch absent
  | error error => exact fun _ absent => nomatch absent

theorem compiled_input (session : Session) (input : Text) (cursor : Option Nat) :
    (session.input input cursor).2.1.compiled = session.compile input cursor := by
  have same : compile { session with version := session.version + 1 } input cursor =
      session.compile input cursor := rfl
  unfold Session.input
  dsimp only
  rw [same]
  split
  · rfl
  · split <;> rfl

theorem submit_behind_input (session : Session) (input other : Text) (cursor : Option Nat) :
    (session.input input cursor).1.submit other = session.submit other := by
  unfold Session.input
  dsimp only
  split
  · rfl
  · split <;> rfl

/-- A submission fails exactly with the diagnostic that is shown, and otherwise writes the tree. -/
theorem submit_cases (session : Session) (input : Text) :
    (∃ diagnostic, (session.compile input none).diagnostic = some diagnostic ∧
      session.submit input = .error (.invalidFilter diagnostic)) ∨
    ∃ tree, (session.compile input none).diagnostic = none ∧
      (session.compile input none).tree = some tree ∧ session.submit input = .ok tree.write := by
  have explained := session.compile_explained input none
  rw [submit]
  generalize session.compile input none = compiled at explained ⊢
  obtain ⟨tree, syntaxError, validationError⟩ := compiled
  cases syntaxError with
  | some error => exact .inl ⟨error.message, rfl, rfl⟩
  | none =>
      cases validationError with
      | some error => exact .inl ⟨error.message, rfl, rfl⟩
      | none =>
          cases tree with
          | some tree => exact .inr ⟨tree, rfl, rfl, rfl⟩
          | none => exact absurd rfl (explained rfl)

theorem submit_ok_iff (session : Session) (input : Text) :
    (∃ json, session.submit input = .ok json) ↔ (session.compile input none).isValid = true := by
  rw [Compiled.is_valid_iff _ (session.compile_explained input none)]
  obtain ⟨diagnostic, shown, fails⟩ | ⟨tree, shown, _, succeeds⟩ := session.submit_cases input
  · rw [shown, fails]
    constructor
    · rintro ⟨json, absent⟩
      cases absent
    · intro absent
      cases absent
  · rw [shown, succeeds]
    exact ⟨fun _ => rfl, fun _ => ⟨tree.write, rfl⟩⟩

theorem diagnostic_of_submit (session : Session) (input : Text) (failure : Failure)
    (failed : session.submit input = .error failure) :
    ∃ diagnostic, (session.compile input none).diagnostic = some diagnostic ∧
      failure = .invalidFilter diagnostic := by
  obtain ⟨diagnostic, shown, fails⟩ | ⟨tree, _, _, succeeds⟩ := session.submit_cases input
  · rw [fails] at failed
    exact ⟨diagnostic, shown, (Except.error.inj failed).symm⟩
  · rw [succeeds] at failed
    cases failed

theorem tree_of_submit (session : Session) (input json : Text)
    (accepted : session.submit input = .ok json) :
    ∃ tree, (session.compile input none).tree = some tree ∧ json = tree.write := by
  obtain ⟨diagnostic, _, fails⟩ | ⟨tree, _, here, succeeds⟩ := session.submit_cases input
  · rw [fails] at accepted
    cases accepted
  · rw [succeeds] at accepted
    exact ⟨tree, here, (Except.ok.inj accepted).symm⟩

/-- A submission succeeds exactly when the pass of its input is valid, wherever the cursor was. It
fails with the diagnostic of the pass, and it writes the tree of the pass with every cursor
removed. -/
theorem submission_matches_pass (session : Session) (input : Text) (cursor : Option Nat) :
    let pass := (session.input input cursor).2.1
    (session.input input cursor).1.submit input = session.submit input ∧
    ((∃ json, session.submit input = .ok json) ↔ pass.compiled.isValid = true) ∧
    (∀ failure, session.submit input = .error failure →
      ∃ diagnostic, pass.compiled.diagnostic = some diagnostic ∧
        failure = .invalidFilter diagnostic ∧
        failure.message = "invalid filter: ".toList ++ diagnostic) ∧
    ∀ json, session.submit input = .ok json →
      ∃ tree, pass.compiled.tree = some tree ∧ json = tree.unmarked.toJson.write ∧
        ∀ value ∈ tree.unmarked.toJson.under "beingTyped".toList, value = .integer (-1) := by
  intro pass
  have compiled : pass.compiled = session.compile input cursor :=
    session.compiled_input input cursor
  have blind := session.compile_unmarked input cursor
  rw [← compiled] at blind
  refine ⟨session.submit_behind_input input input cursor, ?_, ?_, ?_⟩
  · rw [submit_ok_iff, blind, Compiled.is_valid_unmarked]
  · intro failure failed
    obtain ⟨diagnostic, shown, rfl⟩ := session.diagnostic_of_submit input failure failed
    rw [blind, Compiled.diagnostic_unmarked] at shown
    exact ⟨diagnostic, shown, rfl, rfl⟩
  · intro json accepted
    obtain ⟨written, here, rfl⟩ := session.tree_of_submit input json accepted
    rw [blind] at here
    obtain ⟨tree, found, rfl⟩ := Option.map_eq_some_iff.mp here
    exact ⟨tree, found, rfl, tree.under_to_json_unmarked⟩

end Session

end FilterQuery
