import FilterQuery.Proofs.Composition
import FilterQuery.Proofs.Request
import FilterQuery.Validation

/-!
Validation sees the conditions of a tree one after another and nothing of its groups. A tree is
accepted if all its conditions are; otherwise its error is that of the first condition from the left
that is not.
-/

set_option autoImplicit false

namespace FilterQuery

namespace Condition

/-- The field is registered, and the comparator, if there is one, is accepted. -/
structure Accepted (vocabulary : Vocabulary) (condition : Condition) : Prop where
  field : condition.field.text ∈ vocabulary.registry.fieldNames
  comparator : ∀ comparator ∈ condition.comparator, comparator ∈ vocabulary.comparators

/-- What is wrong with a condition that is not accepted. The comparator is to blame only where the
field is registered. -/
inductive Offends (vocabulary : Vocabulary) (condition : Condition) : ValidationError → Prop
  | field : condition.field.text ∉ vocabulary.registry.fieldNames →
      Offends vocabulary condition (.unknownField condition.field.text)
  | comparator (comparator : Text) : condition.field.text ∈ vocabulary.registry.fieldNames →
      condition.comparator = some comparator → comparator ∉ vocabulary.comparators →
        Offends vocabulary condition (.unknownComparator comparator)

/-- What validation looks at. -/
def subject (condition : Condition) : Text × Option Text :=
  (condition.field.text, condition.comparator)

variable (vocabulary : Vocabulary)

theorem validate_cases (condition : Condition) :
    (condition.validate vocabulary = .ok () ∧ condition.Accepted vocabulary) ∨
      ∃ error, condition.validate vocabulary = .error error ∧
        condition.Offends vocabulary error := by
  obtain ⟨field, comparator, values⟩ := condition
  by_cases registered : field.text ∈ vocabulary.registry.fieldNames
  · have known := (vocabulary.registry.contains_iff_mem field.text).mpr registered
    cases comparator with
    | none =>
        refine .inl ⟨?_, registered, fun _ absent => nomatch absent⟩
        rw [validate, known]
        rfl
    | some comparator =>
        by_cases listed : comparator ∈ vocabulary.comparators
        · refine .inl ⟨?_, registered, ?_⟩
          · rw [validate, known]
            exact if_pos (List.contains_iff_mem.mpr listed)
          · rintro _ ⟨⟩
            exact listed
        · refine .inr ⟨_, ?_, .comparator comparator registered rfl listed⟩
          rw [validate, known]
          exact if_neg (List.contains_iff_mem.not.mpr listed)
  · have unknown : vocabulary.registry.contains field.text = false :=
      Bool.eq_false_iff.mpr ((vocabulary.registry.contains_iff_mem field.text).not.mpr registered)
    refine .inr ⟨_, ?_, .field registered⟩
    rw [validate, unknown]
    rfl

theorem not_accepted_of_offends (condition : Condition) (error : ValidationError)
    (offends : condition.Offends vocabulary error) : ¬ condition.Accepted vocabulary := by
  intro accepted
  cases offends with
  | field unknown => exact unknown accepted.field
  | comparator comparator _ same unlisted => exact unlisted (accepted.comparator comparator same)

theorem validate_eq_ok_iff (condition : Condition) :
    condition.validate vocabulary = .ok () ↔ condition.Accepted vocabulary := by
  rcases validate_cases vocabulary condition with ⟨same, accepted⟩ | ⟨error, same, offends⟩
  · exact iff_of_true same accepted
  · rw [same]
    exact iff_of_false nofun (not_accepted_of_offends vocabulary condition error offends)

theorem offends_unique (condition : Condition) (first second : ValidationError)
    (one : condition.Offends vocabulary first) (other : condition.Offends vocabulary second) :
    first = second := by
  cases one with
  | field unknown =>
      cases other with
      | field => rfl
      | comparator _ registered => exact absurd registered unknown
  | comparator comparator registered given =>
      cases other with
      | field unknown => exact absurd registered unknown
      | comparator _ _ same => rw [Option.some.inj (given.symm.trans same)]

theorem validate_eq_error_iff (condition : Condition) (error : ValidationError) :
    condition.validate vocabulary = .error error ↔ condition.Offends vocabulary error := by
  rcases validate_cases vocabulary condition with ⟨same, accepted⟩ | ⟨found, same, offends⟩
  · rw [same]
    exact iff_of_false nofun fun offends =>
      not_accepted_of_offends vocabulary condition error offends accepted
  · rw [same, Except.error.injEq]
    constructor
    · rintro rfl
      exact offends
    · exact offends_unique vocabulary condition found error offends

theorem all_valid_iff (conditions : List Condition) :
    forM conditions (validate vocabulary) = .ok () ↔
      ∀ condition ∈ conditions, condition.Accepted vocabulary := by
  induction conditions with
  | nil => exact iff_of_true rfl (List.forall_mem_nil _)
  | cons condition rest induction =>
      rw [List.forall_mem_cons, ← validate_eq_ok_iff, ← induction, List.forM_cons]
      cases condition.validate vocabulary with
      | ok => exact (and_iff_right rfl).symm
      | error error => exact iff_of_false nofun fun accepted => nomatch accepted.1

theorem first_error_iff (conditions : List Condition) (error : ValidationError) :
    forM conditions (validate vocabulary) = .error error ↔
      ∃ before condition after, conditions = before ++ condition :: after ∧
        (∀ other ∈ before, other.Accepted vocabulary) ∧ condition.Offends vocabulary error := by
  constructor
  · intro found
    induction conditions with
    | nil => cases found
    | cons condition rest induction =>
        rw [List.forM_cons] at found
        cases here : condition.validate vocabulary with
        | error cause =>
            rw [here] at found
            obtain rfl : cause = error := Except.error.inj found
            exact ⟨[], condition, rest, rfl, List.forall_mem_nil _,
              (validate_eq_error_iff vocabulary condition cause).mp here⟩
        | ok =>
            rw [here] at found
            obtain ⟨before, offender, after, rfl, accepted, offends⟩ := induction found
            refine ⟨condition :: before, offender, after, rfl, ?_, offends⟩
            rw [List.forall_mem_cons]
            exact ⟨(validate_eq_ok_iff vocabulary condition).mp here, accepted⟩
  · rintro ⟨before, condition, after, rfl, accepted, offends⟩
    rw [List.forM_append, (all_valid_iff vocabulary before).mpr accepted, List.forM_cons,
      (validate_eq_error_iff vocabulary condition error).mpr offends]
    rfl

/-- Nothing but the fields and comparators is looked at. -/
theorem valid_of_subjects (lefts rights : List Condition)
    (same : lefts.map subject = rights.map subject) :
    forM lefts (validate vocabulary) = forM rights (validate vocabulary) := by
  have seen : ∀ conditions : List Condition, forM conditions (validate vocabulary) =
      forM (conditions.map subject) fun (field, comparator) =>
        validate vocabulary ⟨.plain field, comparator, []⟩ := by
    intro conditions
    rw [List.forM_map]
    rfl
  rw [seen, seen, same]

end Condition

namespace Tree

variable (vocabulary : Vocabulary)

theorem validate_eq_for_conditions (tree : Tree) :
    tree.validate vocabulary = forM tree.conditions (Condition.validate vocabulary) := by
  have all : ∀ trees : List Tree,
      (∀ tree ∈ trees, tree.validate vocabulary =
        forM tree.conditions (Condition.validate vocabulary)) →
      validateAll vocabulary trees =
        forM (trees.flatMap conditions) (Condition.validate vocabulary) := by
    intro trees
    induction trees with
    | nil => exact fun _ => rfl
    | cons tree rest induction =>
        intro each
        rw [validateAll, each tree (by simp),
          induction fun other member => each other (List.mem_cons_of_mem tree member),
          List.flatMap_cons, List.forM_append]
        cases forM tree.conditions (Condition.validate vocabulary) <;> rfl
  induction tree using induct with
  | condition leaf =>
      rw [validate, conditions, List.forM_cons, List.forM_nil]
      cases leaf.validate vocabulary <;> rfl
  | group operation children induction =>
      rw [validate, conditions_group]
      exact all children induction

theorem conditions_disjunction (left right : Tree) :
    (group .or (left.disjuncts ++ right.disjuncts)).conditions =
      left.conditions ++ right.conditions := by
  rw [conditions_group, List.flatMap_append, flat_map_conditions_disjuncts,
    flat_map_conditions_disjuncts]

/-- A tree is valid if every condition is accepted, and otherwise the first condition that is not
gives the error. So it is the sequence of fields and comparators that counts, and the disjunction of
two queries has the error of the first one, or else the result of the second. -/
theorem validate_by_conditions :
    (∀ tree : Tree,
      (tree.validate vocabulary = .ok () ↔
        ∀ condition ∈ tree.conditions, condition.Accepted vocabulary) ∧
      ∀ error, tree.validate vocabulary = .error error ↔
        ∃ before condition after, tree.conditions = before ++ condition :: after ∧
          (∀ other ∈ before, other.Accepted vocabulary) ∧ condition.Offends vocabulary error) ∧
    (∀ left right : Tree,
      left.conditions.map Condition.subject = right.conditions.map Condition.subject →
        left.validate vocabulary = right.validate vocabulary) ∧
    ∀ (words later : List Word) (or : Word.Token "or".toList) (left right : Tree),
      ofWords words = .ok left → ofWords later = .ok right →
        ∃ whole, ofWords (words ++ or.val :: later) = .ok whole ∧
          whole.validate vocabulary =
            match left.validate vocabulary with
            | .ok () => right.validate vocabulary
            | .error error => .error error := by
  refine ⟨?_, ?_, ?_⟩
  · intro tree
    rw [validate_eq_for_conditions]
    exact ⟨Condition.all_valid_iff vocabulary _, Condition.first_error_iff vocabulary _⟩
  · intro left right same
    rw [validate_eq_for_conditions, validate_eq_for_conditions]
    exact Condition.valid_of_subjects vocabulary _ _ same
  · intro words later or left right readsLeft readsRight
    refine ⟨_, Draft.run_disjunction words later or left right readsLeft readsRight, ?_⟩
    rw [validate_eq_for_conditions, validate_eq_for_conditions vocabulary left,
      validate_eq_for_conditions vocabulary right, conditions_disjunction, List.forM_append]
    cases forM left.conditions (Condition.validate vocabulary) <;> rfl

def fewComparators : Vocabulary := ⟨.standard, ["=".toList, ">=".toList]⟩

def single (field comparator value : String) : Condition :=
  ⟨.plain field.toList, some comparator.toList, [.plain value.toList]⟩

def misspeltWords : List Word :=
  ["not", "(", "date", ">=", "x", "and", "colour", "=", "red", "or", "date", "~", "y", ")"].map
    fun text => .plain text.toList

def misspeltTree : Tree :=
  .negate (.group .or [.group .and [.condition (single "date" ">=" "x"),
    .condition (single "colour" "=" "red")], .condition (single "date" "~" "y")])

/-- The fields and comparators of `misspeltTree` with other values and without groups inside each
other. -/
def regroupedTree : Tree :=
  .group .and [.condition (single "date" ">=" "now("), .condition (single "colour" "=" ""),
    .condition (single "date" "~" "1")]

def signWords : List Word := ["date", "~", "z"].map fun text => .plain text.toList

theorem validate_by_conditions_misspelt :
    misspeltTree.validate fewComparators = .error (.unknownField "colour".toList) ∧
      misspeltTree.validate fewComparators = regroupedTree.validate fewComparators ∧
      ofWords misspeltWords = .ok misspeltTree ∧
      ofWords signWords = .ok (.condition (single "date" "~" "z")) ∧
      ∃ whole, ofWords (misspeltWords ++ .plain "or".toList :: signWords) = .ok whole ∧
        whole.validate fewComparators = .error (.unknownField "colour".toList) := by
  obtain ⟨decides, regroups, joins⟩ := validate_by_conditions fewComparators
  have reads : ofWords misspeltWords = .ok misspeltTree := rfl
  have sign : ofWords signWords = .ok (.condition (single "date" "~" "z")) := rfl
  have refused : misspeltTree.validate fewComparators = .error (.unknownField "colour".toList) := by
    refine ((decides misspeltTree).2 _).mpr ⟨[single "date" ">=" "x"], single "colour" "=" "red",
      [single "date" "~" "y"], rfl, ?_, .field (by decide)⟩
    rw [List.forall_mem_singleton]
    exact ⟨by decide, by decide⟩
  obtain ⟨whole, accepted, validated⟩ :=
    joins misspeltWords signWords ⟨.plain "or".toList, rfl⟩ misspeltTree _ reads sign
  exact ⟨refused, regroups misspeltTree regroupedTree rfl, reads, sign, whole, accepted,
    by rw [validated, refused]⟩

end Tree

end FilterQuery
