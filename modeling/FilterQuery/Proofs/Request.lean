import FilterQuery.Registry
import Mathlib

/-!
The request for suggestions step by step. The fields stand in the order in which they were first
registered, each with the source that was registered last. A request calls its continuation once or
hands it to one source; where there is no target nothing is called and no source is asked.
-/

set_option autoImplicit false

namespace FilterQuery

/-- What is done with the continuation of a request. -/
inductive Call (Continuation : Type) where
  /-- It is called with candidates. -/
  | answered (continuation : Continuation) (candidates : List Text)
  /-- A source takes it over, together with what was typed. -/
  | advised (source : Source) (typed : Text) (continuation : Continuation)

def Call.answer {Continuation : Type} (catalog : Catalog) : Call Continuation → Answer
  | .answered _ candidates => .ready candidates
  | .advised source typed _ => source.advise catalog typed

namespace Registry

@[simp] theorem is_some_source? (registry : Registry) (name : Text) :
    (registry.source? name).isSome = registry.contains name := by
  rw [source?, contains, Option.isSome_map, List.isSome_find?]

theorem contains_iff_mem (registry : Registry) (name : Text) :
    registry.contains name = true ↔ name ∈ registry.fieldNames := by
  simp [contains, fieldNames]

def ofList (registrations : List (Text × Source)) : Registry := empty.addAll registrations

theorem of_list_concat (registrations : List (Text × Source)) (name : Text) (source : Source) :
    ofList (registrations ++ [(name, source)]) = (ofList registrations).add name source :=
  List.foldl_append

theorem field_names_of_list (registrations : List (Text × Source)) :
    (ofList registrations).fieldNames = (registrations.map Prod.fst).eraseDups := by
  induction registrations using List.reverseRecOn with
  | nil => rfl
  | append_singleton registrations last induction =>
      obtain ⟨name, source⟩ := last
      have known : (ofList registrations).contains name = true ↔
          name ∈ registrations.map Prod.fst := by
        rw [contains_iff_mem, induction, List.mem_eraseDups]
      rw [of_list_concat, field_names_add, induction, List.map_append, List.eraseDups_append]
      by_cases earlier : name ∈ registrations.map Prod.fst
      · rw [known.mpr earlier]
        simp [List.removeAll, earlier]
      · rw [Bool.eq_false_iff.mpr (known.not.mpr earlier)]
        simp [List.removeAll, earlier, List.eraseDups_cons]

theorem source?_of_list (registrations : List (Text × Source)) (name : Text) :
    (ofList registrations).source? name = registrations.reverse.lookup name := by
  induction registrations using List.reverseRecOn with
  | nil => rfl
  | append_singleton registrations last induction =>
      obtain ⟨field, source⟩ := last
      rw [of_list_concat, source?_add, induction, List.reverse_concat, List.lookup_cons]
      by_cases same : field = name
      · simp [same]
      · rw [if_neg same, beq_eq_false_iff_ne.mpr (Ne.symm same)]

variable {Continuation : Type}

/-- Makes the request for the word being typed, with all that is done on the way. -/
def perform (registry : Registry) (continuation : Continuation) (tree : Tree) :
    StateM (List (Call Continuation)) (Option Target) := do
  let some target := tree.target | return none
  match target.slot with
  | .field =>
      modify (· ++ [.answered continuation (registry.matchingFields target.typed)])
  | .value _ =>
      let some source := registry.source? target.field | return none
      modify (· ++ [.advised source target.typed continuation])
  return some target

theorem matching_fields_eq (registry : Registry) (typed : Text) :
    registry.matchingFields typed = registry.fieldNames.filter fun name => typed <:+: name := by
  apply List.filter_congr
  intro name _
  rw [Bool.eq_iff_iff, Text.occurs_in_iff, decide_eq_true_iff]

/-- All that a request can come to, with the target that it has and the calls that it makes. -/
inductive Performs (registry : Registry) (continuation : Continuation) (tree : Tree) :
    Option Target → List (Call Continuation) → Prop
  | field (target : Target) : tree.target = some target → target.slot = .field →
      Performs registry continuation tree (some target)
        [.answered continuation (registry.matchingFields target.typed)]
  | value (target : Target) (index : Nat) (source : Source) : tree.target = some target →
      target.slot = .value index → registry.source? target.field = some source →
        Performs registry continuation tree (some target)
          [.advised source target.typed continuation]
  | nothing : (∀ target, tree.target = some target →
      target.slot ≠ .field ∧ registry.contains target.field = false) →
        Performs registry continuation tree none []

theorem performs (registry : Registry) (continuation : Continuation) (tree : Tree)
    (calls : List (Call Continuation)) :
    ∃ found made, (registry.perform continuation tree).run calls = (found, calls ++ made) ∧
      registry.Performs continuation tree found made := by
  cases typed : tree.target with
  | none =>
      refine ⟨none, [], ?_, .nothing fun _ found => by rw [typed] at found; cases found⟩
      rw [perform, typed, List.append_nil]
      rfl
  | some target =>
      cases slot : target.slot with
      | field =>
          refine ⟨some target, _, ?_, .field target typed slot⟩
          simp only [perform, typed, slot]
          rfl
      | value index =>
          cases listed : registry.source? target.field with
          | none =>
              refine ⟨none, [], ?_, .nothing fun _ found => ?_⟩
              · simp only [perform, typed, slot, listed, List.append_nil]
                rfl
              · obtain rfl := Option.some.inj (typed.symm.trans found)
                rw [slot, ← is_some_source?, listed]
                exact ⟨nofun, rfl⟩
          | some source =>
              refine ⟨some target, _, ?_, .value target index source typed slot listed⟩
              simp only [perform, typed, slot, listed]
              rfl

section Performs

variable {registry : Registry} {continuation : Continuation} {tree : Tree}
  {found : Option Target} {made : List (Call Continuation)}
  (performs : registry.Performs continuation tree found made)

include performs

theorem found_iff (target : Target) :
    found = some target ↔ tree.target = some target ∧
      (target.slot = .field ∨ registry.contains target.field = true) := by
  cases performs with
  | field first typed slot =>
      rw [typed, iff_self_and]
      rintro same
      obtain rfl := Option.some.inj same
      exact .inl slot
  | value first index source typed slot listed =>
      rw [typed, iff_self_and]
      rintro same
      obtain rfl := Option.some.inj same
      rw [← is_some_source?, listed]
      exact .inr rfl
  | nothing unlisted =>
      refine ⟨nofun, ?_⟩
      rintro ⟨typed, field | listed⟩
      · exact absurd field (unlisted target typed).1
      · rw [(unlisted target typed).2] at listed
        cases listed

theorem made_of_field (target : Target) (same : found = some target)
    (field : target.slot = .field) :
    made = [.answered continuation (registry.matchingFields target.typed)] := by
  cases performs with
  | field first typed slot =>
      obtain rfl := Option.some.inj same
      rfl
  | value first index source typed slot listed =>
      obtain rfl := Option.some.inj same
      rw [slot] at field
      cases field
  | nothing unlisted => cases same

theorem made_of_value (target : Target) (index : Nat) (same : found = some target)
    (value : target.slot = .value index) :
    ∃ source, registry.source? target.field = some source ∧
      made = [.advised source target.typed continuation] := by
  cases performs with
  | field first typed slot =>
      obtain rfl := Option.some.inj same
      rw [slot] at value
      cases value
  | value first index source typed slot listed =>
      obtain rfl := Option.some.inj same
      exact ⟨source, listed, rfl⟩
  | nothing unlisted => cases same

theorem made_of_nothing (absent : found = none) : made = [] := by
  cases performs with
  | field | value => cases absent
  | nothing => rfl

theorem request_of_performs (catalog : Catalog) :
    registry.request catalog tree =
      found.bind fun target => made.head?.map fun call => (target, call.answer catalog) := by
  cases performs with
  | field target typed slot =>
      simp only [request, typed, slot]
      rfl
  | value target index source typed slot listed =>
      simp only [request, typed, slot, listed]
      rfl
  | nothing unlisted =>
      cases typed : tree.target with
      | none =>
          rw [request, typed]
          rfl
      | some target =>
          obtain ⟨other, absent⟩ := unlisted target typed
          rw [← is_some_source?, Option.isSome_eq_false_iff, Option.isNone_iff_eq_none] at absent
          cases slot : target.slot with
          | field => exact absurd slot other
          | value index =>
              simp only [request, typed, slot, absent]
              rfl

end Performs

/-- The registered fields are the distinct names in the order in which they were first registered,
each with the source registered last. Where the word being typed is a field or belongs to a field
that is registered there is one call: for a field with the names that hold what was typed, for a
value to the source of its field. Otherwise there is no call and no target. -/
theorem one_request_to_last_source (registrations : List (Text × Source)) :
    (ofList registrations).fieldNames = (registrations.map Prod.fst).eraseDups ∧
    (∀ name, (ofList registrations).source? name = registrations.reverse.lookup name ∧
      ((ofList registrations).source? name).isSome = (ofList registrations).contains name) ∧
    ∀ (continuation : Continuation) (tree : Tree) (calls : List (Call Continuation)),
      ∃ found made,
        ((ofList registrations).perform continuation tree).run calls = (found, calls ++ made) ∧
        (∀ target, found = some target ↔ tree.target = some target ∧
          (target.slot = .field ∨ (ofList registrations).contains target.field = true)) ∧
        (∀ target, found = some target → target.slot = .field →
          made = [.answered continuation
            ((registrations.map Prod.fst).eraseDups.filter fun name => target.typed <:+: name)]) ∧
        (∀ target index, found = some target → target.slot = .value index →
          ∃ source, registrations.reverse.lookup target.field = some source ∧
            made = [.advised source target.typed continuation]) ∧
        (found = none → made = []) ∧
        ∀ catalog, (ofList registrations).request catalog tree =
          found.bind fun target => made.head?.map fun call => (target, call.answer catalog) := by
  have names := field_names_of_list registrations
  have sources := source?_of_list registrations
  refine ⟨names, fun name => ⟨sources name, is_some_source? _ name⟩,
    fun continuation tree calls => ?_⟩
  obtain ⟨found, made, run, performs⟩ := (ofList registrations).performs continuation tree calls
  refine ⟨found, made, run, found_iff performs, fun target same field => ?_,
    fun target index same value => ?_, made_of_nothing performs, request_of_performs performs⟩
  · rw [made_of_field performs target same field, matching_fields_eq, names]
  · rw [← sources]
    exact made_of_value performs target index same value

/-- A source from outside that offers what was typed. -/
def echo : Source := .external fun typed => [typed]

def replacedFields : List (Text × Source) :=
  [("a".toList, .catalog .podNames), ("ba".toList, .date), ("a".toList, echo)]

def replacedFieldTree : Tree :=
  .condition ⟨.plain "a".toList, some "=".toList, [(Word.plain "xy".toList).withCursor 1]⟩

theorem one_request_to_last_source_replaced :
    (ofList replacedFields).fieldNames = ["a".toList, "ba".toList] ∧
      replacedFieldTree.target = some ⟨[], .value 0, "a".toList, "x".toList⟩ ∧
      ((ofList replacedFields).perform () replacedFieldTree).run [] =
        (some ⟨[], .value 0, "a".toList, "x".toList⟩, [.advised echo "x".toList ()]) := by
  have typed : replacedFieldTree.target = some ⟨[], .value 0, "a".toList, "x".toList⟩ := rfl
  obtain ⟨names, _, requests⟩ := @one_request_to_last_source Unit replacedFields
  obtain ⟨found, made, run, same, _, advised, _⟩ := requests () replacedFieldTree []
  obtain rfl := (same _).mpr ⟨typed, .inr (by decide)⟩
  obtain ⟨source, last, rfl⟩ := advised _ 0 rfl rfl
  obtain rfl : echo = source := Option.some.inj last
  exact ⟨names, typed, run⟩

end Registry

end FilterQuery
