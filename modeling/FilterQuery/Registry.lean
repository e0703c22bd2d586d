import FilterQuery.Catalog
import FilterQuery.DateCall
import FilterQuery.Target

/-!
The fields that can be filtered by, each with the source of suggestions for its values, and the one
request for suggestions that a tree leads to.
-/

set_option autoImplicit false

namespace FilterQuery

inductive Source where
  | catalog (kind : Catalog.Kind)
  | date
  /-- Answers like the source inside it, but later. -/
  | deferred (inner : Source)
  /-- Has candidates of its own, but a request is answered from outside at any later time. -/
  | external (candidates : Text → List Text)

namespace Source

def candidates (source : Source) (catalog : Catalog) (typed : Text) : List Text :=
  match source with
  | .catalog kind => catalog.lookup kind typed
  | .date => DateCall.candidates typed
  | .deferred inner => inner.candidates catalog typed
  | .external candidates => candidates typed

end Source

/-- What becomes of a request: it is answered at once, or by a source at a later time, or from
outside. -/
inductive Answer where
  | ready (candidates : List Text)
  | deferred (source : Source) (typed : Text)
  | external (typed : Text)

def Source.advise (source : Source) (catalog : Catalog) (typed : Text) : Answer :=
  match source with
  | .deferred inner => .deferred inner typed
  | .external _ => .external typed
  | source => .ready (source.candidates catalog typed)

/-- Fields in the order in which they are suggested. -/
structure Registry where
  fields : List (Text × Source)

namespace Registry

def empty : Registry := ⟨[]⟩

/-- Writes the source of a field in its place, or behind all others if the field is new. -/
def insert (name : Text) (source : Source) : List (Text × Source) → List (Text × Source)
  | [] => [(name, source)]
  | (field, old) :: rest =>
      if field = name then (field, source) :: rest else (field, old) :: insert name source rest

def add (registry : Registry) (name : Text) (source : Source) : Registry :=
  ⟨insert name source registry.fields⟩

def addAll (registry : Registry) (fields : List (Text × Source)) : Registry :=
  fields.foldl (fun registry (name, source) => registry.add name source) registry

def standard : Registry :=
  empty.addAll [("pod_name".toList, .catalog .podNames),
    ("service_name".toList, .catalog .serviceNames),
    ("namespace".toList, .catalog .namespaces),
    ("pod_info".toList, .catalog .serviceNames),
    ("rc_info".toList, .catalog .serviceNames),
    ("dc_info".toList, .catalog .serviceNames),
    ("date".toList, .deferred .date)]

def fieldNames (registry : Registry) : List Text := registry.fields.map Prod.fst

def contains (registry : Registry) (name : Text) : Bool :=
  registry.fields.any fun (field, _) => field == name

def source? (registry : Registry) (name : Text) : Option Source :=
  (registry.fields.find? fun (field, _) => field == name).map Prod.snd

@[simp] theorem source?_add (registry : Registry) (name field : Text) (source : Source) :
    (registry.add name source).source? field =
      if name = field then some source else registry.source? field := by
  simp only [source?, add]
  induction registry.fields with
  | nil => by_cases same : name = field <;> simp [insert, same]
  | cons entry rest induction =>
      obtain ⟨old, oldSource⟩ := entry
      by_cases replaced : old = name
      · subst replaced
        by_cases same : old = field <;> simp [insert, same]
      · by_cases found : old = field
        · subst found
          simp [insert, replaced, Ne.symm replaced]
        · simpa [insert, replaced, found] using induction

/-- A new field stands behind all others, a field that is replaced keeps its place. -/
theorem field_names_add (registry : Registry) (name : Text) (source : Source) :
    (registry.add name source).fieldNames =
      bif registry.contains name then registry.fieldNames else registry.fieldNames ++ [name] := by
  obtain ⟨fields⟩ := registry
  simp only [fieldNames, add, contains]
  induction fields with
  | nil => rfl
  | cons entry rest induction =>
      obtain ⟨old, oldSource⟩ := entry
      by_cases replaced : old = name
      · simp [insert, replaced]
      · rw [insert, if_neg replaced, List.map_cons, induction, List.any_cons,
          beq_eq_false_iff_ne.mpr replaced, Bool.false_or, List.map_cons]
        cases rest.any fun (field, _) => field == name <;> rfl

def matchingFields (registry : Registry) (typed : Text) : List Text :=
  registry.fieldNames.filter fun name => Text.occursIn typed name

/-- The request for the word being typed. A value of a field without a source leads to none. -/
def request (registry : Registry) (catalog : Catalog) (tree : Tree) : Option (Target × Answer) :=
  match tree.target with
  | none => none
  | some target =>
      match target.slot with
      | .field => some (target, .ready (registry.matchingFields target.typed))
      | .value _ =>
          (registry.source? target.field).map fun source =>
            (target, source.advise catalog target.typed)

end Registry

end FilterQuery
