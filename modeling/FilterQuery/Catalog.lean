import FilterQuery.Failure
import FilterQuery.Json.Reader
import FilterQuery.Json.Record
import FilterQuery.Text.Lowercase

/-!
The names that are known to exist, and looking them up by a part of a name in any case.
-/

set_option autoImplicit false

namespace FilterQuery

structure Catalog where
  podNames : List Text
  serviceNames : List Text
  namespaces : List Text
deriving DecidableEq

namespace Catalog

inductive Kind where
  | podNames
  | serviceNames
  | namespaces
deriving DecidableEq

def empty : Catalog := ⟨[], [], []⟩

def list (catalog : Catalog) : Kind → List Text
  | .podNames => catalog.podNames
  | .serviceNames => catalog.serviceNames
  | .namespaces => catalog.namespaces

/-- The names that contain what was typed, in lowercase and in the order of the catalog. -/
def lookup (catalog : Catalog) (kind : Kind) (typed : Text) : List Text :=
  (catalog.list kind).filter fun name => Text.occursIn typed.lower name.lower

def ofJson (json : Json) : Option Catalog := do
  match ← json.fields ["podNames".toList, "serviceNames".toList, "namespaces".toList] 0 with
  | [podNames, serviceNames, namespaces] =>
      some ⟨← Json.optional [] Json.texts? podNames, ← Json.optional [] Json.texts? serviceNames,
        ← Json.optional [] Json.texts? namespaces⟩
  | _ => none

def load (path : Text) : Option Text → Except Failure Catalog
  | none => .error (.unreadable .catalog path)
  | some text =>
      match (Json.parse text).bind ofJson with
      | none => .error (.malformed .catalog path)
      | some catalog => .ok catalog

end Catalog

end FilterQuery
