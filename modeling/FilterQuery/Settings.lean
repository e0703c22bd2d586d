import FilterQuery.Failure
import FilterQuery.Json.Reader
import FilterQuery.Json.Record

/-!
The settings of a filter box. A file may leave every setting out.
-/

set_option autoImplicit false

namespace FilterQuery

structure Settings where
  /-- The data were read from a dump, so that an empty filter stands for the fallback query. -/
  loadedFromDump : Bool
  fallbackQuery : Text
  comparators : List Text
  /-- How long to wait for suggestions that come later. -/
  suggestionTimeoutMs : Nat
deriving DecidableEq

namespace Settings

def knownComparators : List Text :=
  ["=".toList, "!=".toList, ">".toList, ">=".toList, "<".toList, "<=".toList, "in".toList,
    "not in".toList, "like".toList, "not like".toList]

/-- What holds for settings that are left out. -/
def standard : Settings := ⟨false, "pod_name like %".toList, knownComparators, 500⟩

def milliseconds? (json : Json) : Option Nat := do
  let number ← json.integer?
  if 0 ≤ number then some number.toNat else none

def ofJson (json : Json) : Option Settings := do
  match ← json.fields ["loaded_from_dump".toList, "fallback_query".toList, "comparators".toList,
      "suggestion_timeout_ms".toList] 0 with
  | [loadedFromDump, fallbackQuery, comparators, suggestionTimeoutMs] =>
      some ⟨← Json.optional standard.loadedFromDump Json.bool? loadedFromDump,
        ← Json.optional standard.fallbackQuery Json.text? fallbackQuery,
        ← Json.optional standard.comparators Json.texts? comparators,
        ← Json.optional standard.suggestionTimeoutMs milliseconds? suggestionTimeoutMs⟩
  | _ => none

def load (path : Text) : Option Text → Except Failure Settings
  | none => .error (.unreadable .settings path)
  | some text =>
      match (Json.parse text).bind ofJson with
      | none => .error (.malformed .settings path)
      | some settings =>
          if settings.comparators.isEmpty then .error (.noComparators path) else .ok settings

end Settings

end FilterQuery
