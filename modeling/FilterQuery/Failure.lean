import FilterQuery.Text

/-!
Why a file cannot be used, a filter cannot be submitted or a suggestion cannot be applied.
-/

set_option autoImplicit false

namespace FilterQuery

inductive FileRole where
  | settings
  | catalog
deriving DecidableEq

def FileRole.text : FileRole → Text
  | .settings => "filter config".toList
  | .catalog => "service catalog".toList

inductive Failure where
  /-- The file is missing or is no text. -/
  | unreadable (role : FileRole) (path : Text)
  /-- The text of the file is not of the expected form. -/
  | malformed (role : FileRole) (path : Text)
  | noComparators (path : Text)
  | invalidFilter (diagnostic : Text)
  | noConditions
  | targetMissing
  | noSuggestion (index count : Nat)
  | nothingToEdit
deriving DecidableEq

def Failure.message : Failure → Text
  | .unreadable role path => "read ".toList ++ role.text ++ ' ' :: path
  | .malformed role path => "parse ".toList ++ role.text ++ ' ' :: path
  | .noComparators path => FileRole.settings.text ++ ' ' :: path ++ " accepts no comparators".toList
  | .invalidFilter diagnostic => "invalid filter: ".toList ++ diagnostic
  | .noConditions => "filter produced no conditions".toList
  | .targetMissing => "suggestion target is not in the tree".toList
  | .noSuggestion index count =>
      "no suggestion ".toList ++ Text.ofNat index ++ ", got ".toList ++ Text.ofNat count
  | .nothingToEdit => "no condition tree to edit".toList

end FilterQuery
