import FilterQuery.Text.Casing

/-!
The lowercase of a text. Each character has a lowercase of its own, except that a capital sigma
at the end of a word becomes a final sigma.
-/

set_option autoImplicit false

namespace FilterQuery.Text

/-- The lowercase of a single character. A capital I with a dot keeps the dot as a character of its
own. -/
def lowerChar (char : Char) : Text :=
  if char = 'İ' then ['i', '\u0307']
  else
    let inRun : Nat × Nat × Nat × Int → Bool := fun (first, last, step, _) =>
      first ≤ char.toNat && char.toNat ≤ last && (char.toNat - first) % step == 0
    match lowercaseRanges.find? inRun with
    | some (_, _, _, shift) => [Char.ofNat (char.toNat + shift).toNat]
    | none => [char]

def nearestIsCased (neighbours : Text) : Bool :=
  match neighbours.dropWhile isCaseIgnorable with
  | [] => false
  | char :: _ => isCased char

/-- The lowercase of what stands behind the characters `before`, of which the nearest is first. -/
def lowerBehind (before : Text) : Text → Text
  | [] => []
  | char :: rest =>
      (if char = 'Σ' then
        if nearestIsCased before && !nearestIsCased rest then ['ς'] else ['σ']
      else lowerChar char) ++ lowerBehind (char :: before) rest

def lower (text : Text) : Text := lowerBehind [] text

end FilterQuery.Text
