import FilterQuery.Word

/-!
Comparators are signs or words. Signs divide a text even where no blank is written around them.
Word comparators may be written as several words; `extend` says which word continues a comparator.
-/

set_option autoImplicit false

namespace FilterQuery.Comparator

/-- The signs in the order in which they are cut out of a text: those of two characters come
first, so that none of them is ever read as a shorter sign. -/
def signs : List Text :=
  ["<=".toList, "!=".toList, ">=".toList, "=".toList, ">".toList, "<".toList]

/-- Writes one character in front of the pieces of the text behind it. A piece that is the sign
itself stays alone. -/
def prepend (sign : Text) (char : Char) : List Text → List Text
  | [] => [[char]]
  | piece :: rest => if piece = sign then [char] :: piece :: rest else (char :: piece) :: rest

/-- Cuts every occurrence of `sign` out of a text, from left to right, after passing over the
first `skipped` characters. No piece is empty. -/
def cutOut (sign : Text) : (skipped : Nat) → Text → List Text
  | _, [] => []
  | skipped + 1, _ :: rest => cutOut sign skipped rest
  | 0, char :: rest =>
      if sign.isPrefixOf (char :: rest) then sign :: cutOut sign (sign.length - 1) rest
      else prepend sign char (cutOut sign 0 rest)

@[simp] theorem flatten_prepend (sign : Text) (char : Char) (pieces : List Text) :
    (prepend sign char pieces).flatten = char :: pieces.flatten := by
  cases pieces with
  | nil => rfl
  | cons piece rest =>
      rw [prepend]
      split <;> rfl

theorem flatten_cut_out (sign : Text) (nonempty : sign ≠ []) (skipped : Nat) (text : Text) :
    (cutOut sign skipped text).flatten = text.drop skipped := by
  induction text generalizing skipped with
  | nil => simp [cutOut]
  | cons char rest induction =>
      cases skipped with
      | succ skipped => rw [cutOut, induction, List.drop_succ_cons]
      | zero =>
          rw [cutOut]
          split
          · next begins =>
              obtain ⟨behind, same⟩ := List.isPrefixOf_iff_prefix.mp begins
              obtain ⟨first, others, rfl⟩ := List.exists_cons_of_ne_nil nonempty
              obtain ⟨rfl, rfl⟩ := List.cons.inj same
              rw [List.flatten_cons, induction]
              simp
          · rw [flatten_prepend, induction, List.drop_zero, List.drop_zero]

def cutPieces (pieces : List Text) (sign : Text) : List Text :=
  pieces.flatMap fun piece => if signs.contains piece then [piece] else cutOut sign 0 piece

def cutSigns (text : Text) : List Text := signs.foldl cutPieces [text]

theorem flatten_cut_pieces (pieces : List Text) (sign : Text) (nonempty : sign ≠ []) :
    (cutPieces pieces sign).flatten = pieces.flatten := by
  induction pieces with
  | nil => rfl
  | cons piece rest induction =>
      rw [cutPieces, List.flatMap_cons, List.flatten_append, List.flatten_cons]
      rw [cutPieces] at induction
      rw [induction]
      split
      · simp
      · rw [flatten_cut_out sign nonempty, List.drop_zero]

@[simp] theorem flatten_cut_signs (text : Text) : (cutSigns text).flatten = text := by
  simp [cutSigns, signs, flatten_cut_pieces]

def containsSign (text : Text) : Bool := signs.any fun sign => Text.occursIn sign text

/-- The comparator that `comparator` and the word behind it make together, if they make one. -/
def extend (comparator : Text) (next : Word) : Option Text :=
  if comparator = "is".toList ∧ next.isToken "not".toList then some "is not".toList
  else if ["is".toList, "not".toList, "is not".toList].contains comparator ∧
      (next.isToken "in".toList ∨ next.isToken "like".toList) then
    some (comparator ++ ' ' :: next.text)
  else none

/-- The comparators of several words that `extend` puts together. -/
def phrases : List Text :=
  ["is not".toList, "is in".toList, "is like".toList, "not in".toList, "not like".toList,
    "is not in".toList, "is not like".toList]

end FilterQuery.Comparator
