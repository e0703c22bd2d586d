/-!
Text is a list of characters, so an offset or a length always counts characters. Besides the type
this module holds substring search; the main statement says that the search finds exactly the
infixes.
-/

set_option autoImplicit false

namespace FilterQuery

abbrev Text := List Char

namespace Text

def occursIn (part : Text) : Text → Bool
  | [] => part.isEmpty
  | char :: rest => part.isPrefixOf (char :: rest) || occursIn part rest

theorem occurs_in_iff (part whole : Text) : occursIn part whole = true ↔ part <:+: whole := by
  induction whole with
  | nil => simp [occursIn]
  | cons char rest induction =>
      rw [occursIn, Bool.or_eq_true, List.isPrefixOf_iff_prefix, induction, List.infix_cons_iff]

def join (separator : Text) : List Text → Text
  | [] => []
  | [text] => text
  | text :: rest => text ++ separator ++ join separator rest

/-- Whether a character lies in one of the runs given by their first and last code points. -/
def inRanges (ranges : List (Nat × Nat)) (char : Char) : Bool :=
  ranges.any fun (first, last) => first ≤ char.toNat && char.toNat ≤ last

/-- The text that the bytes encode in UTF-8, if they encode one. -/
def ofUtf8 (bytes : ByteArray) : Option Text := (String.fromUTF8? bytes).map String.toList

def ofNat (number : Nat) : Text := Nat.toDigits 10 number

end Text

end FilterQuery
