import FilterQuery.Text

/-!
The characters with the Unicode property `White_Space`.
-/

set_option autoImplicit false

namespace FilterQuery.Text

/-- The first and the last code point of each run of characters with the property. -/
def blankRanges : List (Nat × Nat) :=
  [(0x0009, 0x000D), (0x0020, 0x0020), (0x0085, 0x0085), (0x00A0, 0x00A0), (0x1680, 0x1680),
    (0x2000, 0x200A), (0x2028, 0x2029), (0x202F, 0x202F), (0x205F, 0x205F), (0x3000, 0x3000)]

def isBlank (char : Char) : Bool := inRanges blankRanges char

end FilterQuery.Text
