/-
**White space in the sense of Unicode.**

The characters with the property `White_Space`: twenty-five code points, most of them outside
ASCII.

Main definitions:

* `FrontEnd.Text.isBlank` — membership in the property;
* `FrontEnd.Text.trimEnd` — a text without the blanks at its end.
-/

import FrontEnd.Text.Lines

set_option relaxedAutoImplicit false
set_option autoImplicit false

namespace FrontEnd.Text

/-- The code points with the property `White_Space`, as closed ranges in increasing order. -/
def blankRanges : List (Nat × Nat) :=
  [(0x9, 0xD), (0x20, 0x20), (0x85, 0x85), (0xA0, 0xA0), (0x1680, 0x1680), (0x2000, 0x200A),
    (0x2028, 0x2029), (0x202F, 0x202F), (0x205F, 0x205F), (0x3000, 0x3000)]

/-- The property `White_Space` of a character. -/
def isBlank (c : Char) : Bool :=
  blankRanges.any fun (lo, hi) => decide (lo ≤ c.toNat) && decide (c.toNat ≤ hi)

/-- There are twenty-five blanks. -/
example : (blankRanges.map fun (lo, hi) => hi + 1 - lo).sum = 25 := rfl

/-- The text without the blanks at its end. -/
def trimEnd (text : List Char) : List Char := dropEndWhile isBlank text

end FrontEnd.Text
