import Mathlib.Data.List.Basic
import Mathlib.Tactic.Common

/-!
# Binary search

A search of a sorted list of keys promises an index that holds the key, any of them where there
are several, and otherwise the place where the key belongs. A bisection that stops at the first
equal key it meets is one such search.
-/
namespace Booley.Lib

end Booley.Lib
