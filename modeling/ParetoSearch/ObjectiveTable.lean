import ParetoSearch.Decimal.Numeral
import ParetoSearch.Tensor
import ParetoSearch.Text.Blank

/-!
# Tables of objectives

A table has a row of numbers on each line, separated by blanks.  A `#` starts a
comment that runs to the end of the line; lines without a number are passed over.
All rows have as many numbers as the first.
-/

namespace ParetoSearch
namespace ObjectiveTable

open Decimal (Numeral)

variable {α : Type}

def isLineEnd (c : Char) : Bool := c == '\n' || c == '\r'

/-- The words of each line that has any. -/
def rows (text : List Char) : List (List (List Char)) :=
  ((Text.pieces isLineEnd text).map fun line =>
    Text.words (line.takeWhile fun c => c != '#')).filter fun row => !row.isEmpty

def cell? (number : Numeral → α) (word : List Char) : Except (Fault α) α :=
  match Numeral.ofChars? word with
  | none => .error .malformedTable
  | some n => .ok (number n)

/-- A table without rows is one column wide. -/
def parse (number : Numeral → α) (text : String) : Except (Fault α) (Tensor α) := do
  let table ← (rows text.toList).mapM fun row => row.mapM (cell? number)
  let width := (table.headD []).length
  if table.isEmpty then return ⟨[0, 1], []⟩
  else if table.all fun row => row.length = width then
    return ⟨[table.length, width], table.flatten⟩
  else .error .malformedTable

end ObjectiveTable
end ParetoSearch
