/-!
# Blanks

The characters that separate words: the spaces and line ends of ASCII with its
four separators, and the spaces of the wider set.
-/

namespace ParetoSearch
namespace Text

/-- Ranges of code points, first and last. -/
def blankRanges : List (Nat × Nat) :=
  [(0x09, 0x0D), (0x1C, 0x20), (0x85, 0x85), (0xA0, 0xA0), (0x1680, 0x1680), (0x2000, 0x200A),
    (0x2028, 0x2029), (0x202F, 0x202F), (0x205F, 0x205F), (0x3000, 0x3000)]

def isBlank (c : Char) : Bool :=
  blankRanges.any fun (first, last) => decide (first ≤ c.toNat) && decide (c.toNat ≤ last)

/-- What lies between the characters to cut at, empty pieces included. -/
def pieces (cut : Char → Bool) : List Char → List (List Char)
  | [] => [[]]
  | c :: rest =>
    if cut c then [] :: pieces cut rest
    else match pieces cut rest with
      | [] => [[c]]
      | piece :: others => (c :: piece) :: others

/-- The words of a line. -/
def words (line : List Char) : List (List Char) :=
  (pieces isBlank line).filter fun word => !word.isEmpty

end Text
end ParetoSearch
