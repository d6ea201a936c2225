import ParetoSearch.Proofs.Arithmetic.Exact
import ParetoSearch.Proofs.Arithmetic.Signs

/-!
# Sums in any order

Rounding makes the order visible in which entries are added.  Without rounding the running
sums and the halves of `Vector.total` come to the sum of the entries (`Vector.total_eq_sum`).
-/

namespace ParetoSearch
namespace Vector

variable {α : Type} [ExactScalar α]

theorem foldl_add_eq_add_sum (init : α) (xs : List α) :
    xs.foldl (· + ·) init = init + xs.sum := by
  have hassoc : xs.foldl (· + ·) (init + 0) = init + xs.foldl (· + ·) 0 := List.foldl_assoc
  rwa [add_zero, ← List.sum_eq_foldl] at hassoc

/-- Entries move from the rest into the lanes, eight at a time, and none is lost. -/
theorem laneSums_sum {lanes xs : List α} (h : lanes.length = 8) :
    (laneSums lanes xs).1.sum + (laneSums lanes xs).2.sum = lanes.sum + xs.sum := by
  fun_induction laneSums lanes xs with
  | case1 lanes a b c d e f g i rest ih =>
    have hblock : lanes.sum + [a, b, c, d, e, f, g, i].sum =
        (lanes.zipWith (· + ·) [a, b, c, d, e, f, g, i]).sum :=
      List.sum_add_sum_eq_sum_zipWith_of_length_eq lanes _ h
    have hsplit : (a :: b :: c :: d :: e :: f :: g :: i :: rest).sum =
        [a, b, c, d, e, f, g, i].sum + rest.sum := by
      simp only [List.sum_cons, List.sum_nil, add_zero, add_assoc]
    rw [ih (by rw [List.length_zipWith, h]; rfl), hsplit, ← add_assoc, hblock]
  | case2 lanes rest => rfl

theorem joinLanes_eq_sum (lanes : List α) : joinLanes lanes = lanes.sum := by
  unfold joinLanes
  split
  · simp only [List.sum_cons, List.sum_nil]
    ring
  · exact leftSum_eq_sum _

theorem blockSum_eq_sum (xs : List α) : blockSum xs = xs.sum := by
  unfold blockSum
  split
  case isTrue => exact leftSum_eq_sum xs
  case isFalse hlong =>
    have hfull : (xs.take 8).length = 8 := List.length_take_of_le (not_lt.mp hlong)
    calc (laneSums (xs.take 8) (xs.drop 8)).2.foldl (· + ·)
          (joinLanes (laneSums (xs.take 8) (xs.drop 8)).1)
        = (laneSums (xs.take 8) (xs.drop 8)).1.sum + (laneSums (xs.take 8) (xs.drop 8)).2.sum := by
          rw [foldl_add_eq_add_sum, joinLanes_eq_sum]
      _ = (xs.take 8).sum + (xs.drop 8).sum := laneSums_sum hfull
      _ = xs.sum := List.sum_take_add_sum_drop xs 8

theorem halvingSum_eq_sum (fuel : Nat) (xs : List α) : halvingSum fuel xs = xs.sum := by
  induction fuel generalizing xs with
  | zero => exact blockSum_eq_sum xs
  | succ fuel ih =>
    rw [halvingSum]
    split
    · exact blockSum_eq_sum xs
    · simp only [ih, List.sum_take_add_sum_drop]

theorem total_eq_sum (xs : List α) : total xs = xs.sum := halvingSum_eq_sum xs.length xs

end Vector
end ParetoSearch
