import FitSession.Derivative.Hessian
import FitSession.Proofs.Scratch

/-!
# Second differences in place

Second differences move a scratch point away from the point at which they are taken, on one axis or
on two, and back again. Between two differences it is the point itself, so that they do the same as
differences that make a point for each value they ask for.

* `cornerPoint`, `diagonalDifference`, `mixedDifference`, `lowerRow`: differences at points that are
  made for them;
* `leaves_diagonalInPlace`, `leaves_mixedInPlace`, `leaves_rowInPlace`: the same in place, with the
  scratch point put back;
* `secondDifferences_eq`: **second differences in place**.
-/

namespace FitSession

variable {α : Type} [Scalar α]

/-! ## Points that are made for each value -/

section Points

variable {m : Type → Type} [Monad m]

/-- The point with the coordinates `i` and `j` moved by their steps. -/
def cornerPoint (theta : List α) (i j : Nat) (x y : α) : List α :=
  (theta.modify i (· + x)).modify j (· + y)

/-- The second difference on one axis. -/
def diagonalDifference (f : List α → m α) (theta : List α) (f0 : α) (i : Nat) (h : α) : m α := do
  let ahead ← f (shifted theta i h)
  let behind ← f (shifted theta i (-h))
  pure ((ahead - 2 * f0 + behind) / (h * h))

/-- The mixed difference on two axes. -/
def mixedDifference (f : List α → m α) (theta : List α) (i j : Nat) (hi hj : α) : m α := do
  let pp ← f (cornerPoint theta i j hi hj)
  let pm ← f (cornerPoint theta i j hi (-hj))
  let mp ← f (cornerPoint theta i j (-hi) hj)
  let mm ← f (cornerPoint theta i j (-hi) (-hj))
  pure ((pp - pm - mp + mm) / (4 * hi * hj))

/-- The entries of row `i` up to the diagonal, which is evaluated first. -/
def lowerRow (f : List α → m α) (theta steps : List α) (f0 : α) (i : Nat) : m (List α) := do
  let hi := steps[i]?.getD 1
  let diagonal ← diagonalDifference f theta f0 i hi
  let mixed ← (List.range i).mapM fun j => mixedDifference f theta i j hi (steps[j]?.getD 1)
  pure (mixed ++ [diagonal])

variable (theta : List α) {i j : Nat}

theorem set_eq_shifted (i : Nat) (x : α) :
    theta.set i (theta[i]?.getD 0 + x) = shifted theta i x := by
  rw [shifted, List.modify_eq_set_getElem?]
  cases h : theta[i]? with
  | none => exact List.set_eq_of_length_le (List.getElem?_eq_none_iff.mp h)
  | some a => rfl

theorem set_eq_self (i : Nat) : theta.set i (theta[i]?.getD 0) = theta := by
  cases h : theta[i]? with
  | none => exact List.set_eq_of_length_le (List.getElem?_eq_none_iff.mp h)
  | some a =>
    obtain ⟨hi, rfl⟩ := List.getElem?_eq_some_iff.mp h
    exact List.set_getElem_self hi

theorem getElem?_shifted {k : Nat} (h : k ≠ i) (x : α) : (shifted theta i x)[k]? = theta[k]? :=
  List.getElem?_modify_ne _ _ h.symm

/-- On another axis, the second coordinate is moved from where it is in the point. -/
theorem set_shifted_eq_cornerPoint (hij : j ≠ i) (x y : α) :
    (shifted theta i x).set j (theta[j]?.getD 0 + y) = cornerPoint theta i j x y := by
  rw [← getElem?_shifted theta hij x]
  exact set_eq_shifted (shifted theta i x) j y

end Points

/-! ## The scratch point -/

section InPlace

variable {m : Type → Type} [Monad m] [LawfulMonad m] (f : List α → m α) (theta steps : List α)
  {i j : Nat}

theorem leaves_diagonalInPlace (f0 : α) (i : Nat) (h : α) :
    Leaves (diagonalInPlace f theta f0 i h) theta (diagonalDifference f theta f0 i h) theta := by
  unfold diagonalInPlace diagonalDifference
  rw [← set_eq_shifted, ← set_eq_shifted]
  refine (leaves_write i _ theta).after ((leaves_ask f _).bind fun ahead => ?_)
  refine (leaves_write i _ _).after ?_
  rw [List.set_set]
  refine (leaves_ask f _).bind fun behind => (leaves_write i _ _).after ?_
  rw [List.set_set, set_eq_self]
  exact .pure _ theta

/-- A corner is on two axes, and the scratch point is put back on both. -/
theorem leaves_cornerInPlace (hij : j ≠ i) (x y : α) :
    Leaves (cornerInPlace f theta i j x y) theta (f (cornerPoint theta i j x y)) theta := by
  have hback : ((cornerPoint theta i j x y).set i (theta[i]?.getD 0)).set j (theta[j]?.getD 0) =
      theta := by
    rw [← set_shifted_eq_cornerPoint theta hij, List.set_comm _ _ hij, List.set_set,
      ← set_eq_shifted, List.set_set, set_eq_self, set_eq_self]
  unfold cornerInPlace
  rw [← bind_pure (f (cornerPoint theta i j x y))]
  refine (leaves_write i _ theta).after ((leaves_write j _ _).after ?_)
  rw [set_eq_shifted, set_shifted_eq_cornerPoint theta hij]
  refine (leaves_ask f _).bind fun v => (leaves_write i _ _).after ((leaves_write j _ _).after ?_)
  rw [hback]
  exact .pure v theta

theorem leaves_mixedInPlace (hij : j ≠ i) (x y : α) :
    Leaves (mixedInPlace f theta i j x y) theta (mixedDifference f theta i j x y) theta := by
  have hcorner := leaves_cornerInPlace f theta hij
  exact (hcorner _ _).bind fun pp => (hcorner _ _).bind fun pm => (hcorner _ _).bind fun mp =>
    (hcorner _ _).bind fun mm => .pure _ theta

theorem leaves_rowInPlace (f0 : α) (i : Nat) :
    Leaves (rowInPlace f theta steps f0 i) theta (lowerRow f theta steps f0 i) theta := by
  refine (leaves_diagonalInPlace f theta f0 i _).bind fun diagonal => ?_
  refine (Leaves.mapM_same fun j hj => ?_).bind fun mixed => .pure _ theta
  exact leaves_mixedInPlace f theta (Nat.ne_of_lt (List.mem_range.mp hj)) _ _

/-- **Second differences in place.** They ask for the same values, at the same points and in the
same order, as differences that make a point for each. -/
theorem secondDifferences_eq : secondDifferences f theta steps = (do
    let f0 ← f theta
    let rows ← (List.range theta.length).mapM (lowerRow f theta steps f0)
    pure (ofLowerRows rows)) := by
  unfold secondDifferences
  refine congrArg _ (funext fun f0 => congrArg (· >>= _) ?_)
  exact (Leaves.mapM_same fun i _ => leaves_rowInPlace f theta steps f0 i).run'_eq

end InPlace

end FitSession
