import FitSession.Dense.Tridiagonal

/-!
# Eigenvalues of a symmetric matrix

A symmetric matrix is scaled by its largest entry and made tridiagonal. Then plane rotations clear
the entries beside the diagonal: a block of two is solved directly, a larger one is swept with the
shift that makes its last entry vanish fastest. An entry counts as cleared when it is within
rounding of its neighbours on the diagonal, or when a neighbour is not a number.

* `Rotation`, `Tridiagonal.turnAxes`: a rotation of two neighbouring axes;
* `Tridiagonal.lastCoupled`, `Tridiagonal.blockStart`: the last block that is not diagonal;
* `Tridiagonal.sweep`, `Tridiagonal.solvePair`, `Tridiagonal.decouple`: the iteration;
* `Eigen`, `Eigen.ofSymmetric`: eigenvalues, and eigenvectors as columns.
-/

namespace FitSession

variable {α : Type} [Scalar α]

/-- A rotation of two axes, by cosine and sine. -/
structure Rotation (α : Type) where
  c : α
  s : α

/-- The length of a plane vector, with the sign of its first coordinate. -/
def signedLength (x y : α) : α :=
  let length := Scalar.sqrt (x * x + y * y)
  if 0 ≤ x then length else -length

/-- The rotation that turns a plane vector onto its first axis. -/
def Rotation.onto (x y : α) : Rotation α :=
  let r := signedLength x y
  ⟨Scalar.abs x / Scalar.abs r, y / r⟩

namespace Tridiagonal

/-- Entry `i` on the diagonal. -/
def d (t : Tridiagonal α) (i : Nat) : α := t.diagonal[i]?.getD 0

/-- The entry beside the diagonal in row `i + 1`. -/
def o (t : Tridiagonal α) (i : Nat) : α := t.beside[i]?.getD 0

/-- How far rounding reaches at an entry beside the diagonal. -/
def slack (t : Tridiagonal α) (i : Nat) : α :=
  Scalar.epsilon * (Scalar.abs (t.d (i + 1)) + Scalar.abs (t.d i))

/-- The axes `i` and `i + 1` turned. -/
def turnAxes (t : Tridiagonal α) (i : Nat) (r : Rotation α) : DenseMatrix α :=
  ⟨t.axes.rows.map fun row =>
    let a := row[i]?.getD 0
    let b := row[i + 1]?.getD 0
    (row.set i (a * r.c + r.s * b)).set (i + 1) (b * r.c - r.s * a)⟩

/-- The end of the last block that is not diagonal, at or before a position; 0 if there is none. -/
def lastCoupled (t : Tridiagonal α) : Nat → Nat
  | 0 => 0
  | m + 1 => if t.slack m < Scalar.abs (t.o m) then m + 1 else lastCoupled t m

/-- The start of the block that holds a position. -/
def blockStart (t : Tridiagonal α) : Nat → Nat
  | 0 => 0
  | m + 1 =>
    if t.o m == 0 || decide (Scalar.abs (t.o m) ≤ t.slack m) then m + 1 else blockStart t m

/-- The eigenvalue of the last two axes of a block that is nearer to its last entry. -/
def shift (t : Tridiagonal α) (m : Nat) : α :=
  let square := t.o m * t.o m
  let last := t.d (m + 1)
  if square == 0 then last
  else
    let half := (t.d m - last) * 0.5
    let root := Scalar.sqrt (half * half + square)
    last - square / (half + (if half < 0 then -1 else 1) * root)

/-- Turns pairs of axes from position `i` on, as many as the first argument says, each by the
rotation that turns `(x, y)` onto its first axis. -/
def sweep (t : Tridiagonal α) : Nat → Nat → Bool → α → α → Tridiagonal α
  | 0, _, _, _, _ => t
  | n + 1, i, isFirst, x, y =>
    if y == 0 then t
    else
      let r := Rotation.onto x y
      let cc := r.c * r.c
      let ss := r.s * r.s
      let cs := -(r.c * r.s)
      let b := cs * 2 * t.o i
      let mixed := cs * (t.d i - t.d (i + 1)) + t.o i * (cc - ss)
      let turned : Tridiagonal α :=
        { diagonal := (t.diagonal.set i (cc * t.d i + ss * t.d (i + 1) - b)).set (i + 1)
            (ss * t.d i + cc * t.d (i + 1) + b)
          beside :=
            let before := if isFirst then t.beside else t.beside.set (i - 1) (signedLength x y)
            let here := before.set i mixed
            if n = 0 then here else here.set (i + 1) (t.o (i + 1) * r.c)
          axes := t.turnAxes i r }
      sweep turned n (i + 1) false mixed (r.s * t.o (i + 1))

/-- Solves a block of the axes `i` and `i + 1`. -/
def solvePair (t : Tridiagonal α) (i : Nat) : Tridiagonal α :=
  let half := (t.d i - t.d (i + 1)) * 0.5
  let root := Scalar.sqrt (t.o i * t.o i + half * half)
  let middle := (t.d i + t.d (i + 1)) * 0.5
  let upper := middle + root
  let x := upper - t.d (i + 1)
  { t with
    diagonal := (t.diagonal.set i upper).set (i + 1) (middle - root)
    axes :=
      if Scalar.epsilon < Scalar.abs (signedLength x (t.o i)) then
        t.turnAxes i (Rotation.onto x (t.o i))
      else t.axes }

/-- Clears the entries beside the diagonal up to position `last`, in as many steps as the first
argument allows. -/
def decouple : Nat → Nat → Tridiagonal α → Tridiagonal α
  | 0, _, t => t
  | fuel + 1, last, t =>
    match t.lastCoupled last with
    | 0 => t
    | n + 1 =>
      let start := t.blockStart n
      let t := if start = 0 then t else { t with beside := t.beside.set (start - 1) 0 }
      if start = n then decouple fuel n (t.solvePair n)
      else
        let swept := t.sweep (n + 1 - start) start true (t.d start - t.shift n) (t.o start)
        let cleared := decide (Scalar.abs (swept.o n) ≤ swept.slack n)
        decouple fuel (if cleared then n else n + 1) swept

end Tridiagonal

/-- Eigenvalues, and eigenvectors as the columns of a matrix. -/
structure Eigen (α : Type) where
  values : List α
  vectors : DenseMatrix α

/-- The largest magnitude of an entry that is a number. -/
def DenseMatrix.greatest (m : DenseMatrix α) : α :=
  match m.rows.flatten with
  | [] => 0
  | x :: rest => rest.foldl (fun top y => Scalar.maxNum top (Scalar.abs y)) (Scalar.abs x)

/-- The decomposition of a symmetric matrix, whose lower half is read. -/
def Eigen.ofSymmetric (m : DenseMatrix α) : Eigen α :=
  let scale := m.greatest
  let scaled := if scale == 0 then m else m.map (· / scale)
  let t := Tridiagonal.ofSymmetric scaled
  let t := t.decouple (64 * m.nrows) (m.nrows - 1)
  ⟨t.diagonal.map (· * scale), t.axes⟩

end FitSession
