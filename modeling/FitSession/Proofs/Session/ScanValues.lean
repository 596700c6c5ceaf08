import FitSession.Proofs.Scratch
import FitSession.Session.Scan

/-!
# The values of a scan

A scan of values writes its points over the current values of the parameters, and does not put back
what was there. Each value is all the same the cost at the current values with one or two parameters
replaced.

* `Session.valuesAlong`: the cost at arguments that are made for each point;
* `Session.run'_valuesOver`, `Session.run'_rowsOver`: **the cost at arguments that are written
  over**.
-/

namespace FitSession

variable {σ α : Type} [Scalar α]

namespace Session

/-- The values of the cost at the arguments of each point, less an offset. -/
def valuesAlong (s : Session σ α) (offset : α) (args : α → List α) (x : List α) :
    Run σ α (List α) :=
  x.mapM fun xi => do
    let f ← s.cost.evaluate (args xi)
    pure (f - offset)

variable (s : Session σ α) (offset : α)

/-- Whatever was written over an argument, nothing else has changed in the end. -/
theorem exists_leaves_valuesOver (index : Nat) (x args : List α) :
    ∃ after, (∀ y, after.set index y = args.set index y) ∧
      Leaves (valuesOver s.cost offset index x) args (s.valuesAlong offset (args.set index) x)
        after := by
  refine Leaves.mapM (P := fun v : List α => ∀ y, v.set index y = args.set index y)
    (fun _ => rfl) ?_
  intro xi _ v hv
  refine ⟨args.set index xi, fun y => List.set_set _, ?_⟩
  have hwrite := leaves_write (m := Run σ α) index xi v
  rw [hv] at hwrite
  exact hwrite.after ((leaves_ask _ _).bind fun f => .pure _ _)

/-- **Points written over one argument.** -/
theorem run'_valuesOver (index : Nat) (x args : List α) :
    (valuesOver s.cost offset index x).run' args = s.valuesAlong offset (args.set index) x := by
  obtain ⟨after, -, hvalues⟩ := s.exists_leaves_valuesOver offset index x args
  exact hvalues.run'_eq

/-- **Points written over two arguments.** What is left of one row is written over for the next. -/
theorem run'_rowsOver (ix iy : Nat) (xs ys args : List α) :
    (rowsOver s.cost offset ix iy xs ys).run' args =
      xs.mapM fun x => s.valuesAlong offset ((args.set ix x).set iy) ys := by
  have hrows := Leaves.mapM (m := Run σ α)
    (P := fun v : List α => ∀ x y, (v.set ix x).set iy y = (args.set ix x).set iy y)
    (f := fun x => do
      Scratch.write ix x
      valuesOver s.cost offset iy ys)
    (g := fun x => s.valuesAlong offset ((args.set ix x).set iy) ys) (l := xs) (fun _ _ => rfl) ?_
  · obtain ⟨after, -, hrows⟩ := hrows
    exact hrows.run'_eq
  intro x _ v hv
  obtain ⟨after, hafter, hrow⟩ := s.exists_leaves_valuesOver offset iy ys (v.set ix x)
  rw [funext (hv x)] at hrow
  refine ⟨after, fun x' y => ?_, (leaves_write ix x v).after hrow⟩
  by_cases h : ix = iy
  · subst h
    simpa [hafter] using hv x' y
  · calc (after.set ix x').set iy y
      _ = (after.set iy y).set ix x' := List.set_comm _ _ h
      _ = ((args.set ix x).set iy y).set ix x' := by rw [hafter, hv]
      _ = ((args.set ix x).set ix x').set iy y := (List.set_comm _ _ h).symm
      _ = (args.set ix x').set iy y := by rw [List.set_set]

end Session
end FitSession
