import FitSession.Proofs.Session.Change

/-!
# Copy on write

Writes never reach a result. Wherever the current state of a session lives, a write through a view
gives the state that the same writes give on a copy of it, and the stored minimum and the intervals
stay as they are.

* `minimum_isSome_of_slot`: after any run, a session whose slot points to a minimum has one;
* `CopiesOnWrite`, `copy_on_write`: **writes after any run go to a copy of the current state**.
-/

namespace FitSession

variable {σ α : Type} [Scalar α]

/-- The slot of a session points to a minimum only if there is one. -/
theorem minimum_isSome_of_slot {s₀ : Session σ α} (h₀ : s₀.slot = .initial)
    (cs : List (Command α)) :
    (s₀.afterAll cs).slot = .minimum → (s₀.afterAll cs).fmin.isSome := by
  refine Session.afterAll_invariant (I := fun s => s.slot = .minimum → s.fmin.isSome)
    (fun s c hs => (change_after s c).minimum_isSome hs) (fun h => ?_) cs
  rw [h₀] at h
  cases h

/-- How writes treat a session. Its slot points to a minimum only if one is stored. A write through
a view succeeds exactly if it does on a copy of the current state; then the current state is that
copy as it was written, and the stored minimum and all intervals are what they were. -/
structure CopiesOnWrite (s : Session σ α) : Prop where
  stored : s.slot = .minimum → s.fmin.isSome
  written : ∀ (w : ViewWrite α) s', w.run s = .ok () s' →
    w.onState s.registry s.currentState = .ok s'.currentState ∧
      s'.fmin = s.fmin ∧ s'.merrors = s.merrors
  accepted : ∀ (w : ViewWrite α) copy, w.onState s.registry s.currentState = .ok copy →
    ∃ s', w.run s = .ok () s' ∧ s'.currentState = copy

/-- **Copy on write.** After any run with any engine, writes go to a copy of the current state. -/
theorem copy_on_write {spec : SessionSpec α} {cost : Cost α} {engine : Engine σ α} {memory : σ}
    {shared : Int} {s₀ : Session σ α} (hbuild : spec.build cost engine memory shared = .ok s₀)
    (cs : List (Command α)) : CopiesOnWrite (s₀.afterAll cs) where
  stored := minimum_isSome_of_slot (SessionSpec.fresh_of_build hbuild).slot cs
  written w s' h := by
    obtain ⟨copy, hcopy, rfl⟩ := ViewWrite.run_eq_ok.mp h
    refine ⟨?_, Session.fmin_replaceState _ copy, Session.merrors_replaceState _ copy⟩
    rw [hcopy, Session.currentState_replaceState]
  accepted w copy hcopy :=
    ⟨_, ViewWrite.run_eq_ok.mpr ⟨copy, hcopy, rfl⟩, Session.currentState_replaceState _ copy⟩

/-- After a fit of one parameter, writes go to a copy. -/
theorem copy_on_write_oneParameter :
    ∃ s₀ : Session Unit Float,
      oneParameter.build sumOfSquares (quasiNewton .standard) () 0 = .ok s₀ ∧
        CopiesOnWrite (s₀.afterAll [.migrad .standard, .hesse none]) := by
  obtain ⟨s₀, hbuild, -⟩ := exists_build_oneParameter (quasiNewton .standard) ()
    (P := fun _ => true) rfl
  exact ⟨s₀, hbuild, copy_on_write hbuild [.migrad .standard, .hesse none]⟩

end FitSession
