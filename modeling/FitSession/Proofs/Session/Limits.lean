import FitSession.Proofs.Coordinates.Limits
import FitSession.Proofs.Engine.Lowest
import FitSession.Proofs.Session.Change
import FitSession.Proofs.Start

/-!
# The limits of a session

Writes clamp a value into its limit; the engine puts values in place as its transforms give them.
So after every run the values are within those limits whose transforms turn inside. They need not be
within the others.

* `StartSpec.keepsLimits_of_build`, `writeInvariant_keepsLimits`, `Remeasured.keepsLimits`: starts,
  writes and the engine;
* `Session.WithinLimits`, `limits_kept`: **values and arguments are within safe limits** after every
  run;
* `limit_left`: a fit that ends below a lower bound.
-/

namespace FitSession

/-! ## Starts, writes and the engine -/

variable {cost : Cost Float} {s t : ParameterState Float}

theorem StartSpec.keepsLimits_of_build {spec : StartSpec Float} {chain : NameChain Float}
    {start : Start Float} (h : spec.build cost chain = .ok start) : start.state.KeepsLimits := by
  intro e he
  obtain ⟨i, hi⟩ := List.mem_iff_getElem?.mp he
  obtain ⟨name, -, hmakes⟩ := makes_of_build h hi
  obtain ⟨x, hx, -⟩ := hmakes.value
  exact Entry.keepsLimit_of_clamp hx

/-- No write leads out of a limit. -/
theorem writeInvariant_keepsLimits : WriteInvariant ParameterState.KeepsLimits :=
  writeInvariant_of_entries (Q := Entry.KeepsLimit)
    (fun _ _ _ => Entry.keepsLimit_of_clamp rfl) (fun _ _ he => he) (fun _ _ he => he)
    (fun _ _ _ _ => Entry.keepsLimit_of_clamp rfl)

/-- A state at an internal point is within its limits. -/
theorem keepsLimits_movedTo (hs : s.KeepsLimits) (theta : List Float)
    (c : Option (Curvature Float)) : (s.movedTo theta c).KeepsLimits := by
  intro e' he' hsafe hnan
  obtain ⟨i, hi⟩ := List.mem_iff_getElem?.mp he'
  have hsettings := congrArg (·[i]?) (settings_movedTo s theta c)
  simp only [List.getElem?_map, hi, Option.map_some] at hsettings
  obtain ⟨e, he, heq⟩ := Option.map_eq_some_iff.mp hsettings.symm
  have hlimit : e.limit = e'.limit := (Prod.ext_iff.mp heq).2
  have hvalue := congrArg (·[i]?) (values_movedTo s theta c)
  simp only [ParameterState.values, List.getElem?_map, hi, Option.map_some] at hvalue
  rw [← hlimit] at hsafe ⊢
  exact hs.toExternal he hsafe hvalue.symm hnan

/-- The quasi-Newton engine does not lead out of a limit either. -/
theorem Remeasured.keepsLimits [Differences Float] {I : Nat → List Float → Prop}
    (h : Remeasured I cost s t) (hs : s.KeepsLimits) : t.KeepsLimits := by
  cases h with
  | fixed => exact hs
  | free theta => exact keepsLimits_movedTo hs theta _

/-! ## Whole runs -/

/-- The values of all states of a session are within the limits that are safe, and so are the
arguments at every internal point of the current state, as far as they are numbers. -/
structure Session.WithinLimits {σ : Type} (s : Session σ Float) : Prop where
  states : HoldsOfStates ParameterState.KeepsLimits s
  arguments : ∀ (theta : List Float) (i : Nat) (e : Entry Float) (x : Float),
    s.currentState.entries[i]? = some e → e.limit.IsSafe →
      ((ParameterMap.ofState s.currentState).toExternal theta)[i]? = some x →
        x.isNaN = false → e.limit.Holds x

/-- **Values stay within the limits whose transforms turn inside.** Where the transform of an
accepted limit turns inside, it gives a number within the limit at every finite coordinate, and with
a bound on one side only such a transform does. After any run with the quasi-Newton engine, whatever
its solvers and its differences, all values are within such limits, as far as they are numbers; and
so are the arguments of the cost. -/
theorem limits_kept [Differences Float] {σ : Type} {spec : SessionSpec Float}
    {choose : SolverOptions Float → Solvers Float} {solver : SolverOptions Float} {memory : σ}
    {shared : Int} {s₀ : Session σ Float}
    (hbuild : spec.build cost (quasiNewtonWith choose solver) memory shared = .ok s₀)
    (cs : List (Command Float)) :
    (∀ l : Limit Float, Limit.ofBounds l.lower l.upper = .ok l → l.TurnsInside →
      ∀ x, x.isFinite → l.Holds ((BoundTransform.ofLimit l).toExternal x)) ∧
    (∀ l : Limit Float, Limit.ofBounds l.lower l.upper = .ok l → l.hasLower ≠ l.hasUpper →
      (∀ x, x.isFinite → l.Holds ((BoundTransform.ofLimit l).toExternal x)) → l.TurnsInside) ∧
    (s₀.afterAll cs).WithinLimits := by
  have hfresh := SessionSpec.fresh_of_build hbuild
  obtain ⟨params, errordef, start, -, hstart, rfl⟩ := SessionSpec.exists_of_build hbuild
  have hstates := Session.afterAll_holdsOfStates writeInvariant_keepsLimits
    (quasiNewtonWith_respects (stayInSpaces_all choose) fun _ _ hs h => h.keepsLimits hs)
    (hfresh.holdsOfStates (StartSpec.keepsLimits_of_build hstart)) cs
  refine ⟨fun l hl hturn x hx => ?_, fun l hl hside => ?_, hstates, fun theta i e x he hsafe => ?_⟩
  · exact Limit.holds_toExternal (Limit.ofBounds_eq_ok.mp hl).1 hturn hx
  · exact (Limit.turnsInside_iff (Limit.ofBounds_eq_ok.mp hl).1 hside).mpr
  · exact hstates.current.toExternal he hsafe

/-- One parameter `x` that starts at 1 and has a lower bound. -/
def oneParameterAbove (bound : Float) : SessionSpec Float :=
  { oneParameter with
    params := { (oneParameter : SessionSpec Float).params with
      limits := [("x", ⟨some bound, none⟩)] } }

/-- A fit of one parameter with the lower bound 0.5 ends within that limit, which is safe. -/
theorem limits_kept_oneParameter :
    ∃ s₀ : Session Unit Float,
      (oneParameterAbove 0.5).build sumOfSquares (quasiNewton .standard) () 0 = .ok s₀ ∧
        ∃ e ∈ (s₀.afterAll [.migrad .standard]).currentState.entries,
          e.limit.IsSafe ∧ e.limit.Holds e.value := by
  obtain ⟨s₀, hbuild, hsafe⟩ := exists_ok_of_any
    (x := (oneParameterAbove 0.5).build sumOfSquares (quasiNewton .standard) () 0)
    (P := fun s => (s.afterAll [.migrad .standard]).currentState.entries.any fun e =>
      e.limit.lower ≤ e.limit.upper ∧ e.limit.hasLower ∧ ¬e.limit.hasUpper ∧
        e.limit.lower ≤ e.limit.lower - 1 + 1 ∧ e.value.isNaN = false) (by decide +kernel)
  obtain ⟨e, he, hsafe⟩ := List.any_eq_true.mp hsafe
  obtain ⟨hle, hlower, hupper, hturn, hnan⟩ := of_decide_eq_true hsafe
  have hsafe := Limit.isSafe_of_lower hle hlower hupper hturn
  exact ⟨s₀, hbuild, e, he, hsafe, (limits_kept hbuild [.migrad .standard]).2.2.states.current e he
    hsafe hnan⟩

/-- A fit of one parameter with the lower bound 0.1 succeeds and ends below that bound. -/
theorem limit_left :
    ∃ s₀ : Session Unit Float,
      (oneParameterAbove 0.1).build sumOfSquares (quasiNewton .standard) () 0 = .ok s₀ ∧
        succeeded (Session.migrad .standard s₀) = true ∧
          ∃ e ∈ (s₀.afterAll [.migrad .standard]).currentState.entries,
            Limit.ofBounds e.lower e.upper = .ok e.limit ∧ e.limit.isDegenerate = false ∧
              e.value < e.lower := by
  obtain ⟨s₀, hbuild, h⟩ := exists_ok_of_any
    (x := (oneParameterAbove 0.1).build sumOfSquares (quasiNewton .standard) () 0)
    (P := fun s => succeeded (Session.migrad .standard s) ∧
      (s.afterAll [.migrad .standard]).currentState.entries.any fun e =>
        e.lower ≤ e.upper ∧ e.limit.isDegenerate = false ∧ e.value < e.lower) (by decide +kernel)
  obtain ⟨hfit, hleft⟩ := of_decide_eq_true h
  obtain ⟨e, he, hleft⟩ := List.any_eq_true.mp hleft
  obtain ⟨hle, hwide, hbelow⟩ := of_decide_eq_true hleft
  exact ⟨s₀, hbuild, hfit, e, he, Limit.ofBounds_eq_ok.mpr ⟨hle, rfl⟩, hwide, hbelow⟩

end FitSession
