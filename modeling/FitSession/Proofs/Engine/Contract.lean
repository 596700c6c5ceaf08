import FitSession.Proofs.Bench
import FitSession.Session.Fit

/-!
# What a session may ask of an engine

An engine is free in what it computes. Some facts about sessions only hold when it plays by the
rules that every engine is written for.

* `Engine.MigradKeepsErrordef`, `Engine.KeepsErrordef`, `Engine.MovesOn`, `Engine.FollowsErrordef`:
  the errordef belongs to the caller, evaluations are only ever added to the counters, and minima are
  marked with the errordef;
* `Engine.Respects`, `Engine.KeepsLength`: properties of states that an engine hands on, such as
  having one entry per parameter;
* `Engine.RefinesWhole`: work on a minimum either succeeds or changes nothing;
* `Engine.IsDeterministic`: a minimization does not hang on what the engine remembers;
* `FunctionMinimum.SameButCounts`, `Engine.IgnoresHistory`: nor does any other work, and not on what
  was counted before either;
* `attempts_keeps`, `attempts_returns`, `attempts_ends`, `coupled_attempts`, `matching_attempts`:
  the same for repeated minimizations;
* `Engine.raising`, `Engine.answering`: engines that break the rules.
-/

namespace FitSession

variable {σ α : Type}

namespace Engine

/-- The engine leaves the errordef in its minimizations. -/
def MigradKeepsErrordef (E : Engine σ α) : Prop :=
  ∀ cost start o, Keeps Bench.SameUp (E.migrad cost start o)

/-- The engine leaves the errordef as its caller has set it. -/
structure KeepsErrordef (E : Engine σ α) : Prop where
  migrad : ∀ cost start o, Keeps Bench.SameUp (E.migrad cost start o)
  refinement : ∀ cost limit, Keeps (fun p q => p.1.SameUp q.1) (E.refinement cost limit)
  hesseState : ∀ cost state limit, Keeps Bench.SameUp (E.hesseState cost state limit)
  minos : ∀ cost m index o, Keeps Bench.SameUp (E.minos cost m index o)
  contourLine : ∀ cost m ix iy count o, Keeps Bench.SameUp (E.contourLine cost m ix iy count o)

/-- The engine leaves the errordef, and never counts back. -/
structure MovesOn (E : Engine σ α) : Prop where
  migrad : ∀ cost start o, Keeps Bench.Onward (E.migrad cost start o)
  refinement : ∀ cost limit, Keeps (fun p q => p.1.Onward q.1) (E.refinement cost limit)
  hesseState : ∀ cost state limit, Keeps Bench.Onward (E.hesseState cost state limit)
  minos : ∀ cost m index o, Keeps Bench.Onward (E.minos cost m index o)
  contourLine : ∀ cost m ix iy count o, Keeps Bench.Onward (E.contourLine cost m ix iy count o)

theorem MovesOn.keepsErrordef {E : Engine σ α} (h : E.MovesOn) : E.KeepsErrordef where
  migrad cost start o b := (h.migrad cost start o b).up
  refinement cost limit p := (h.refinement cost limit p).up
  hesseState cost state limit b := (h.hesseState cost state limit b).up
  minos cost m index o b := (h.minos cost m index o b).up
  contourLine cost m ix iy count o b := (h.contourLine cost m ix iy count o b).up

/-- The engine leaves the errordef, and a minimum says with which errordef it was found. -/
structure FollowsErrordef (E : Engine σ α) : Prop extends E.KeepsErrordef where
  up_migrad : ∀ {cost start o b m b'}, E.migrad cost start o b = .ok m b' → m.up = b.up
  up_refinement : ∀ cost limit, Keeps (fun p q => q.2.up = p.2.up) (E.refinement cost limit)

/-- From states with a property, the engine makes only states with that property. -/
structure Respects (E : Engine σ α) (cost : Cost α) (P : ParameterState α → Prop) : Prop where
  migrad : ∀ start o, P start → Returns (fun m => P m.state) (E.migrad cost start o)
  refinement : ∀ limit, Keeps (fun p q => P p.2.state → P q.2.state) (E.refinement cost limit)
  hesseState : ∀ state limit, P state →
    Returns (fun r => ∀ t, r = some t → P t) (E.hesseState cost state limit)

/-- The states that the engine makes have one entry for each entry of the state they are made
from. -/
def KeepsLength (E : Engine σ α) : Prop :=
  ∀ cost n, E.Respects cost fun state => state.len = n

/-- Work on a minimum that fails leaves the minimum as it was. -/
def RefinesWhole (E : Engine σ α) : Prop :=
  ∀ {cost limit b m e b' m'}, E.refinement cost limit (b, m) = .error e (b', m') → m' = m

/-- What a minimization gives, and what it leaves but for the memory, does not hang on the
memory. -/
def IsDeterministic (E : Engine σ α) : Prop :=
  ∀ cost start o, Coupled Bench.Alike (E.migrad cost start o)

end Engine

/-- The minima only differ in what was counted when they were found. -/
def FunctionMinimum.SameButCounts (m m' : FunctionMinimum α) : Prop :=
  m' = { m with nfcn := m'.nfcn, ngrad := m'.ngrad }

/-- What the engine gives only hangs on what it is asked and on the errordef: neither on the
evaluations that were counted before nor on what the engine remembers. -/
structure Engine.IgnoresHistory (E : Engine σ α) : Prop where
  migrad : ∀ cost start o, Matching Bench.SameUp FunctionMinimum.SameButCounts
    (E.migrad cost start o) (E.migrad cost start o)
  refinement : ∀ cost limit, InStep (fun p q => p.1.SameUp q.1 ∧ p.2.SameButCounts q.2)
    (E.refinement cost limit) (E.refinement cost limit)
  hesseState : ∀ cost state limit, InStep Bench.SameUp (E.hesseState cost state limit)
    (E.hesseState cost state limit)
  minos : ∀ cost {m m'} index o, m.SameButCounts m' →
    InStep Bench.SameUp (E.minos cost m index o) (E.minos cost m' index o)
  contourLine : ∀ cost {m m'} ix iy count o, m.SameButCounts m' →
    InStep Bench.SameUp (E.contourLine cost m ix iy count o) (E.contourLine cost m' ix iy count o)

namespace FunctionMinimum.SameButCounts

variable {m m' m'' : FunctionMinimum α}

theorem refl (m : FunctionMinimum α) : m.SameButCounts m := rfl

theorem symm (h : m.SameButCounts m') : m'.SameButCounts m := by
  unfold SameButCounts at *
  rw [h]

theorem trans (h : m.SameButCounts m') (h' : m'.SameButCounts m'') : m.SameButCounts m'' := by
  unfold SameButCounts at *
  rw [h', h]

theorem refreshed (h : m.SameButCounts m') : m.refreshed.SameButCounts m'.refreshed := by
  unfold SameButCounts at *
  rw [h]
  rfl

end FunctionMinimum.SameButCounts

/-! ## Repeated minimizations -/

section Attempts

variable {fit : ParameterState α → Run σ α (FunctionMinimum α)}

theorem attempts_keeps {R : Bench σ α → Bench σ α → Prop} [Chains R]
    (h : ∀ start, Keeps R (fit start)) :
    ∀ left made start, Keeps R (attempts fit left made start)
  | 0, made, start => (h start).bind fun m => Keeps.pure (m, made + 1)
  | left + 1, made, start => (h start).bind fun m =>
    Keeps.ite (Keeps.pure (m, made + 1)) (attempts_keeps h left (made + 1) m.state)

theorem attempts_returns {P : ParameterState α → Prop}
    (h : ∀ start, P start → Returns (fun m => P m.state) (fit start)) :
    ∀ left made start, P start →
      Returns (fun r => P r.1.state) (attempts fit left made start)
  | 0, _, start, hs => (h start hs).bind fun _ hm => Returns.pure hm
  | left + 1, made, start, hs => (h start hs).bind fun m hm =>
    Returns.ite (Returns.pure hm) (attempts_returns h left (made + 1) m.state hm)

/-- What holds of every minimum and the bench that it leaves holds of the last one. -/
theorem attempts_ends {I : Bench σ α → Prop} {P : FunctionMinimum α → Bench σ α → Prop}
    (hkeeps : ∀ start, Keeps (fun b b' => I b → I b') (fit start))
    (hfit : ∀ {start b m b'}, I b → fit start b = .ok m b' → P m b') :
    ∀ {left made start b r b'}, I b → attempts fit left made start b = .ok r b' → P r.1 b' := by
  intro left
  induction left with
  | zero =>
    intro made start b r b' hb h
    obtain ⟨m, c, hm, h⟩ := bind_eq_ok.mp h
    cases h
    exact hfit hb hm
  | succ left ih =>
    intro made start b r b' hb h
    obtain ⟨m, c, hm, h⟩ := bind_eq_ok.mp h
    change (if m.isFinal then _ else _ : Run σ α _) c = _ at h
    split at h
    · cases h
      exact hfit hb hm
    · exact ih ((hkeeps start).of_ok hm hb) h

theorem up_attempts (hkeeps : ∀ start, Keeps Bench.SameUp (fit start))
    (hup : ∀ {start b m b'}, fit start b = .ok m b' → m.up = b.up) {left made : Nat}
    {start : ParameterState α} {b b' : Bench σ α} {r : FunctionMinimum α × Nat}
    (h : attempts fit left made start b = .ok r b') : r.1.up = b.up :=
  attempts_ends (I := fun c => c.up = b.up) (P := fun m _ => m.up = b.up)
    (fun start c hc => (hkeeps start c).trans hc) (fun hc hm => (hup hm).trans hc) rfl h

theorem coupled_attempts (h : ∀ start, Coupled Bench.Alike (fit start)) :
    ∀ left made start, Coupled Bench.Alike (attempts fit left made start)
  | 0, made, start => (h start).bind fun m => Coupled.pure (m, made + 1)
  | left + 1, made, start => (h start).bind fun m =>
    Coupled.ite (Coupled.pure (m, made + 1)) (coupled_attempts h left (made + 1) m.state)

/-- Repeated minimizations end with minima that are the same but for the counters, after as many
attempts. -/
theorem matching_attempts
    (h : ∀ start, Matching Bench.SameUp FunctionMinimum.SameButCounts (fit start) (fit start)) :
    ∀ left made start, Matching Bench.SameUp (fun r r' => r.1.SameButCounts r'.1 ∧ r'.2 = r.2)
      (attempts fit left made start) (attempts fit left made start)
  | 0, made, start => (h start).bind fun m m' hm => Matching.pure ⟨hm, rfl⟩
  | left + 1, made, start => by
    refine (h start).bind fun m m' hm => ?_
    have hfinal : m'.isFinal = m.isFinal := by rw [hm]; rfl
    have hstate : m'.state = m.state := by rw [hm]
    simp only [hfinal, hstate]
    exact Matching.ite (Matching.pure ⟨hm, rfl⟩) (matching_attempts h left (made + 1) m.state)

end Attempts

/-! ## Refinements that only change a minimum when they succeed -/

namespace Refinement

variable {work : FunctionMinimum α → Run σ α (FunctionMinimum α)}

theorem bench_ofRun {R : Bench σ α → Bench σ α → Prop} (h : ∀ m, Keeps R (work m)) :
    Keeps (fun p q => R p.1 q.1) (ofRun work) := by
  intro (b, m)
  have hb := h m b
  unfold ofRun
  cases hw : work m b <;> simpa [hw] using hb

theorem up_ofRun (h : ∀ m, Returns (fun refined => refined.up = m.up) (work m)) :
    Keeps (fun p q => q.2.up = p.2.up) (ofRun work) := by
  intro (b, m)
  unfold ofRun
  cases hw : work m b with
  | ok refined b => simpa [hw] using h m _ _ _ hw
  | error e b => simp [hw]

theorem keeps_ofRun {P : ParameterState α → Prop}
    (h : ∀ m, P m.state → Returns (fun m => P m.state) (work m)) :
    Keeps (fun p q => P p.2.state → P q.2.state) (ofRun work) := by
  intro (b, m) hm
  unfold ofRun
  cases hw : work m b with
  | ok refined b => simpa [hw] using h m hm _ _ _ hw
  | error e b => simpa [hw] using hm

theorem ofRun_eq_ok {b b' : Bench σ α} {m m' : FunctionMinimum α}
    (h : ofRun work (b, m) = .ok () (b', m')) : work m b = .ok m' b' := by
  simp only [ofRun] at h
  split at h
  · cases h
    assumption
  · cases h

theorem ofRun_eq_error {b b' : Bench σ α} {m m' : FunctionMinimum α} {e : FitError α}
    (h : ofRun work (b, m) = .error e (b', m')) : m' = m := by
  simp only [ofRun] at h
  split at h
  · cases h
  · cases h
    rfl

theorem inStep_ofRun (h : ∀ m m', m.SameButCounts m' →
    Matching Bench.SameUp FunctionMinimum.SameButCounts (work m) (work m')) :
    InStep (fun p q => p.1.SameUp q.1 ∧ p.2.SameButCounts q.2) (ofRun work) (ofRun work) := by
  rintro ⟨b, m⟩ ⟨c, m'⟩ ⟨hup, hm⟩
  have hend := h m m' hm b c hup
  unfold ofRun
  dsimp only
  generalize work m b = r at hend ⊢
  generalize work m' c = r' at hend ⊢
  cases hend with
  | ok results states => exact ⟨rfl, states, results⟩
  | error states => exact ⟨rfl, states, hm⟩

end Refinement

/-! ## Engines that break the rules -/

namespace Engine

/-- The engine, with an errordef that is raised before every minimization. -/
def raising [Mul α] (E : Engine σ α) (factor : α) : Engine σ α :=
  { E with
    migrad := fun cost start o => do
      modify fun b => { b with up := factor * b.up }
      E.migrad cost start o }

/-- What is found at a raised errordef does not hang on the history either. -/
theorem IgnoresHistory.raising [Mul α] {E : Engine σ α} (h : E.IgnoresHistory) (factor : α) :
    (E.raising factor).IgnoresHistory :=
  { h with
    migrad := fun cost start o b c hup =>
      h.migrad cost start o { b with up := factor * b.up } { c with up := factor * c.up }
        (congrArg (factor * ·) hup) }

/-- The engine, with minima at one state whatever it is asked. -/
def answering (E : Engine σ α) (state : ParameterState α) : Engine σ α :=
  { E with
    migrad := fun cost start o => do
      let m ← E.migrad cost start o
      pure { m with state } }

end Engine
end FitSession
