import FitSession.Naming.Chain
import FitSession.Proofs.Registry

/-!
# Names that are accepted

* `Registry.ofNames_eq_ok_iff`: the lists of names that are registered;
* `NameSource.IsSilent`, `NameChain.Answers`: sources that have no names, and the first one that
  has;
* `NameChain.deduce_eq_ok_iff`, `NameChain.deduce_eq_error_iff`: **what a chain answers**.
-/

namespace FitSession

variable {α : Type}

/-! ## Registries -/

/-- A list of names is registered exactly if it has a name, and none twice. -/
theorem Registry.ofNames_eq_ok_iff {names : List String} {r : Registry} :
    (Registry.ofNames names : Except (FitError α) Registry) = .ok r ↔ r.names = names := by
  constructor
  · intro h
    unfold ofNames at h
    split at h
    · cases h
    · split at h
      · cases h
      · cases h
        rfl
  · rintro rfl
    unfold ofNames
    rw [dif_neg r.nonempty]
    obtain ⟨names, table, hnonempty, htable⟩ := r
    dsimp only
    split
    · rename_i name hname
      rw [htable] at hname
      cases hname
    · rename_i found hfound
      obtain rfl : table = found := Except.ok.inj (htable.symm.trans hfound)
      rfl

theorem Registry.exists_of_nodup {names : List String} (hnonempty : names ≠ [])
    (hdistinct : names.Nodup) : ∃ r : Registry, r.names = names := by
  obtain ⟨table, htable⟩ := tabulate_of_nodup hdistinct
  exact ⟨⟨names, table, hnonempty, htable⟩, rfl⟩

/-! ## Chains -/

/-- The source has no names for the cost. -/
def NameSource.IsSilent (source : NameSource α) (cost : Cost α) : Prop :=
  source.names cost = none ∨ source.names cost = some []

namespace NameChain

variable {chain : NameChain α} {cost : Cost α} {names : List String} {source : NameSource α}

/-- The names are those of the first source that has any. -/
def Answers (chain : NameChain α) (cost : Cost α) (names : List String) : Prop :=
  ∃ before source after, chain.sources = before ++ source :: after ∧
    (∀ earlier ∈ before, earlier.IsSilent cost) ∧ source.names cost = some names ∧ names ≠ []

theorem answer_eq_some_iff :
    answer cost source = some names ↔ source.names cost = some names ∧ names ≠ [] := by
  unfold answer
  split
  · rename_i name rest hnames
    rw [hnames]
    refine ⟨?_, And.left⟩
    rintro ⟨⟩
    exact ⟨rfl, List.cons_ne_nil name rest⟩
  · rename_i hnames
    refine ⟨nofun, ?_⟩
    rintro ⟨heq, hne⟩
    obtain ⟨name, rest, rfl⟩ := List.exists_cons_of_ne_nil hne
    exact absurd heq (hnames name rest)

theorem answer_eq_none_iff : answer cost source = none ↔ source.IsSilent cost := by
  unfold answer NameSource.IsSilent
  rcases source.names cost with _ | _ | ⟨name, rest⟩ <;> simp

theorem deduce_eq_ok_iff : chain.deduce cost = .ok names ↔ chain.Answers cost names := by
  have hfirst : chain.sources.findSome? (answer cost) = some names ↔ chain.Answers cost names := by
    simp only [List.findSome?_eq_some_iff, answer_eq_some_iff, answer_eq_none_iff]
    exact ⟨fun ⟨before, source, after, h, hnames, hbefore⟩ =>
        ⟨before, source, after, h, hbefore, hnames⟩,
      fun ⟨before, source, after, h, hbefore, hnames⟩ =>
        ⟨before, source, after, h, hnames, hbefore⟩⟩
  rw [← hfirst, deduce]
  split <;> rename_i h <;> simp [h]

/-- A chain has no answer exactly if all of its sources are silent. -/
theorem deduce_eq_error_iff :
    (∃ e, chain.deduce cost = .error e) ↔ ∀ source ∈ chain.sources, source.IsSilent cost := by
  have hnone : chain.sources.findSome? (answer cost) = none ↔
      ∀ source ∈ chain.sources, source.IsSilent cost := by
    simp only [List.findSome?_eq_none_iff, answer_eq_none_iff]
  rw [← hnone, deduce]
  split <;> rename_i h <;> simp [h]

end NameChain
end FitSession
