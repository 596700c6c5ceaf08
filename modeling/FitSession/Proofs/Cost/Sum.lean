import FitSession.Cost.Sum
import FitSession.Proofs.Cost.Union
import FitSession.Proofs.Registry

/-!
# Sums of costs ask each term at its own arguments

* `CostSum.isUnion`: the names of a sum are the union of those of its terms;
* `CostSum.argumentsOf`, `CostSum.questions`: the arguments of a term found by name, and what the
  terms are asked;
* `SumsUp`, `noting`: a sum of answers that ends with the first failure, and what was asked for it;
* `pushes_unite_and_dispatch`: **every sum of costs asks each of them at its own arguments**.
-/

namespace FitSession

variable {α : Type}

/-! ## The names of a sum -/

theorem nodup_of_firstRepeated : ∀ {seen names : List String},
    firstRepeated seen names = none → names.Nodup ∧ ∀ name ∈ names, name ∉ seen
  | _, [], _ => by simp
  | seen, name :: rest, h => by
    unfold firstRepeated at h
    split at h
    · cases h
    · rename_i hname
      obtain ⟨hrest, hseen⟩ := nodup_of_firstRepeated h
      refine ⟨List.nodup_cons.mpr ⟨fun hmem => ?_, hrest⟩, ?_⟩
      · exact hseen name hmem List.mem_cons_self
      · rintro other hother hmem
        rcases List.mem_cons.mp hother with rfl | hother
        · exact hname hmem
        · exact hseen other hother (List.mem_cons_of_mem name hmem)

/-- A term has no name twice. -/
theorem Term.nodup_names (t : Term α) : t.names.Nodup := (nodup_of_firstRepeated t.distinct).1

/-- The names of a sum are the union of those of its terms. -/
theorem CostSum.isUnion (s : CostSum α) : IsUnion (s.terms.map (·.names)) s.names s.maps := by
  have h := isUnion_unionOf (s.terms.map (·.names))
  rwa [s.union_eq] at h

/-- In a list without duplicates that is paired with another one, an item is found with what stands
at its place. -/
theorem lookup_zip {union : List String} {name : String} (hunion : union.Nodup) (args : List α) :
    ∀ {i : Nat}, union[i]? = some name → (union.zip args).lookup name = args[i]? := by
  induction union generalizing args with
  | nil => intro i hi; simp at hi
  | cons first union ih =>
    intro i hi
    obtain ⟨hfirst, hunion⟩ := List.nodup_cons.mp hunion
    cases args with
    | nil => simp
    | cons x args =>
      cases i with
      | zero =>
        obtain rfl : first = name := by simpa using hi
        simp
      | succ i =>
        have hi : union[i]? = some name := by simpa using hi
        have hne : name ≠ first := fun heq => hfirst (heq ▸ List.mem_of_getElem? hi)
        rw [List.zip_cons_cons, List.lookup_cons, beq_eq_false_iff_ne.mpr hne]
        simpa using ih hunion args hi

/-! ## Answers that are added -/

section SumsUp

variable [Add α]

/-- The questions were answered in their order and the answers added to a start, up to the first
failure; these questions were asked. -/
inductive SumsUp (start : α) (questions : List (Cost α × List α)) :
    Except (FitError α) α → List (Cost α × List α) → Prop
  | all (vs : List α) (hvs : List.Forall₂ (fun q v => q.1.value q.2 = .ok v) questions vs) :
    SumsUp start questions (.ok (vs.foldl (· + ·) start)) questions
  | stopped (pre : List (Cost α × List α)) (q : Cost α × List α) (post : List (Cost α × List α))
    (vs : List α) (e : FitError α) (hquestions : questions = pre ++ q :: post)
    (hvs : List.Forall₂ (fun q v => q.1.value q.2 = .ok v) pre vs)
    (hq : q.1.value q.2 = .error e) : SumsUp start questions (.error e) (pre ++ [q])

theorem SumsUp.cons {start v : α} {q : Cost α × List α} {questions asked : List (Cost α × List α)}
    {r : Except (FitError α) α} (hq : q.1.value q.2 = .ok v)
    (h : SumsUp (start + v) questions r asked) : SumsUp start (q :: questions) r (q :: asked) := by
  cases h with
  | all vs hvs => exact .all (v :: vs) (.cons hq hvs)
  | stopped pre q' post vs e hquestions hvs hq' =>
    subst hquestions
    exact .stopped (q :: pre) q' post (v :: vs) e rfl (.cons hq hvs) hq'

/-- A cost is asked, and it is noted that it was. -/
def noting (cost : Cost α) (args : List α) :
    EStateM (FitError α) (List (Cost α × List α)) α := do
  modify (· ++ [(cost, args)])
  match cost.value args with
  | .ok v => pure v
  | .error e => throw e

omit [Add α] in
theorem noting_apply (cost : Cost α) (args : List α) (log : List (Cost α × List α)) :
    noting cost args log = outcome (cost.value args) (log ++ [(cost, args)]) := by
  unfold noting
  rw [bind_apply]
  cases cost.value args <;> rfl

/-- The sum of the answers to some questions. -/
def sumOf {m : Type → Type} [Monad m] (ask : Cost α → List α → m α) (start : α)
    (questions : List (Cost α × List α)) : m α :=
  questions.foldlM (fun total q => do
    let v ← ask q.1 q.2
    pure (total + v)) start

theorem sumOf_cons {m : Type → Type} [Monad m] [LawfulMonad m]
    (ask : Cost α → List α → m α) (start : α) (q : Cost α × List α)
    (questions : List (Cost α × List α)) : sumOf ask start (q :: questions) = (do
      let v ← ask q.1 q.2
      sumOf ask (start + v) questions) := by
  simp [sumOf]

/-- Questions are answered and noted in their order, up to the first failure. -/
theorem sumsUp_sumOf : ∀ (questions log : List (Cost α × List α)) (start : α), ∃ asked,
    SumsUp start questions (sumOf Cost.value start questions) asked ∧
      sumOf noting start questions log = outcome (sumOf Cost.value start questions) (log ++ asked)
  | [], log, start => ⟨[], .all [] .nil, by rw [List.append_nil]; rfl⟩
  | q :: questions, log, start => by
    rw [sumOf_cons, sumOf_cons, bind_apply, noting_apply]
    cases hq : q.1.value q.2 with
    | ok v =>
      obtain ⟨asked, hsums, hnoting⟩ := sumsUp_sumOf questions (log ++ [q]) (start + v)
      rw [List.append_assoc] at hnoting
      exact ⟨q :: asked, hsums.cons hq, hnoting⟩
    | error e => exact ⟨[q], .stopped [] q questions [] e rfl .nil hq, rfl⟩

end SumsUp

/-! ## What the terms are asked -/

variable [Scalar α]

namespace CostSum

/-- The arguments of a term, found by name. -/
def argumentsOf (s : CostSum α) (args : List α) (t : Term α) : List α :=
  t.names.map fun name => ((s.names.zip args).lookup name).getD 0

/-- The costs of a sum, each with its own arguments. -/
def questions (s : CostSum α) (args : List α) : List (Cost α × List α) :=
  s.terms.map fun t => (t.cost, s.argumentsOf args t)

/-- The arguments at the places of a term are those of its names. -/
theorem argumentsAt_eq (s : CostSum α) (args : List α) {t : Term α} {places : List Nat}
    (h : Places s.names t.names places) : argumentsAt args places = s.argumentsOf args t := by
  unfold argumentsAt argumentsOf Places at *
  generalize t.names = names at h
  induction h with
  | nil => rfl
  | cons hi _ ih => rw [List.map_cons, List.map_cons, ih, lookup_zip s.isUnion.nodup args hi]

/-- With an argument for each name of the union, every name of a term is found. -/
theorem mapM_lookup (s : CostSum α) {args : List α} (hlen : args.length = s.names.length)
    {t : Term α} {places : List Nat} (h : Places s.names t.names places) :
    t.names.mapM (fun name => (s.names.zip args).lookup name) = some (s.argumentsOf args t) := by
  unfold argumentsOf Places at *
  generalize t.names = names at h
  induction h with
  | nil => rfl
  | @cons name i _ _ hi _ ih =>
    have hlt : i < args.length := hlen ▸ (List.getElem?_eq_some_iff.mp hi).1
    rw [List.mapM_cons, List.map_cons, ih, lookup_zip s.isUnion.nodup args hi,
      List.getElem?_eq_getElem hlt]
    rfl

/-- A sum asks each of its terms at its own arguments. -/
theorem total_eq_sumOf {m : Type → Type} [Monad m] (ask : Cost α → List α → m α) (s : CostSum α)
    (args : List α) : s.total ask args = sumOf ask 0 (s.questions args) := by
  have hquestions : (s.terms.zip s.maps).map
      (fun p => (p.1.cost, argumentsAt args p.2)) = s.questions args := by
    have hmaps := List.forall₂_map_left_iff.mp s.isUnion.maps
    unfold questions
    generalize s.terms = terms, s.maps = maps at hmaps
    induction hmaps with
    | nil => rfl
    | cons h _ ih =>
      rw [List.zip_cons_cons, List.map_cons, List.map_cons, ih]
      dsimp only
      rw [s.argumentsAt_eq args h]
  rw [← hquestions, sumOf, List.foldlM_map]
  rfl

/-- A sum answers at a list of arguments: the terms are asked in their order, each at the arguments
of its own names, and the answers are added from the left. -/
structure Dispatches (s : CostSum α) (args : List α) : Prop where
  mismatch : args.length ≠ s.names.length →
    s.value args = .error (.lengthMismatch s.names.length args.length)
  arguments : args.length = s.names.length → ∀ t ∈ s.terms,
    t.names.mapM (fun name => (s.names.zip args).lookup name) = some (s.argumentsOf args t)
  value : args.length = s.names.length → ∃ asked,
    SumsUp 0 (s.questions args) (s.value args) asked ∧
      s.total noting args [] = outcome (s.value args) asked

theorem dispatches (s : CostSum α) (args : List α) : s.Dispatches args where
  mismatch hne := by
    unfold value checkArguments checkLength
    rw [if_neg (Ne.symm hne)]
    rfl
  arguments hlen t ht := by
    obtain ⟨i, hi, rfl⟩ := List.getElem_of_mem ht
    have hmaps := List.forall₂_map_left_iff.mp s.isUnion.maps
    exact s.mapM_lookup hlen (hmaps.get hi (hmaps.length_eq ▸ hi))
  value hlen := by
    have hvalue : s.value args = sumOf Cost.value 0 (s.questions args) := by
      unfold value checkArguments checkLength
      rw [if_pos hlen.symm, ← total_eq_sumOf]
      rfl
    rw [hvalue, total_eq_sumOf]
    obtain ⟨asked, hsums, hnoting⟩ := sumsUp_sumOf (s.questions args) [] 0
    exact ⟨asked, hsums, hnoting⟩

end CostSum

/-! ## Sums that are built -/

omit [Scalar α] in
theorem Term.ofCost_eq_ok {cost : Cost α} {t : Term α} (h : Term.ofCost cost = .ok t) :
    t.cost = cost := by
  unfold ofCost at h
  split at h
  · cases h
  · split at h
    · cases h
    · cases h
      rfl

theorem CostSum.leaves_of_push {s s' : CostSum α} {x : Addend α} (h : s.push x = .ok s') :
    s'.leaves = s.leaves ++ x.leaves := by
  obtain ⟨terms, hterms, h⟩ := except_bind_eq_ok.mp h
  cases h
  have hcosts := map_of_mapM_ok (fun _ _ => Term.ofCost_eq_ok) hterms
  change (s.terms ++ terms).map (·.cost) = s.leaves ++ x.leaves
  rw [List.map_append, hcosts]
  rfl

theorem CostSum.leaves_of_pushes : ∀ {xs : List (Addend α)} {s s' : CostSum α},
    xs.foldlM CostSum.push s = .ok s' → s'.leaves = s.leaves ++ xs.flatMap Addend.leaves
  | [], s, s', h => by
    cases h
    rw [List.flatMap_nil, List.append_nil]
  | x :: xs, s, s', h => by
    rw [List.foldlM_cons] at h
    obtain ⟨s₁, hx, hxs⟩ := except_bind_eq_ok.mp h
    rw [leaves_of_pushes hxs, leaves_of_push hx, List.flatMap_cons, List.append_assoc]

/-- **Every sum of costs asks each of them at its own arguments.** However the costs were put into
it, its names are the union of theirs. -/
theorem pushes_unite_and_dispatch {xs : List (Addend α)} {s s' : CostSum α}
    (h : xs.foldlM CostSum.push s = .ok s') :
    s'.leaves = s.leaves ++ xs.flatMap Addend.leaves ∧
      (∀ t ∈ s'.terms, NameChain.standard.deduce t.cost = .ok t.names) ∧
      IsUnion (s'.terms.map (·.names)) s'.names s'.maps ∧
      ∀ args, s'.Dispatches args :=
  ⟨CostSum.leaves_of_pushes h, fun t _ => t.deduced, s'.isUnion, s'.dispatches⟩

/-- The sum of two parameters with declared names. -/
def pairOf (x y : String) : Addend Float :=
  .single { Cost.ofFunction fun args => .ok (Scalar.sum args) with names := some [x, y] }

theorem pushes_unite_and_dispatch_overlapping : ∃ s : CostSum Float,
    [pairOf "x" "y", pairOf "y" "z"].foldlM CostSum.push .empty = .ok s ∧
      s.names = ["x", "y", "z"] ∧
      IsUnion (s.terms.map (·.names)) s.names s.maps ∧ ∀ args, s.Dispatches args := by
  have hnames : ([pairOf "x" "y", pairOf "y" "z"].foldlM CostSum.push .empty).toOption.any
      (fun s => s.names == ["x", "y", "z"]) = true := by decide +kernel
  cases h : [pairOf "x" "y", pairOf "y" "z"].foldlM CostSum.push .empty with
  | error e => simp [h, Except.toOption] at hnames
  | ok s =>
    obtain ⟨-, -, hunion, hdispatches⟩ := pushes_unite_and_dispatch h
    rw [h] at hnames
    exact ⟨s, rfl, beq_iff_eq.mp hnames, hunion, hdispatches⟩

end FitSession
