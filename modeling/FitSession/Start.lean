import FitSession.Naming.Chain
import FitSession.Registry
import FitSession.State
import FitSession.Warning

/-!
# Initial states

A fit starts from a registry and a state built from what the caller gives: values in order or by
name, and errors, limits and flags by name. Of several settings of one field the last one holds. A
parameter without a value starts inside its limit, and one without an error gets a step that fits
its limit or its value.

* `StartSpec`: what the caller gives;
* `StartSpec.resolveNames`, `StartSpec.requireKnownKeys`: the names, and the keys that must be among
  them;
* `Registry.fill`: a slot for each name, into which settings are written one after another;
* `startValue`, `startStep`, `startEntry`: what takes the place of a missing value or error, and the
  entry that is made;
* `Start`, `StartSpec.build`: the registry, the state and the warnings.
-/

namespace FitSession

/-- What the caller gives for the start of a fit. -/
structure StartSpec (α : Type) where
  names : Option (List String)
  positional : Option (List α)
  values : List (String × α)
  errors : List (String × α)
  limits : List (String × LimitSpec α)
  fixed : List (String × Bool)

/-- The start of a fit. -/
structure Start (α : Type) where
  registry : Registry
  state : ParameterState α
  warnings : List (Warning α)

variable {α : Type}

/-- The slots of the names of a registry, with items written into them in their order. -/
def Registry.fill {β γ : Type} (r : Registry) (read : β → Except (FitError α) γ) (slots : List γ)
    (items : List (String × β)) : Except (FitError α) (List γ) :=
  items.foldlM (fun slots (name, x) => do
    let y ← read x
    let i ← r.indexOf name
    pure (slots.set i y)) slots

variable [Scalar α]

/-- The start value of a parameter that has none: the middle of its limit, its only bound, or
zero. -/
def startValue (limit : Limit α) : α :=
  match limit.lowerBound, limit.upperBound with
  | some lo, some hi => 0.5 * (lo + hi)
  | some lo, none => lo
  | none, some hi => hi
  | none, none => 0

/-- The step of a parameter that has none: a hundredth of its limit's width, or a tenth of its
value but not below a tenth. -/
def startStep (value : α) (limit : Limit α) : α :=
  let relative := Scalar.maxNum (0.1 * Scalar.abs value) 0.1
  match limit.lowerBound, limit.upperBound with
  | some lo, some hi => if lo < hi then 0.01 * (hi - lo) else relative
  | _, _ => relative

/-- The entry of one parameter from what is in its slots, and the warning if its value was
seeded. -/
def startEntry (index : Nat) (name : String) (limit : Limit α) (value error : Option α)
    (fixed : Bool) : Except (FitError α) (Entry α × List (Warning α)) := do
  let (value, warnings) ← match value with
    | some v => do
      checkValue index v
      pure (v, [])
    | none =>
      let seeded := startValue limit
      pure (seeded, [Warning.missingInitialValue name seeded])
  let value := limit.clamp value
  let error ← match error with
    | some e => do
      checkError index e
      pure e
    | none => pure (startStep value limit)
  pure (⟨value, error, fixed || limit.isDegenerate, limit.lower, limit.upper⟩, warnings)

namespace StartSpec

/-- Nothing given. -/
def empty : StartSpec α := ⟨none, none, [], [], [], []⟩

/-- One more value by name. -/
def withValue (s : StartSpec α) (name : String) (x : α) : StartSpec α :=
  { s with values := s.values ++ [(name, x)] }

/-- One more error by name. -/
def withError (s : StartSpec α) (name : String) (x : α) : StartSpec α :=
  { s with errors := s.errors ++ [(name, x)] }

/-- One more limit by name. -/
def withLimit (s : StartSpec α) (name : String) (l : LimitSpec α) : StartSpec α :=
  { s with limits := s.limits ++ [(name, l)] }

/-- One more fixed flag by name. -/
def withFixed (s : StartSpec α) (name : String) (on : Bool) : StartSpec α :=
  { s with fixed := s.fixed ++ [(name, on)] }

/-- The settings of `base`, then those of `later`, so that the latter hold; positional values take
the place of all values of `base`. -/
def followedBy (base later : StartSpec α) : StartSpec α where
  names := later.names <|> base.names
  positional := later.positional <|> base.positional
  values := (if later.positional.isSome then [] else base.values) ++ later.values
  errors := base.errors ++ later.errors
  limits := base.limits ++ later.limits
  fixed := base.fixed ++ later.fixed

/-- The names: those given, else deduced, else made up for positional values. -/
def resolveNames (s : StartSpec α) (cost : Cost α) (chain : NameChain α) :
    Except (FitError α) Registry :=
  match s.names, s.positional with
  | some names, some values =>
    if names.length = values.length then Registry.ofNames names
    else .error (.configuration (.positionalCount values.length names.length))
  | some names, none => Registry.ofNames names
  | none, some values =>
    match chain.deduce cost with
    | .ok names =>
      if names.length = values.length then Registry.ofNames names
      else .error (.configuration (.positionalCount values.length names.length))
    | .error _ => Registry.positional values.length
  | none, none => chain.deduce cost >>= Registry.ofNames

/-- Every key with the field it belongs to. -/
def keys (s : StartSpec α) : List (KeyedField × String) :=
  s.values.map (fun (n, _) => (.value, n)) ++ s.errors.map (fun (n, _) => (.error, n))
    ++ s.limits.map (fun (n, _) => (.limit, n)) ++ s.fixed.map (fun (n, _) => (.fixed, n))

/-- Every key must be one of the names. -/
def requireKnownKeys (s : StartSpec α) (registry : Registry) : Except (FitError α) Unit :=
  match s.keys.find? fun (_, name) => !registry.contains name with
  | some (field, name) => .error (.configuration (.unknownKey field name registry.names))
  | none => .ok ()

/-- The start of a fit of `cost`. -/
def build (s : StartSpec α) (cost : Cost α) (chain : NameChain α) :
    Except (FitError α) (Start α) := do
  if s.positional.isSome && !s.values.isEmpty then
    throw (.configuration .positionalAndNamed)
  let registry ← s.resolveNames cost chain
  s.requireKnownKeys registry
  let limits ← registry.fill (·.toLimit) (List.replicate registry.len Limit.unbounded) s.limits
  let values ← registry.fill (pure ∘ some)
    ((s.positional.map (·.map some)).getD (List.replicate registry.len none)) s.values
  let errors ← registry.fill (pure ∘ some) (List.replicate registry.len none) s.errors
  let fixed ← registry.fill pure (List.replicate registry.len false) s.fixed
  let built ← registry.names.zipIdx.mapM fun (name, i) =>
    startEntry i name (limits[i]?.getD Limit.unbounded) values[i]?.join errors[i]?.join
      (fixed[i]?.getD false)
  pure ⟨registry, .ofEntries (built.map (·.1)), built.flatMap (·.2)⟩

end StartSpec
end FitSession
