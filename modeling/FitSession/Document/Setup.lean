import FitSession.Document.Given
import FitSession.Minimizer.Options
import FitSession.Session.Builder
import FitSession.Session.Scan
import FitSession.Snapshot.Reader

/-!
# Setups given as documents

What a caller writes to start a fit and to set it up.

* `StartSpec.ofDocument`, `Snapshot.ofDocument`, `NameChain.ofDocument`: the start of a fit;
* `SolverOptions.ofDocument`, `Strategy.ofDocument`, `MigradOptions.ofDocument`,
  `Bound.ofDocument`: options of calls;
* `SessionSpec.apply`, `SessionSpec.ofDocument`: the settings of a session.
-/

namespace FitSession

/-- What is asked of the start of a fit. The names under `fix` are fixed after all others. -/
def StartSpec.ofDocument (d : Document) : StartSpec Float :=
  let spec : StartSpec Float :=
    { names := (d.field? "names").map (·.toTexts)
      positional := (d.field? "positional").map (·.toFloats)
      values := d["values"].keyed (·.toFloat), errors := d["errors"].keyed (·.toFloat)
      limits := d["limits"].keyed LimitSpec.ofDocument, fixed := d["fixed"].keyed (·.toBool) }
  d["fix"].toTexts.foldl (fun s name => s.withFixed name true) spec

/-- A flag, a pair of bounds, or else a number. -/
def SnapshotValue.ofDocument (d : Document) : SnapshotValue Float :=
  match d with
  | .flag on => .flag on
  | .list _ =>
    let spec := LimitSpec.ofDocument d
    .limit spec.lower spec.upper
  | _ => .number d.toFloat

/-- A snapshot by its text or by its entries. -/
def Snapshot.ofDocument (d : Document) : Except (FitError Float) (Snapshot Float) :=
  match d with
  | .text s => Snapshot.read s
  | _ => .ok (.ofList (d.members.map fun (key, v) => (key, .ofDocument v)))

/-- A source of names by its name; any other has the label `constant` and the given names. -/
def NameSource.ofDocument (name : String) (names : List String) : NameSource Float :=
  match name with
  | "declared" => declaredNames
  | "signature" => signatureNames
  | "doc" => docNames
  | _ => ⟨"constant", fun _ => some names⟩

/-- A chain of sources: where it starts, and what is then put at either end. -/
def NameChain.ofDocument (d : Document) : NameChain Float :=
  let start : NameChain Float := if d[0].toText = "empty" then .empty else .standard
  (d.elems.drop 1).foldl
    (fun chain part =>
      let source := NameSource.ofDocument part[1].toText part[2].toTexts
      if part[0].toText = "push" then chain.push source else chain.prepend source)
    start

/-- The options of the solvers, over their defaults. -/
def SolverOptions.ofDocument (d : Document) : SolverOptions Float :=
  let base : SolverOptions Float := .standard
  let named (text : String) : Option LineSearchKind :=
    (LineSearchKind.ofName (α := Float) text).toOption
  { lineSearch := ((d.field? "line").bind fun l => named l.toText).getD base.lineSearch
    gradientTolerance := d.floatOr "tol_grad" base.gradientTolerance
    costTolerance := d.float? "tol_cost", memory := d.nat? "mem"
    spreadTolerance := d.floatOr "sd_tol" base.spreadTolerance }

/-- A strategy by its name or level. -/
def Strategy.ofDocument (d : Document) : Except (FitError Float) Strategy :=
  if d.isText then Strategy.ofName d.toText else Strategy.ofLevel d.toNat

/-- The options of a minimization. -/
def MigradOptions.ofDocument (d : Document) : MigradOptions Float :=
  ⟨d.nat? "call_limit", d.float? "precision", d.natOr "retry" MigradOptions.standardRetry⟩

/-- The range of a scan: the usual one, its ends, or a number of errors. -/
def Bound.ofDocument (d : Document) : Bound Float :=
  match d with
  | .null => .standard
  | .list _ => .range d[0].toFloat d[1].toFloat
  | _ => .sigma d.toFloat

namespace SessionSpec

/-- One more setting: its name, and what it sets. -/
def apply (spec : SessionSpec Float) (d : Document) :
    Except (FitError Float) (SessionSpec Float) := do
  let a := d[1]
  let withParams (f : StartSpec Float → StartSpec Float) : SessionSpec Float :=
    { spec with params := f spec.params }
  match d[0].toText with
  | "names" => pure (withParams fun p => { p with names := some a.toTexts })
  | "positional" => pure (withParams fun p => { p with positional := some a.toFloats })
  | "value" => pure (withParams (·.withValue a.toText d[2].toFloat))
  | "error" => pure (withParams (·.withError a.toText d[2].toFloat))
  | "limit" => pure (withParams (·.withLimit a.toText (.ofDocument d[2])))
  | "fix" => pure (withParams (·.withFixed a.toText true))
  | "params" => pure { spec with params := .ofDocument a }
  | "fitarg" => do
    let snapshot ← Snapshot.ofDocument a
    pure { spec with snapshot := some snapshot }
  | "errordef" => pure { spec with errordef := some a.toFloat }
  | "strategy" => do
    let strategy ← Strategy.ofDocument a
    pure { spec with strategy }
  | "tol" => pure { spec with tol := a.toFloat }
  | "print_level" => pure { spec with printLevel := a.toInt }
  | _ => pure { spec with chain := .ofDocument a }

/-- The settings of a list, one after another. -/
def ofDocument (d : Document) : Except (FitError Float) (SessionSpec Float) :=
  d.elems.foldlM apply standard

end SessionSpec

end FitSession
