import FitSession.Numeral.Written
import FitSession.Snapshot
import FitSession.Text.Quoted

/-!
# Written snapshots

The text of a snapshot is a JSON object with a key on each line, indented by two spaces. A number
that is not finite is written as `null`.

* `SnapshotValue.write`: one value;
* `Snapshot.write`: the text.
-/

namespace FitSession

/-- A number of a snapshot. -/
def writeNumber (x : Float) : String := if x.isFinite then Layout.json.write x else "null"

/-- A bound of a snapshot. -/
def writeBound : Option Float → String
  | some x => writeNumber x
  | none => "null"

/-- One value of a snapshot. -/
def SnapshotValue.write : SnapshotValue Float → String
  | .flag on => toString on
  | .number x => writeNumber x
  | .limit lower upper => "[\n    " ++ writeBound lower ++ ",\n    " ++ writeBound upper ++ "\n  ]"

/-- The text of a snapshot. -/
def Snapshot.write (s : Snapshot Float) : String :=
  let lines := s.entries.map fun (key, v) => "\n  " ++ jsonQuote key ++ ": " ++ v.write
  if lines.isEmpty then "\x7b\x7d"
  else "\x7b" ++ ",".intercalate lines ++ "\n\x7d"

end FitSession
