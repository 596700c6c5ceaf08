import FitSession.Snapshot
import FitSession.Snapshot.Number
import FitSession.Text.JsonString

/-!
# Reading snapshots

The text of a snapshot is a JSON object whose values are flags, numbers and pairs of numbers or
`null`. Any other text is refused as a whole. A repeated key keeps its last value.

* `readValue`: one value;
* `Snapshot.read`: the snapshot of a text.
-/

namespace FitSession

/-- A bound: a number or `null`. -/
def readBound (cs : List Char) : Option (Option Float × List Char) :=
  match cs with
  | 'n' :: 'u' :: 'l' :: 'l' :: rest => some (none, rest)
  | _ => (readNumber cs).map fun (x, rest) => (some x, rest)

/-- A value: a flag, a number, or a pair of bounds. -/
def readValue (cs : List Char) : Option (SnapshotValue Float × List Char) :=
  match cs with
  | 't' :: 'r' :: 'u' :: 'e' :: rest => some (.flag true, rest)
  | 'f' :: 'a' :: 'l' :: 's' :: 'e' :: rest => some (.flag false, rest)
  | '[' :: rest => do
    let (lower, rest) ← readBound (dropJsonBlanks rest)
    let rest ← readMark ',' rest
    let (upper, rest) ← readBound (dropJsonBlanks rest)
    let rest ← readMark ']' rest
    pure (.limit lower upper, rest)
  | _ => (readNumber cs).map fun (x, rest) => (.number x, rest)

/-- The keys and values up to the closing brace. The first argument bounds their number. -/
def readItems : Nat → Snapshot Float → List Char → Option (Snapshot Float × List Char)
  | 0, _, _ => none
  | fuel + 1, s, cs => do
    let (key, rest) ← readString (dropJsonBlanks cs)
    let rest ← readMark ':' rest
    let (v, rest) ← readValue (dropJsonBlanks rest)
    let s := s.insert key v
    match dropJsonBlanks rest with
    | ',' :: rest => readItems fuel s rest
    | '\x7d' :: rest => pure (s, rest)
    | _ => none

/-- The snapshot of a text, if it is one. -/
def Snapshot.read? (text : String) : Option (Snapshot Float) := do
  let cs := text.toList
  let rest ← readMark '\x7b' cs
  let (s, rest) ← match dropJsonBlanks rest with
    | '\x7d' :: rest => pure (Snapshot.empty, rest)
    | _ => readItems (cs.length + 1) Snapshot.empty rest
  if (dropJsonBlanks rest).isEmpty then pure s else none

/-- The snapshot of a text. -/
def Snapshot.read (text : String) : Except (FitError Float) (Snapshot Float) :=
  match Snapshot.read? text with
  | some s => .ok s
  | none => .error (.configuration .unreadableSnapshot)

end FitSession
