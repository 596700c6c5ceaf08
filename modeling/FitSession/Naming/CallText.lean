import FitSession.Text.Blank
import FitSession.Text.Letter

/-!
# Names from a call shown in a text

The first line of a description may show a call, as in `name(a, b=1, int c)`. Its arguments are
the words between the parentheses: of each part between commas, what stands before `=`, then its
last word, then its letters, numbers and underscores.

* `isNameChar`, `isHeadChar`: the characters of a name and of what precedes the parenthesis;
* `textLines`, `callLine`: the lines of a text and the one that is read;
* `argumentsOfCall`: the names in a call.
-/

namespace FitSession

/-- Whether a character may stand in a name. -/
def isNameChar (c : Char) : Bool := isLetterOrNumber c || c = '_'

/-- Whether a character may stand before the opening parenthesis. -/
def isHeadChar (c : Char) : Bool := isNameChar c || c = '|' || c = '.' || isBlank c

/-- The lines of a text, without a carriage return before the line feed. A line feed at the end
starts no further line. -/
def textLines (cs : List Char) : List (List Char) :=
  let pieces := cs.splitOn '\n'
  let pieces := if pieces.getLast? = some [] then pieces.dropLast else pieces
  let ended := cs.getLast? = some '\n'
  pieces.zipIdx.map fun (line, i) =>
    if (ended || i + 1 < pieces.length) && line.getLast? = some '\r' then line.dropLast else line

/-- The line that may show a call: the first, or the second after a line that only shows an
ellipsis. -/
def callLine (cs : List Char) : Option (List Char) :=
  match textLines (dropBlanks cs) with
  | [] => none
  | first :: rest => if "('...',)".toList.isPrefixOf first then rest.head? else some first

/-- The name in one part between commas. -/
def argumentName (part : List Char) : Option String :=
  match (words (part.takeWhile (· ≠ '='))).getLast? with
  | none => none
  | some word =>
    let kept := word.filter isNameChar
    if kept.isEmpty then none else some (String.ofList kept)

/-- The names in a call shown in a line. -/
def argumentsOfLine (line : List Char) : Option (List String) :=
  let head := line.takeWhile (· ≠ '(')
  match line.dropWhile (· ≠ '(') with
  | [] => none
  | _ :: rest =>
    if head.isEmpty || !head.all isHeadChar then none
    else if !rest.contains ')' then none
    else
      let names := ((rest.takeWhile (· ≠ ')')).splitOn ',').filterMap argumentName
      if names.isEmpty then none else some names

/-- The names in the call that a description shows. -/
def argumentsOfCall (doc : String) : Option (List String) :=
  (callLine doc.toList).bind argumentsOfLine

end FitSession
