/-!
# Padding

Columns of a table are padded with spaces to a width counted in characters; a longer text is kept.

* `padLeft`: the text at the right end of the column;
* `padRight`: the text at the left end of the column.
-/

namespace FitSession

/-- A run of `count` spaces. -/
def spaces (count : Nat) : String := String.ofList (List.replicate count ' ')

/-- The text at the right end of a column. -/
def padLeft (width : Nat) (text : String) : String := spaces (width - text.length) ++ text

/-- The text at the left end of a column. -/
def padRight (width : Nat) (text : String) : String := text ++ spaces (width - text.length)

end FitSession
