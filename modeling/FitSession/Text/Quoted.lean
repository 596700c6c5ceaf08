import FitSession.Text.Hidden

/-!
# Quoted texts

Two ways to write a text between quotes: for a reader, where characters without a glyph are shown
by their number, and for a snapshot, where only the control characters below the space are.

* `quote`: for a reader;
* `jsonQuote`: for a snapshot.
-/

namespace FitSession

/-- A natural number in lower-case hexadecimal digits. -/
def hex (n : Nat) : String := String.ofList (Nat.toDigits 16 n)

/-- One character of a text quoted for a reader. -/
def quoteChar (c : Char) : String :=
  match c with
  | '\x00' => "\\0"
  | '\t' => "\\t"
  | '\n' => "\\n"
  | '\r' => "\\r"
  | '"' => "\\\""
  | '\\' => "\\\\"
  | c => if isHidden c then "\\u\x7b" ++ hex c.toNat ++ "\x7d" else c.toString

/-- A text quoted for a reader. -/
def quote (text : String) : String :=
  "\"" ++ String.join (text.toList.map quoteChar) ++ "\""

/-- One character of a text quoted for a snapshot. -/
def jsonQuoteChar (c : Char) : String :=
  match c with
  | '"' => "\\\""
  | '\\' => "\\\\"
  | '\n' => "\\n"
  | '\r' => "\\r"
  | '\t' => "\\t"
  | '\x08' => "\\b"
  | '\x0c' => "\\f"
  | c =>
    if c.toNat < 0x20 then
      let digits := hex c.toNat
      "\\u" ++ String.ofList (List.replicate (4 - digits.length) '0') ++ digits
    else c.toString

/-- A text quoted for a snapshot. -/
def jsonQuote (text : String) : String :=
  "\"" ++ String.join (text.toList.map jsonQuoteChar) ++ "\""

end FitSession
