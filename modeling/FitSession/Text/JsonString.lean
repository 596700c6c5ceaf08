/-!
# Quoted texts of JSON

How JSON quotes a text: special characters are escaped by a backslash, any character by the number
of its UTF-16 units.

* `dropJsonBlanks`, `readMark`: what stands between the items of a JSON text;
* `readEscape`, `readString`: an escape, and a quoted text.
-/

namespace FitSession

/-- Drops the blanks of JSON. -/
def dropJsonBlanks (cs : List Char) : List Char :=
  cs.dropWhile fun c => c = ' ' || c = '\n' || c = '\t' || c = '\r'

/-- The value of a hexadecimal digit. -/
def hexValue? (c : Char) : Option Nat :=
  if '0' ≤ c && c ≤ '9' then some (c.toNat - '0'.toNat)
  else if 'a' ≤ c && c ≤ 'f' then some (c.toNat - 'a'.toNat + 10)
  else if 'A' ≤ c && c ≤ 'F' then some (c.toNat - 'A'.toNat + 10)
  else none

/-- The number of four hexadecimal digits at the start of a text. -/
def readHex4 (cs : List Char) : Option (Nat × List Char) :=
  match cs with
  | a :: b :: c :: d :: rest => do
    let a ← hexValue? a
    let b ← hexValue? b
    let c ← hexValue? c
    let d ← hexValue? d
    pure (((a * 16 + b) * 16 + c) * 16 + d, rest)
  | _ => none

/-- The character of an escape by number, after its mark. Two surrogates make one character; one
alone makes none. -/
def readUnicodeEscape (cs : List Char) : Option (Char × List Char) := do
  let (n, rest) ← readHex4 cs
  if 0xD800 ≤ n && n < 0xDC00 then
    match rest with
    | '\\' :: 'u' :: more =>
      let (low, rest) ← readHex4 more
      if 0xDC00 ≤ low && low < 0xE000 then
        pure (Char.ofNat (0x10000 + (n - 0xD800) * 0x400 + (low - 0xDC00)), rest)
      else none
    | _ => none
  else if 0xDC00 ≤ n && n < 0xE000 then none
  else pure (Char.ofNat n, rest)

/-- The character of an escape, after the backslash. -/
def readEscape (cs : List Char) : Option (Char × List Char) :=
  match cs with
  | '"' :: rest => some ('"', rest)
  | '\\' :: rest => some ('\\', rest)
  | '/' :: rest => some ('/', rest)
  | 'b' :: rest => some ('\x08', rest)
  | 'f' :: rest => some ('\x0c', rest)
  | 'n' :: rest => some ('\n', rest)
  | 'r' :: rest => some ('\r', rest)
  | 't' :: rest => some ('\t', rest)
  | 'u' :: rest => readUnicodeEscape rest
  | _ => none

/-- The characters up to the closing quote, and what follows it. The first argument bounds their
number. -/
def readChars : Nat → List Char → List Char → Option (String × List Char)
  | 0, _, _ => none
  | fuel + 1, done, cs =>
    match cs with
    | [] => none
    | '"' :: rest => some (String.ofList done.reverse, rest)
    | '\\' :: rest =>
      match readEscape rest with
      | some (c, rest) => readChars fuel (c :: done) rest
      | none => none
    | c :: rest => if c.toNat < 0x20 then none else readChars fuel (c :: done) rest

/-- A quoted text. -/
def readString (cs : List Char) : Option (String × List Char) :=
  match cs with
  | '"' :: rest => readChars (rest.length + 1) [] rest
  | _ => none

/-- The expected character after blanks. -/
def readMark (mark : Char) (cs : List Char) : Option (List Char) :=
  match dropJsonBlanks cs with
  | c :: rest => if c = mark then some rest else none
  | [] => none

end FitSession
