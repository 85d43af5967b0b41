import MakeRules.Json.Basic
import MakeRules.Text.Numeral

/-! Reading JSON text by the grammar of RFC 8259, with nothing added to it.

White space is space, tab, LF and CR. Of several values of a key the last one
counts.
-/

set_option autoImplicit false

namespace MakeRules.Json

/-- The white space between tokens. -/
def isBlank (c : Char) : Bool :=
  c == ' ' || c == '\t' || c == '\n' || c == '\r'

def skipBlanks (text : Text) : Text :=
  text.dropWhile isBlank

def ofHexDigits? (digits : List Char) : Option Nat :=
  digits.foldlM (fun n c => (hexDigit? c).map (n * 16 + ·)) 0

/-- The character that stands behind a backslash for another one. -/
def simpleEscape? : Char → Option Char
  | '"' => some '"'
  | '\\' => some '\\'
  | '/' => some '/'
  | 'b' => some '\x08'
  | 'f' => some '\x0c'
  | 'n' => some '\n'
  | 'r' => some '\r'
  | 't' => some '\t'
  | _ => none

/-- Read a string behind its opening quote: its text, and what stands behind its closing quote. -/
def stringBody : Text → Option (Text × Text)
  | [] => none
  | '"' :: rest => some ([], rest)
  | '\\' :: 'u' :: a :: b :: c :: d :: rest => do
    let unit ← ofHexDigits? [a, b, c, d]
    let (text, rest) ← stringBody rest
    return (letter unit :: text, rest)
  | '\\' :: c :: rest => do
    let escaped ← simpleEscape? c
    let (text, rest) ← stringBody rest
    return (escaped :: text, rest)
  | c :: rest =>
    -- control characters must be escaped
    if c.toNat < 0x20 then none
    else do
      let (text, rest) ← stringBody rest
      return (c :: text, rest)

def ofDigits (digits : Text) : Nat :=
  digits.foldl (fun n c => n * 10 + (c.toNat - '0'.toNat)) 0

/-- Read the longest run of digits, at least one. -/
def digits (text : Text) : Option (Text × Text) :=
  match text.takeWhile Char.isDigit with
  | [] => none
  | found => some (found, text.drop found.length)

/-- Read the digits before the point: a zero stands alone. -/
def wholeDigits : Text → Option (Text × Text)
  | '0' :: rest => some (['0'], rest)
  | text => digits text

def fractionDigits : Text → Option (Text × Text)
  | '.' :: rest => digits rest
  | text => some ([], text)

def exponentValue : Text → Option (Int × Text)
  | '-' :: rest => (digits rest).map fun (found, rest) => (-(ofDigits found : Int), rest)
  | '+' :: rest => (digits rest).map fun (found, rest) => ((ofDigits found : Int), rest)
  | text => (digits text).map fun (found, rest) => ((ofDigits found : Int), rest)

def exponentPart : Text → Option (Int × Text)
  | c :: rest => if c = 'e' ∨ c = 'E' then exponentValue rest else some (0, c :: rest)
  | [] => some (0, [])

def unsigned (text : Text) : Option (Decimal × Text) := do
  let (whole, text) ← wholeDigits text
  let (fraction, text) ← fractionDigits text
  let (exponent, text) ← exponentPart text
  return (⟨ofDigits (whole ++ fraction), exponent - fraction.length⟩, text)

def number : Text → Option (Decimal × Text)
  | '-' :: rest =>
    (unsigned rest).map fun (n, rest) => ({ n with significand := -n.significand }, rest)
  | text => unsigned text

mutual

/-- Read a value that begins right here; the fuel bounds the number of nested readers. -/
def valueFrom : (fuel : Nat) → Text → Option (Json × Text)
  | 0, _ => none
  | fuel + 1, text =>
    match text with
    | 'n' :: 'u' :: 'l' :: 'l' :: rest => some (.null, rest)
    | 't' :: 'r' :: 'u' :: 'e' :: rest => some (.bool true, rest)
    | 'f' :: 'a' :: 'l' :: 's' :: 'e' :: rest => some (.bool false, rest)
    | '"' :: rest => (stringBody rest).map fun (text, rest) => (.str text, rest)
    | '[' :: rest =>
      match skipBlanks rest with
      | ']' :: rest => some (.arr [], rest)
      | rest => (itemsFrom fuel rest).map fun (items, rest) => (.arr items, rest)
    | '\x7b' :: rest =>
      match skipBlanks rest with
      | '\x7d' :: rest => some (.obj [], rest)
      | rest => (pairsFrom fuel rest).map fun (pairs, rest) => (ofPairs pairs, rest)
    | text => (number text).map fun (n, rest) => (.num n, rest)

def itemsFrom : (fuel : Nat) → Text → Option (List Json × Text)
  | 0, _ => none
  | fuel + 1, text => do
    let (item, rest) ← valueFrom fuel text
    match skipBlanks rest with
    | ']' :: rest => return ([item], rest)
    | ',' :: rest =>
      let (items, rest) ← itemsFrom fuel (skipBlanks rest)
      return (item :: items, rest)
    | _ => none

def pairsFrom : (fuel : Nat) → Text → Option (List (Text × Json) × Text)
  | 0, _ => none
  | fuel + 1, text => do
    let '"' :: text := text | none
    let (key, rest) ← stringBody text
    let ':' :: rest := skipBlanks rest | none
    let (value, rest) ← valueFrom fuel (skipBlanks rest)
    match skipBlanks rest with
    | '\x7d' :: rest => return ([(key, value)], rest)
    | ',' :: rest =>
      let (pairs, rest) ← pairsFrom fuel (skipBlanks rest)
      return ((key, value) :: pairs, rest)
    | _ => none

end

def invalid : Text := "invalid JSON".toList

/-- The value that a whole text is, white space around it aside. Each reader takes a
character, so no text outlasts its fuel. -/
def parse? (text : Text) : Option Json := do
  let (value, rest) ← valueFrom (2 * text.length + 2) (skipBlanks text)
  if (skipBlanks rest).isEmpty then return value else none

end MakeRules.Json
