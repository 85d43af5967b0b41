import MakeRules.Json.Basic
import MakeRules.Number.Binary64

/-! Compact JSON text, and the plain text of a value.

Compact text has no spaces and escapes only the quote, the backslash, the control
characters below U+0020, and surrogates without partners. Plain text is what people
are shown of a value.
-/

set_option autoImplicit false

namespace MakeRules.Json

/-- How a letter is written in a string, be it not one of a pair of surrogates. -/
def escapeChar (c : Char) : Text :=
  match c with
  | '"' => ['\\', '"']
  | '\\' => ['\\', '\\']
  | '\x08' => ['\\', 'b']
  | '\t' => ['\\', 't']
  | '\n' => ['\\', 'n']
  | '\x0c' => ['\\', 'f']
  | '\r' => ['\\', 'r']
  | c =>
    if c.toNat < 0x20 || isSurrogate c then '\\' :: 'u' :: Text.hex4 (unitNumber c)
    else [c]

/-- How a text is written in a string, a pair of surrogates as it is. -/
def escaped : Text → Text
  | high :: low :: rest =>
    if isHighSurrogate high && isLowSurrogate low then high :: low :: escaped rest
    else escapeChar high ++ escaped (low :: rest)
  | [c] => escapeChar c
  | [] => []

def quoted (text : Text) : Text :=
  '"' :: escaped text ++ ['"']

/-- The text of a number: an integer in all its digits, any other number as it is shown to
people. A number beyond all binary ones is none. -/
def numeral (n : Decimal) : Text :=
  if n.exponent = 0 then Text.signed Text.ofNat n.significand
  else if n.round.isNone then "null".toList
  else n.text

mutual

def print : Json → Text
  | .null => "null".toList
  | .bool true => "true".toList
  | .bool false => "false".toList
  | .num n => numeral n
  | .str text => quoted text
  | .arr items => '[' :: printItems items
  | .obj members => '\x7b' :: printMembers members

def printItems : List Json → Text
  | [] => [']']
  | [item] => print item ++ [']']
  | item :: rest => print item ++ ',' :: printItems rest

def printMembers : List (Text × Json) → Text
  | [] => ['\x7d']
  | [(key, value)] => quoted key ++ ':' :: print value ++ ['\x7d']
  | (key, value) :: rest => quoted key ++ ':' :: print value ++ ',' :: printMembers rest

end

/-- The key under which an object would have its own way to be shown. -/
def textKey : Text := "toString".toList

/-- What is said of a value that has no plain text. -/
def textless : Text := "Cannot convert object to primitive value".toList

mutual

/-- The plain text of a value: arrays as their items, objects by a fixed name. An object
that has something else in place of its own text has none. -/
def plain? : Json → Option Text
  | .null => some "null".toList
  | .bool true => some "true".toList
  | .bool false => some "false".toList
  | .num n => some n.text
  | .str text => some text
  | .arr items => plainItems? items
  | .obj members =>
    if (member? textKey members).isSome then none else some "[object Object]".toList

/-- The items of an array with commas between them, nothing standing for null. -/
def plainItems? : List Json → Option Text
  | [] => some []
  | [item] => plainItem? item
  | item :: rest => do return (← plainItem? item) ++ ',' :: (← plainItems? rest)

def plainItem? : Json → Option Text
  | .null => some []
  | item => plain? item

end

end MakeRules.Json
