/-!
# Quoted text

A quoted text stands between double quotes. The quote, the backslash and the control characters
below U+0020 are escaped: a few controls have a one-letter escape, the others are written as four
hexadecimal digits. Which controls have a letter is the only difference between the two styles of
quoting, so it is a parameter.
-/

set_option autoImplicit false

namespace TreeQuery.Text

/-- The letter that follows the backslash for a control character, where the style has one. -/
structure QuoteStyle where
  letter : Char → Option Char

namespace QuoteStyle

/-- Keys and displayed strings name line feed, carriage return and tab. -/
def display : QuoteStyle where
  letter
    | '\n' => some 'n'
    | '\r' => some 'r'
    | '\t' => some 't'
    | _ => none

/-- Interchange text also names backspace and form feed. -/
def interchange : QuoteStyle where
  letter
    | '\n' => some 'n'
    | '\r' => some 'r'
    | '\t' => some 't'
    | '\x08' => some 'b'
    | '\x0c' => some 'f'
    | _ => none

end QuoteStyle

def hexDigit (n : Nat) : Char :=
  if n < 10 then Char.ofNat (48 + n) else Char.ofNat (87 + n)

/-- The four lowercase hexadecimal digits of a number below 65536. -/
def hex4 (n : Nat) : List Char :=
  [hexDigit (n / 4096 % 16), hexDigit (n / 256 % 16), hexDigit (n / 16 % 16), hexDigit (n % 16)]

def escapeChar (style : QuoteStyle) (c : Char) : List Char :=
  if c = '"' then ['\\', '"']
  else if c = '\\' then ['\\', '\\']
  else match style.letter c with
    | some l => ['\\', l]
    | none => if c.toNat < 32 then '\\' :: 'u' :: hex4 c.toNat else [c]

def escape (style : QuoteStyle) (cs : List Char) : List Char :=
  cs.flatMap (escapeChar style)

/-- The text between double quotes, escaped in the given style. -/
def quote (style : QuoteStyle) (s : String) : String :=
  String.ofList ('"' :: escape style s.toList ++ ['"'])

end TreeQuery.Text
