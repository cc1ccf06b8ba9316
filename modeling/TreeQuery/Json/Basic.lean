import TreeQuery.Decimal.Writing
import TreeQuery.Text.Quoted

/-!
# JSON trees and their text

A JSON tree keeps whole numbers apart from other numbers, and the members of an object as they were
written, repeated keys included. The compact text has no blanks; the indented text has one element
or member a line, two blanks a level.
-/

set_option autoImplicit false

namespace TreeQuery

inductive Json where
  | null
  | bool (b : Bool)
  | integer (n : Int)
  | real (x : Float)
  | text (s : String)
  | array (items : List Json)
  | object (members : List (String × Json))
deriving Inhabited

namespace Json

def integerText (n : Int) : List Char :=
  Decimal.signText (decide (n < 0)) ++ Decimal.digitText n.natAbs

def textChars (s : String) : List Char :=
  '"' :: Text.escape .interchange s.toList ++ ['"']

/-- Puts a separator between the given pieces. -/
def joined (separator : List Char) : List (List Char) → List Char
  | [] => []
  | [piece] => piece
  | piece :: rest => piece ++ separator ++ joined separator rest

/-- Line break and indentation of a level. -/
def newline (level : Nat) : List Char :=
  '\n' :: List.replicate (2 * level) ' '

mutual

def chars : Json → List Char
  | .null => ['n', 'u', 'l', 'l']
  | .bool true => ['t', 'r', 'u', 'e']
  | .bool false => ['f', 'a', 'l', 's', 'e']
  | .integer n => integerText n
  | .real x => (Decimal.interchangeText x).toList
  | .text s => textChars s
  | .array items => '[' :: joined [','] (itemChars items) ++ [']']
  | .object members => '\x7b' :: joined [','] (memberChars members) ++ ['\x7d']

def itemChars : List Json → List (List Char)
  | [] => []
  | j :: rest => chars j :: itemChars rest

def memberChars : List (String × Json) → List (List Char)
  | [] => []
  | (key, j) :: rest => (textChars key ++ ':' :: chars j) :: memberChars rest

end

mutual

def indentedChars : Nat → Json → List Char
  | level, .array items =>
    if items.isEmpty then ['[', ']']
    else '[' :: newline (level + 1)
      ++ joined (',' :: newline (level + 1)) (indentedItems (level + 1) items)
      ++ newline level ++ [']']
  | level, .object members =>
    if members.isEmpty then ['\x7b', '\x7d']
    else '\x7b' :: newline (level + 1)
      ++ joined (',' :: newline (level + 1)) (indentedMembers (level + 1) members)
      ++ newline level ++ ['\x7d']
  | _, j => chars j

def indentedItems : Nat → List Json → List (List Char)
  | _, [] => []
  | level, j :: rest => indentedChars level j :: indentedItems level rest

def indentedMembers : Nat → List (String × Json) → List (List Char)
  | _, [] => []
  | level, (key, j) :: rest =>
    (textChars key ++ ':' :: ' ' :: indentedChars level j) :: indentedMembers level rest

end

/-- The text without blanks. -/
def compact (j : Json) : String :=
  String.ofList (chars j)

/-- The text with one element or member a line. -/
def indented (j : Json) : String :=
  String.ofList (indentedChars 0 j)

end Json

end TreeQuery
