import Caching.Text.Quoted

/-!
# Descriptions

The text by which a value describes itself: its kind with named fields, its kind with one unnamed content, or
a list. A description is written on one line or, spread out, with one item a line. Spread out, each level is
indented by four spaces, every item is followed by a comma, and an empty list stays on its line.
-/

namespace Caching.Text

inductive Description where
  /-- A text that stands as it is. -/
  | word (text : String)
  | string (text : String)
  | record (kind : String) (fields : List (String × Description))
  | wrapped (kind : String) (content : Description)
  | list (items : List Description)

namespace Description

def number (n : Nat) : Description := .word (toString n)

def ofOption : Option Description → Description
  | none => .word "None"
  | some d => .wrapped "Some" d

/-! ### One line -/

mutual

def line : Description → String
  | .word text => text
  | .string text => quoted text
  | .record kind fields => kind ++ " \x7b " ++ ", ".intercalate (lineFields fields) ++ " \x7d"
  | .wrapped kind content => kind ++ "(" ++ line content ++ ")"
  | .list items => "[" ++ ", ".intercalate (lineItems items) ++ "]"

def lineFields : List (String × Description) → List String
  | [] => []
  | (label, d) :: rest => (label ++ ": " ++ line d) :: lineFields rest

def lineItems : List Description → List String
  | [] => []
  | d :: rest => line d :: lineItems rest

end

/-! ### Spread out -/

/-- The items of one level, each on a line of its own. -/
def block (depth : Nat) (opening closing : String) (items : List String) : String :=
  let indent := String.ofList (List.replicate (4 * depth) ' ')
  let inner := items.map fun item => indent ++ "    " ++ item ++ ",\n"
  opening ++ "\n" ++ String.join inner ++ indent ++ closing

mutual

/-- The spread-out text of a description that begins at the given depth. -/
def spreadAt (depth : Nat) : Description → String
  | .word text => text
  | .string text => quoted text
  | .record kind fields => block depth (kind ++ " \x7b") "\x7d" (spreadFields (depth + 1) fields)
  | .wrapped kind content => block depth (kind ++ "(") ")" [spreadAt (depth + 1) content]
  | .list [] => "[]"
  | .list (d :: rest) => block depth "[" "]" (spreadAt (depth + 1) d :: spreadItems (depth + 1) rest)

def spreadFields (depth : Nat) : List (String × Description) → List String
  | [] => []
  | (label, d) :: rest => (label ++ ": " ++ spreadAt depth d) :: spreadFields depth rest

def spreadItems (depth : Nat) : List Description → List String
  | [] => []
  | d :: rest => spreadAt depth d :: spreadItems depth rest

end

def spread (d : Description) : String := spreadAt 0 d

end Description

end Caching.Text
