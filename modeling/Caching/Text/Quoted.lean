import Caching.Text.Extending
import Caching.Text.Unprintable

/-!
# Quoted text

Text between double quotes, in which every character can be seen. The quote and the backslash are written
after a backslash, four controls have short forms, and any other character that is unprintable or joins the
one before it is written by its number. The single quote stands for itself.
-/

namespace Caching.Text

/-- Whether ranges are in increasing order, with a gap after each. -/
def isSeparated (ranges : List (Nat × Nat)) : Bool :=
  (ranges.zip ranges.tail).all fun (a, b) => a.1 ≤ a.2 && a.2 + 1 < b.1

example : isSeparated extendingRanges ∧ isSeparated unprintableRanges := by decide +kernel

def inRanges (ranges : List (Nat × Nat)) (c : Char) : Bool :=
  ranges.any fun (first, last) => first ≤ c.toNat && c.toNat ≤ last

/-- Whether a character is written by its number, given that it has no short form. -/
def isHidden (c : Char) : Bool := inRanges extendingRanges c || inRanges unprintableRanges c

/-- The form `\u` with the code point in hexadecimal digits, between braces and without leading zeros. -/
def byNumber (c : Char) : List Char :=
  ['\\', 'u', '\x7b'] ++ Nat.toDigits 16 c.toNat ++ ['\x7d']

/-- The written form of one character inside the quotes. -/
def escape (c : Char) : List Char :=
  match c with
  | '"' => ['\\', '"']
  | '\\' => ['\\', '\\']
  | '\n' => ['\\', 'n']
  | '\r' => ['\\', 'r']
  | '\t' => ['\\', 't']
  | '\x00' => ['\\', '0']
  | c => if isHidden c then byNumber c else [c]

example : escape '"' = ['\\', '"'] ∧ escape '\'' = ['\''] ∧ escape 'é' = ['é'] := by decide +kernel

example : escape '\u0301' = ['\\', 'u', '\x7b', '3', '0', '1', '\x7d'] := by decide +kernel

def quoted (s : String) : String := String.ofList ('"' :: s.toList.flatMap escape ++ ['"'])

end Caching.Text
