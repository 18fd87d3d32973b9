import Caching.Text.Capitals

/-!
# Upper case

Every character is replaced by its capital, which may be several characters, whatever stands around it.
-/

namespace Caching.Text

/-- A letter of the run has its number at a multiple of the stride above the first. -/
def CapitalRun.contains (r : CapitalRun) (n : Nat) : Bool :=
  r.first ≤ n && n ≤ r.last && (n - r.first) % r.stride == 0

/-- The capital of a character; a character without one is its own. -/
def capital (c : Char) : List Char :=
  match longCapitals.find? (·.1 == c.toNat) with
  | some (_, ns) => ns.map Char.ofNat
  | none =>
    match capitalRuns.find? (·.contains c.toNat) with
    | some r => [Char.ofNat (c.toNat + r.shift).toNat]
    | none => [c]

def uppercase (s : String) : String := String.ofList (s.toList.flatMap capital)

example : capital 'q' = ['Q'] ∧ capital 'Q' = ['Q'] ∧ capital '-' = ['-'] := by decide +kernel

example : capital 'ß' = ['S', 'S'] ∧ capital 'ŉ' = ['ʼ', 'N'] ∧ capital 'ǆ' = ['Ǆ'] := by decide +kernel

end Caching.Text
