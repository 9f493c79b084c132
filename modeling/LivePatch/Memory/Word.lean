/-!
# Addresses and sizes

Addresses and sizes are 64-bit words. They are kept as natural numbers, and a sum or difference that a word cannot hold is
missing: address arithmetic never wraps around.
-/

namespace LivePatch

/-- An address of the process, a word. -/
abbrev Address := Nat

namespace Word

/-- The number of words, 2^64: every address and every size lies below it. -/
def count : Nat := 0x10000000000000000

/-- The sum, if it is a word. -/
def add (a b : Nat) : Option Nat := if a + b < count then some (a + b) else none

theorem add_eq_some_iff {a b c : Nat} : add a b = some c ↔ a + b = c ∧ c < count := by
  unfold add
  split <;> simp <;> omega

theorem add_eq_none_iff {a b : Nat} : add a b = none ↔ count ≤ a + b := by
  unfold add
  split <;> simp <;> omega

/-- Lowercase hexadecimal digits after `0x`, without padding. -/
def hex (n : Nat) : String := "0x" ++ String.ofList (Nat.toDigits 16 n)

example : hex 0 = "0x0" := by decide +kernel

example : hex 0x1000fe0a0 = "0x1000fe0a0" := by decide +kernel

end Word

end LivePatch
