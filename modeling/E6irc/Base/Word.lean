import Mathlib

/-!
# Arithmetic that stops at the largest 64-bit number
-/

namespace E6irc.Base

def u64Max : ℕ := 2 ^ 64 - 1

def u64SaturatingAdd (a b : ℕ) : ℕ := min (a + b) u64Max

def u64SaturatingMul (a b : ℕ) : ℕ := min (a * b) u64Max

end E6irc.Base
