/-!
# Signed machine words

Token counts are 64-bit and block indices 32-bit signed words. They are kept as integers that were
brought into range by `toInt64` and `toInt32`: what does not fit wraps around.
-/

namespace ChatRelay.Word

/-- The 64-bit signed word congruent to `n`. -/
def toInt64 (n : Int) : Int :=
  n.bmod 0x10000000000000000

/-- The 32-bit signed word congruent to `n`. -/
def toInt32 (n : Int) : Int :=
  n.bmod 0x100000000

/-- A 64-bit word stays as it is. -/
theorem toInt64_eq {n : Int} (hlow : -0x8000000000000000 ≤ n) (hhigh : n < 0x8000000000000000) :
    toInt64 n = n := by
  unfold toInt64
  exact Int.bmod_eq_of_le (by omega) (by omega)

/-- A 32-bit word stays as it is. -/
theorem toInt32_eq {n : Int} (hlow : -0x80000000 ≤ n) (hhigh : n < 0x80000000) :
    toInt32 n = n := by
  unfold toInt32
  exact Int.bmod_eq_of_le (by omega) (by omega)

end ChatRelay.Word
