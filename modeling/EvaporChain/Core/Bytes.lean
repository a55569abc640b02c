import Mathlib

/-!
# Byte strings and little-endian words
-/

namespace Core

abbrev Bytes := List UInt8

/-- A 32-byte array. -/
abbrev Hash := List.Vector UInt8 32

instance lawfulBEqHash : LawfulBEq Hash := inferInstance

def Hash.zero : Hash := List.Vector.replicate 32 0

/-- Little-endian encoding of `n` in `w` bytes; higher digits are dropped. -/
def leBytes : ℕ → ℕ → Bytes
  | 0, _ => []
  | w + 1, n => UInt8.ofNat (n % 256) :: leBytes w (n / 256)

def leValue : Bytes → ℕ
  | [] => 0
  | b :: bs => b.toNat + 256 * leValue bs

@[simp] lemma leBytes_length (w n : ℕ) : (leBytes w n).length = w := by
  induction w generalizing n with
  | zero => rfl
  | succ w ih => simp [leBytes, ih]

lemma leValue_leBytes (w n : ℕ) : leValue (leBytes w n) = n % 256 ^ w := by
  induction w generalizing n with
  | zero => simp [leBytes, leValue, Nat.mod_one]
  | succ w ih =>
    have hb : (UInt8.ofNat (n % 256)).toNat = n % 256 := by simp
    rw [leBytes, leValue, hb, ih, pow_succ', Nat.mod_mul]

/-- Words that fit in `w` bytes are told apart by their encoding. -/
lemma leBytes_inj {w m n : ℕ} (hm : m < 256 ^ w) (hn : n < 256 ^ w)
    (h : leBytes w m = leBytes w n) : m = n := by
  have := congrArg leValue h
  rwa [leValue_leBytes, leValue_leBytes, Nat.mod_eq_of_lt hm, Nat.mod_eq_of_lt hn] at this

end Core
