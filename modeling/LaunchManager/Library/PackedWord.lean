import Mathlib.Data.Nat.Bitwise
import Mathlib.Tactic.Ring

/-!
# Fields of a 64-bit word

A word that keeps a number above a bit offset and flags or a small counter below
it: what shifting, masking and joining the two parts gives, as arithmetic on
`toNat`.
-/

namespace PackedWord

set_option autoImplicit false

variable {word high low offset mask : UInt64}

theorem toNat_pack (hoffset : offset.toNat < 64) (hhigh : high.toNat < 2 ^ (64 - offset.toNat))
    (hlow : low.toNat < 2 ^ offset.toNat) :
    ((high <<< offset) ||| low).toNat = 2 ^ offset.toNat * high.toNat + low.toNat := by
  have hfit : high.toNat * 2 ^ offset.toNat < 2 ^ 64 := by
    calc high.toNat * 2 ^ offset.toNat
        < 2 ^ (64 - offset.toNat) * 2 ^ offset.toNat :=
          Nat.mul_lt_mul_of_pos_right hhigh (Nat.two_pow_pos _)
      _ = 2 ^ 64 := by
          rw [← pow_add]
          congr 1
          omega
  rw [UInt64.toNat_or, UInt64.toNat_shiftLeft, Nat.mod_eq_of_lt hoffset, Nat.shiftLeft_eq,
    Nat.mod_eq_of_lt hfit, Nat.mul_comm, ← Nat.two_pow_add_eq_or_of_lt hlow]

variable {n : Nat}

theorem toNat_low (hmask : mask.toNat = 2 ^ n - 1) :
    (word &&& mask).toNat = word.toNat % 2 ^ n := by
  rw [UInt64.toNat_and, hmask, Nat.and_two_pow_sub_one_eq_mod]

theorem high_lt (hn : n < 64) : word.toNat / 2 ^ n < 2 ^ (64 - n) := by
  rw [Nat.div_lt_iff_lt_mul (Nat.two_pow_pos _), ← pow_add, Nat.sub_add_cancel (Nat.le_of_lt hn)]
  exact word.toNat_lt

theorem toNat_high (hoffset : offset.toNat < 64)
    (hmask : mask.toNat >>> offset.toNat = 2 ^ (64 - offset.toNat) - 1) :
    ((word &&& mask) >>> offset).toNat = word.toNat / 2 ^ offset.toNat := by
  have hfit : word.toNat / 2 ^ offset.toNat < 2 ^ (64 - offset.toNat) := high_lt hoffset
  rw [UInt64.toNat_shiftRight, UInt64.toNat_and, Nat.mod_eq_of_lt hoffset,
    Nat.shiftRight_and_distrib, hmask, Nat.and_two_pow_sub_one_eq_mod, Nat.shiftRight_eq_div_pow,
    Nat.mod_eq_of_lt hfit]

theorem toNat_clear (hn : n < 64) (hhigh : mask.toNat >>> n = 2 ^ (64 - n) - 1)
    (hlow : mask.toNat % 2 ^ n = 0) : (word &&& mask).toNat = 2 ^ n * (word.toNat / 2 ^ n) := by
  have hfit : word.toNat / 2 ^ n < 2 ^ (64 - n) := high_lt hn
  have hdiv : (word.toNat &&& mask.toNat) / 2 ^ n = word.toNat / 2 ^ n := by
    rw [← Nat.shiftRight_eq_div_pow, Nat.shiftRight_and_distrib, hhigh,
      Nat.and_two_pow_sub_one_eq_mod, Nat.shiftRight_eq_div_pow, Nat.mod_eq_of_lt hfit]
  have hmod : (word.toNat &&& mask.toNat) % 2 ^ n = 0 := by
    rw [Nat.and_mod_two_pow, hlow, Nat.and_zero]
  rw [UInt64.toNat_and, ← Nat.div_add_mod (word.toNat &&& mask.toNat) (2 ^ n), hdiv, hmod,
    Nat.add_zero]

theorem toNat_or_low {q : Nat} (hlow : low.toNat < 2 ^ n) (hword : word.toNat = 2 ^ n * q) :
    (low ||| word).toNat = 2 ^ n * q + low.toNat := by
  rw [UInt64.toNat_or, Nat.or_comm, hword, ← Nat.two_pow_add_eq_or_of_lt hlow]

theorem and_flag {flag : UInt64} (hflag : flag.toNat = 2 ^ n) :
    ((word &&& flag) != 0) = word.toNat.testBit n := by
  have htoNat : (word &&& flag).toNat = 2 ^ n * (word.toNat.testBit n).toNat := by
    rw [UInt64.toNat_and, hflag, Nat.and_two_pow]
    exact Nat.mul_comm _ _
  cases hbit : word.toNat.testBit n with
  | false =>
    rw [hbit] at htoNat
    have hzero : word &&& flag = 0 := UInt64.toNat_inj.mp (htoNat.trans (Nat.mul_zero _))
    rw [hzero]
    rfl
  | true =>
    rw [hbit] at htoNat
    refine bne_iff_ne.mpr fun hzero => ?_
    rw [hzero] at htoNat
    exact absurd htoNat.symm (Nat.ne_of_gt (Nat.mul_pos (Nat.two_pow_pos n) Nat.one_pos))

theorem testBit_pack {k high low : Nat} (hlow : low < 2 ^ k) (hn : n < k) :
    (2 ^ k * high + low).testBit n = low.testBit n := by
  rw [Nat.testBit_two_pow_mul_add high hlow, if_pos hn]

end PackedWord
