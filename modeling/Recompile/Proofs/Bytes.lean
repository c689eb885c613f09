import Mathlib.Data.List.Induction
import Recompile.Bytes

/-!
# Numbers and the bytes that spell them

As many bytes as are asked for spell each number below the power of 256, and
each byte string spells exactly one of these numbers.
-/

namespace Recompile
namespace Bytes

theorem length_ofNat (width number : Nat) : (ofNat width number).length = width := by
  induction width generalizing number with
  | zero => rfl
  | succ width ih => simp [ofNat, ih]

theorem toNat_concat (bytes : Bytes) (b : UInt8) :
    toNat (bytes ++ [b]) = 256 * toNat bytes + b.toNat := by
  unfold toNat
  rw [List.foldl_append]
  rfl

theorem toNat_lt (bytes : Bytes) : toNat bytes < 256 ^ bytes.length := by
  induction bytes using List.reverseRecOn with
  | nil => exact Nat.one_pos
  | append_singleton bytes b ih =>
      have hb : b.toNat < 256 := b.toNat_lt
      rw [toNat_concat, List.length_append, List.length_singleton, Nat.pow_succ]
      omega

theorem toNat_ofNat {width number : Nat} (h : number < 256 ^ width) :
    toNat (ofNat width number) = number := by
  induction width generalizing number with
  | zero =>
      have hzero : number = 0 := Nat.lt_one_iff.mp h
      rw [hzero]
      rfl
  | succ width ih =>
      have hhigh : number / 256 < 256 ^ width := by
        apply Nat.div_lt_of_lt_mul
        rw [Nat.mul_comm]
        exact h
      rw [ofNat, toNat_concat, ih hhigh, UInt8.toNat_ofNat']
      exact Nat.div_add_mod number 256

theorem ofNat_toNat (bytes : Bytes) : ofNat bytes.length (toNat bytes) = bytes := by
  induction bytes using List.reverseRecOn with
  | nil => rfl
  | append_singleton bytes b ih =>
      have hb : b.toNat < 256 := b.toNat_lt
      have hhigh : (256 * toNat bytes + b.toNat) / 256 = toNat bytes := by omega
      have hlow : UInt8.ofNat (256 * toNat bytes + b.toNat) = b := by
        apply UInt8.toNat_inj.mp
        rw [UInt8.toNat_ofNat']
        omega
      rw [toNat_concat, List.length_append, List.length_singleton, ofNat, hhigh, ih, hlow]

theorem ofNat_mod (width number : Nat) :
    ofNat width (number % 256 ^ width) = ofNat width number := by
  induction width generalizing number with
  | zero => rfl
  | succ width ih =>
      have hhigh : number % 256 ^ (width + 1) / 256 = number / 256 % 256 ^ width := by
        rw [Nat.pow_succ, Nat.mul_comm, Nat.mod_mul_right_div_self]
      have hlow : UInt8.ofNat (number % 256 ^ (width + 1)) = UInt8.ofNat number := by
        apply UInt8.toNat_inj.mp
        rw [UInt8.toNat_ofNat', UInt8.toNat_ofNat']
        exact Nat.mod_mod_of_dvd number (Nat.dvd_mul_left 256 (256 ^ width))
      rw [ofNat, ofNat, hhigh, hlow, ih]

theorem ofNat_add (high low number : Nat) :
    ofNat (high + low) number = ofNat high (number / 256 ^ low) ++ ofNat low number := by
  induction low generalizing number with
  | zero => simp [ofNat]
  | succ low ih =>
      have hdiv : number / 256 / 256 ^ low = number / 256 ^ (low + 1) := by
        rw [Nat.div_div_eq_div_mul, Nat.pow_succ, Nat.mul_comm]
      rw [← Nat.add_assoc, ofNat, ih, ofNat, hdiv, List.append_assoc]

end Bytes
end Recompile
