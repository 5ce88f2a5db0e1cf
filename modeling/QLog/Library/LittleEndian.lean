import Mathlib.Algebra.Ring.Nat
import Mathlib.Data.List.Basic

/-! # Little-endian numbers

`leBytes k n` are the `k` bytes of the number `n`, the least significant one first, and `ofLeBytes` reads them
back. A `Block n` is a list of exactly `n` bytes. -/

namespace QLog.Library

/-- The `k` bytes of `n`, least significant first. -/
def leBytes : Nat → Nat → List UInt8
  | 0, _ => []
  | k + 1, n => UInt8.ofNat n :: leBytes k (n / 256)

/-- The number that bytes, least significant first, stand for. -/
def ofLeBytes : List UInt8 → Nat
  | [] => 0
  | b :: bs => b.toNat + 256 * ofLeBytes bs

@[simp] theorem length_leBytes (k n : Nat) : (leBytes k n).length = k := by
  induction k generalizing n with
  | zero => rfl
  | succ k ih => rw [leBytes, List.length_cons, ih]

/-- The bytes of a number that fits are read back as the number. -/
theorem ofLeBytes_leBytes (k n : Nat) (h : n < 256 ^ k) : ofLeBytes (leBytes k n) = n := by
  induction k generalizing n with
  | zero =>
      rw [Nat.pow_zero, Nat.lt_one_iff] at h
      rw [h]
      rfl
  | succ k ih =>
      have hdiv : n / 256 < 256 ^ k := by
        rw [Nat.pow_succ, Nat.mul_comm] at h
        exact Nat.div_lt_of_lt_mul h
      have hbyte : (UInt8.ofNat n).toNat = n % 256 := by simp
      rw [leBytes, ofLeBytes, ih _ hdiv, hbyte, Nat.mod_add_div]

/-- The number that bytes stand for has these bytes. -/
theorem leBytes_ofLeBytes (bs : List UInt8) : leBytes bs.length (ofLeBytes bs) = bs := by
  induction bs with
  | nil => rfl
  | cons b bs ih =>
      have hdiv : (b.toNat + 256 * ofLeBytes bs) / 256 = ofLeBytes bs := by
        have hb := b.toNat_lt
        omega
      have hbyte : UInt8.ofNat (b.toNat + 256 * ofLeBytes bs) = b := by
        apply UInt8.toNat_inj.mp
        have hb := b.toNat_lt
        rw [UInt8.toNat_ofNat']
        omega
      rw [List.length_cons, ofLeBytes, leBytes, hdiv, ih, hbyte]

/-- Bytes stand for a number that fits them. -/
theorem ofLeBytes_lt {k : Nat} (bs : List UInt8) (h : bs.length ≤ k) : ofLeBytes bs < 256 ^ k := by
  have hlt : ofLeBytes bs < 256 ^ bs.length := by
    clear h
    induction bs with
    | nil => exact Nat.one_pos
    | cons b bs ih =>
        have hb := b.toNat_lt
        rw [ofLeBytes, List.length_cons, Nat.pow_succ]
        omega
  exact Nat.lt_of_lt_of_le hlt (Nat.pow_le_pow_right (by omega) h)

/-- A number that fits is determined by its bytes. -/
theorem leBytes_inj {k m n : Nat} (hm : m < 256 ^ k) (hn : n < 256 ^ k) (h : leBytes k m = leBytes k n) :
    m = n := by
  rw [← ofLeBytes_leBytes k m hm, h, ofLeBytes_leBytes k n hn]

theorem leBytes_zero (k : Nat) : leBytes k 0 = List.replicate k 0 := by
  induction k with
  | zero => rfl
  | succ k ih => rw [leBytes, Nat.zero_div, ih, List.replicate_succ]; rfl

/-- The bytes of a word, least significant first, by shifts. -/
def wordBytes (v : UInt32) : List UInt8 := [v.toUInt8, (v >>> 8).toUInt8, (v >>> 16).toUInt8, (v >>> 24).toUInt8]

theorem leBytes_toNat (v : UInt32) : leBytes 4 v.toNat = wordBytes v := by
  simp only [leBytes, wordBytes, List.cons.injEq, ← UInt8.toNat_inj, UInt8.toNat_ofNat', UInt32.toNat_toUInt8,
    UInt32.toNat_shiftRight, Nat.shiftRight_eq_div_pow, and_true]
  refine ⟨trivial, ?_, ?_, ?_⟩ <;> simp <;> omega

/-- Exactly `n` bytes. -/
abbrev Block (n : Nat) : Type := { bs : List UInt8 // bs.length = n }

end QLog.Library
