import Mathlib.Data.BitVec
import Mathlib.Data.List.Basic

/-! # Cyclic redundancy checks

The register of a reflected check is shifted by one place for each bit of the text, lowest bit first, and takes the
polynomial in where the bit shifted out and the bit of the text differ. A table of the registers after `n` shifts does
`n` bits at once (`crcBits_eq_table`): shifting is linear, and what stands above the lowest `n` places only moves
down. -/

namespace QLog.Library

variable {w : Nat}

/-- The register after one bit of the text. -/
def crcBit (poly crc : BitVec w) (bit : Bool) : BitVec w :=
  if crc.getLsbD 0 ^^ bit then crc >>> 1 ^^^ poly else crc >>> 1

/-- The register after some bits. -/
def crcBits (poly crc : BitVec w) (bits : List Bool) : BitVec w := bits.foldl (crcBit poly) crc

/-- The lowest `n` bits of a number, lowest first. -/
def lsbBits (n v : Nat) : List Bool := (List.range n).map v.testBit

/-- The register after some bytes. -/
def crcBytes (poly crc : BitVec w) (bytes : List UInt8) : BitVec w :=
  crcBits poly crc (bytes.flatMap fun b => lsbBits 8 b.toNat)

/-- The register after `n` zero bits. -/
def crcShift (poly : BitVec w) : Nat → BitVec w → BitVec w
  | 0, crc => crc
  | n + 1, crc => crcShift poly n (crcBit poly crc false)

/-- The table holds the register after `n` zero bits, for each content of its lowest `n` places. -/
def CrcTable (poly : BitVec w) (n : Nat) (table : Nat → BitVec w) : Prop :=
  ∀ i < 2 ^ n, table i = crcShift poly n (BitVec.ofNat w i)

/-! ## Bits of a number -/

@[simp] theorem lsbBits_zero (v : Nat) : lsbBits 0 v = [] := rfl

theorem lsbBits_succ (n v : Nat) : lsbBits (n + 1) v = v.testBit 0 :: lsbBits n (v / 2) := by
  simp [lsbBits, List.range_succ_eq_map, Function.comp_def, Nat.testBit_succ]

theorem lsbBits_add (m n v : Nat) : lsbBits (m + n) v = lsbBits m v ++ lsbBits n (v / 2 ^ m) := by
  induction m generalizing v with
  | zero => simp
  | succ m ih => rw [Nat.succ_add_eq_add_succ, Nat.add_succ, lsbBits_succ, ih, lsbBits_succ, List.cons_append,
      Nat.div_div_eq_div_mul, ← Nat.pow_succ']

theorem lsbBits_mod (n v : Nat) : lsbBits n (v % 2 ^ n) = lsbBits n v := by
  refine List.map_congr_left fun i hi => ?_
  simp [Nat.testBit_mod_two_pow, List.mem_range.mp hi]

/-! ## Shifting is linear -/

section Linear

variable (poly : BitVec w)

theorem crcBit_xor (x y : BitVec w) (a b : Bool) :
    crcBit poly (x ^^^ y) (a ^^ b) = crcBit poly x a ^^^ crcBit poly y b := by
  have hbit : ((x ^^^ y).getLsbD 0 ^^ (a ^^ b)) = ((x.getLsbD 0 ^^ a) ^^ (y.getLsbD 0 ^^ b)) := by
    simp only [BitVec.getLsbD_xor, Bool.xor_assoc, Bool.xor_left_comm]
  rw [crcBit, crcBit, crcBit, hbit, BitVec.ushiftRight_xor_distrib]
  cases x.getLsbD 0 ^^ a <;> cases y.getLsbD 0 ^^ b
  · simp
  · simp [BitVec.xor_assoc]
  · simp only [Bool.true_xor, Bool.not_false, Bool.false_eq_true, if_true, if_false]
    ac_rfl
  · -- the polynomial is taken in twice
    have hcancel : x >>> 1 ^^^ poly ^^^ (y >>> 1 ^^^ poly) = x >>> 1 ^^^ y >>> 1 ^^^ (poly ^^^ poly) := by ac_rfl
    simp [hcancel]

theorem crcShift_xor (n : Nat) (x y : BitVec w) :
    crcShift poly n (x ^^^ y) = crcShift poly n x ^^^ crcShift poly n y := by
  induction n generalizing x y with
  | zero => rfl
  | succ n ih => rw [crcShift, crcShift, crcShift, ← ih, ← crcBit_xor, Bool.xor_false]

/-- Zeros below only move the rest down. -/
theorem crcShift_of_low_zero {n : Nat} {x : BitVec w} (h : ∀ i < n, x.getLsbD i = false) :
    crcShift poly n x = x >>> n := by
  induction n generalizing x with
  | zero => simp [crcShift]
  | succ n ih =>
      have hbit : crcBit poly x false = x >>> 1 := by simp [crcBit, h 0 (Nat.succ_pos n)]
      rw [crcShift, hbit, ih, ← BitVec.shiftRight_add, Nat.add_comm]
      intro i hi
      rw [BitVec.getLsbD_ushiftRight]
      exact h (1 + i) (by omega)

/-- A register is its lowest places and what stands above them. -/
theorem eq_low_xor_high (n : Nat) (x : BitVec w) : x = BitVec.ofNat w (x.toNat % 2 ^ n) ^^^ x >>> n <<< n := by
  refine BitVec.eq_of_getLsbD_eq fun i hi => ?_
  rw [BitVec.getLsbD_xor, BitVec.getLsbD_ofNat, BitVec.getLsbD_shiftLeft, BitVec.getLsbD_ushiftRight,
    Nat.testBit_mod_two_pow]
  by_cases hn : i < n
  · simp [hi, hn, BitVec.getLsbD]
  · simp [hi, hn, Nat.add_sub_of_le (Nat.not_lt.mp hn)]

/-- Shifting by `n` places with a table. -/
theorem crcShift_eq_table {n : Nat} {table : Nat → BitVec w} (htable : CrcTable poly n table) (x : BitVec w) :
    crcShift poly n x = table (x.toNat % 2 ^ n) ^^^ x >>> n := by
  have hhigh : crcShift poly n (x >>> n <<< n) = x >>> n := by
    have hlow : ∀ i < n, (x >>> n <<< n).getLsbD i = false := fun i hi => by simp [BitVec.getLsbD_shiftLeft, hi]
    rw [crcShift_of_low_zero poly hlow]
    refine BitVec.eq_of_getLsbD_eq fun i hi => ?_
    simp only [BitVec.getLsbD_ushiftRight, BitVec.getLsbD_shiftLeft]
    by_cases hw : n + i < w
    · simp [hw]
    · simp [hw, BitVec.getLsbD_of_ge x (n + i) (Nat.not_lt.mp hw)]
  calc
    crcShift poly n x = crcShift poly n (BitVec.ofNat w (x.toNat % 2 ^ n) ^^^ x >>> n <<< n) :=
      congrArg _ (eq_low_xor_high n x)
    _ = table (x.toNat % 2 ^ n) ^^^ x >>> n := by
      rw [crcShift_xor, hhigh, htable _ (Nat.mod_lt _ (Nat.two_pow_pos n))]

/-- The bits of a text that is as short as the register are taken in at once. -/
theorem crcBits_lsbBits {n v : Nat} (hn : n ≤ w) (hv : v < 2 ^ n) (crc : BitVec w) :
    crcBits poly crc (lsbBits n v) = crcShift poly n (crc ^^^ BitVec.ofNat w v) := by
  induction n generalizing crc v with
  | zero =>
      obtain rfl : v = 0 := Nat.lt_one_iff.mp hv
      simp [crcBits, crcShift]
  | succ n ih =>
      have hlsb : (BitVec.ofNat w v).getLsbD 0 = v.testBit 0 := by
        rw [BitVec.getLsbD_ofNat, decide_eq_true (Nat.lt_of_lt_of_le (Nat.succ_pos n) hn), Bool.true_and]
      have hhalf : BitVec.ofNat w v >>> 1 = BitVec.ofNat w (v / 2) := by
        have hw : v < 2 ^ w := Nat.lt_of_lt_of_le hv (Nat.pow_le_pow_right (by decide) hn)
        apply BitVec.eq_of_toNat_eq
        rw [BitVec.toNat_ushiftRight, BitVec.toNat_ofNat, BitVec.toNat_ofNat, Nat.mod_eq_of_lt hw,
          Nat.mod_eq_of_lt (Nat.lt_of_le_of_lt (Nat.div_le_self v 2) hw), Nat.shiftRight_one]
      -- the lowest bit goes with the bit shifted out
      have hfirst : crcBit poly (crc ^^^ BitVec.ofNat w v) false =
          crcBit poly crc (v.testBit 0) ^^^ BitVec.ofNat w (v / 2) := by
        have hv0 : crcBit poly (BitVec.ofNat w v) (v.testBit 0) = BitVec.ofNat w (v / 2) := by
          rw [crcBit, hlsb, Bool.xor_self, hhalf]
          rfl
        rw [← hv0, ← crcBit_xor, Bool.xor_self]
      have htail : crcBits poly crc (lsbBits (n + 1) v) =
          crcBits poly (crcBit poly crc (v.testBit 0)) (lsbBits n (v / 2)) := by
        rw [lsbBits_succ]
        rfl
      rw [htail, ih (Nat.le_of_succ_le hn) (by omega), crcShift, hfirst]

/-- **A table does `n` bits at once**: what it says of the lowest places, where register and text differ, and the rest
of the register moved down. -/
theorem crcBits_eq_table {n : Nat} (hn : n ≤ w) {table : Nat → BitVec w} (htable : CrcTable poly n table)
    (crc : BitVec w) (v : Nat) :
    crcBits poly crc (lsbBits n v) = table ((crc.toNat ^^^ v) % 2 ^ n) ^^^ crc >>> n := by
  have hlt : v % 2 ^ n < 2 ^ n := Nat.mod_lt v (Nat.two_pow_pos n)
  have hsmall : v % 2 ^ n < 2 ^ w := Nat.lt_of_lt_of_le hlt (Nat.pow_le_pow_right (by decide) hn)
  have hgone : BitVec.ofNat w (v % 2 ^ n) >>> n = 0#w := by
    apply BitVec.eq_of_toNat_eq
    simp [Nat.mod_eq_of_lt hsmall, Nat.shiftRight_eq_div_pow, Nat.div_eq_of_lt hlt]
  have hindex : (crc ^^^ BitVec.ofNat w (v % 2 ^ n)).toNat % 2 ^ n = (crc.toNat ^^^ v) % 2 ^ n := by
    rw [BitVec.toNat_xor, BitVec.toNat_ofNat, Nat.mod_eq_of_lt hsmall, Nat.xor_mod_two_pow, Nat.mod_mod,
      ← Nat.xor_mod_two_pow]
  rw [← lsbBits_mod, crcBits_lsbBits poly hn hlt, crcShift_eq_table poly htable, hindex,
    BitVec.ushiftRight_xor_distrib, hgone, BitVec.xor_zero]

/-- **The residue**: behind the inverted register, the register does not depend on the text. -/
theorem crcBits_complement (crc : BitVec w) :
    crcBits poly crc (lsbBits w (~~~crc).toNat) = crcShift poly w (BitVec.allOnes w) := by
  rw [crcBits_lsbBits poly (Nat.le_refl w) (~~~crc).isLt, BitVec.ofNat_toNat, BitVec.setWidth_eq]
  refine congrArg _ (BitVec.eq_of_getLsbD_eq fun i hi => ?_)
  simp [hi]

theorem crcBits_append (crc : BitVec w) (bits bits' : List Bool) :
    crcBits poly crc (bits ++ bits') = crcBits poly (crcBits poly crc bits) bits' := List.foldl_append

theorem crcBytes_append (crc : BitVec w) (bytes bytes' : List UInt8) :
    crcBytes poly crc (bytes ++ bytes') = crcBytes poly (crcBytes poly crc bytes) bytes' := by
  rw [crcBytes, List.flatMap_append, crcBits_append]
  rfl

/-- A loop over the bytes whose round does the eight bits of a byte to the register of its state. -/
theorem crcBytes_foldl {σ : Type*} {register : σ → BitVec w} {round : σ → UInt8 → σ}
    (hround : ∀ s b, register (round s b) = crcBits poly (register s) (lsbBits 8 b.toNat)) (s : σ)
    (bytes : List UInt8) : register (bytes.foldl round s) = crcBytes poly (register s) bytes := by
  induction bytes generalizing s with
  | nil => rfl
  | cons b bytes ih => rw [List.foldl_cons, ih, hround, crcBytes, crcBytes, List.flatMap_cons, crcBits_append]

end Linear

end QLog.Library
