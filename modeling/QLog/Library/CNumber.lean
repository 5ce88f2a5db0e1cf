import Mathlib.Data.List.DropRight
import Mathlib.Data.Nat.Digits.Defs

/-! # Numbers in C

`sub32` is a difference of two `unsigned`, `toInt32` the conversion to `int`, and `fmtD w` what `printf` makes of an
`int` for `%0wd`: a number in decimal digits, filled up with zeros behind the sign. `fmtX k` is what it makes of a
number of at most `k` hexadecimal digits for `%0kx`. -/

namespace QLog.Library

/-- A difference of two 32-bit numbers. -/
def sub32 (m n : Nat) : Nat := (m + 2 ^ 32 - n) % 2 ^ 32

/-- A 32-bit number as an `int`. -/
def toInt32 (n : Nat) : Int := if n < 2 ^ 31 then n else (n : Int) - 2 ^ 32

theorem toInt32_inj {m n : Nat} (hm : m < 2 ^ 32) (hn : n < 2 ^ 32) (h : toInt32 m = toInt32 n) : m = n := by
  rw [toInt32, toInt32] at h
  split at h <;> split at h <;> omega

/-- `%0wd` -/
def fmtD (w : Nat) : Int → List Char
  | .ofNat n => List.leftpad w '0' (Nat.toDigits 10 n)
  | .negSucc n => '-' :: List.leftpad (w - 1) '0' (Nat.toDigits 10 (n + 1))

/-- `%0kx` of a number of at most `k` digits -/
def fmtX : Nat → Nat → List Char
  | 0, _ => []
  | k + 1, n => fmtX k (n / 16) ++ [Nat.digitChar (n % 16)]

/-- Bytes with `%02x` each -/
def hexText (bs : List UInt8) : List Char := bs.flatMap fun b => fmtX 2 b.toNat

/-- A character of a formatted number. -/
def isNumChar (c : Char) : Bool := c == '-' || c.isDigit

section LeftPad

variable {w n m : Nat} {c : Char}

theorem isDigit_of_mem_leftpad (hc : c ∈ List.leftpad w '0' (Nat.toDigits 10 n)) : c.isDigit := by
  rw [List.leftpad, List.mem_append] at hc
  rcases hc with hzero | hdigit
  · rw [List.eq_of_mem_replicate hzero]
    decide
  · exact Nat.isDigit_of_mem_toDigits (by decide) (by decide) hdigit

/-- The zeros do not change the number. -/
theorem ofDigitChars_leftpad : Nat.ofDigitChars 10 (List.leftpad w '0' (Nat.toDigits 10 n)) 0 = n := by
  rw [List.leftpad, Nat.ofDigitChars_append, Nat.ofDigitChars_replicate_zero, Nat.mul_zero,
    Nat.ofDigitChars_toDigits (by decide) (by decide)]

theorem leftpad_inj
    (h : List.leftpad w '0' (Nat.toDigits 10 m) = List.leftpad w '0' (Nat.toDigits 10 n)) : m = n := by
  have hvalue := congrArg (fun ds => Nat.ofDigitChars 10 ds 0) h
  rwa [ofDigitChars_leftpad, ofDigitChars_leftpad] at hvalue

theorem length_leftpad_le {k : Nat} (hk : 0 < k) (hn : n < 10 ^ k) :
    (List.leftpad w '0' (Nat.toDigits 10 n)).length ≤ max w k := by
  have hle := (Nat.length_toDigits_le_iff (by decide) hk).mpr hn
  rw [List.length_leftpad]
  omega

theorem leftpad_ne_nil : List.leftpad w '0' (Nat.toDigits 10 n) ≠ [] := by
  rw [List.leftpad]
  exact List.append_ne_nil_of_right_ne_nil _ Nat.toDigits_ne_nil

end LeftPad

section FmtD

variable {w : Nat}

theorem isNumChar_of_mem_fmtD {n : Int} {c : Char} (hc : c ∈ fmtD w n) : isNumChar c := by
  cases n with
  | ofNat n =>
      have hdigit : c.isDigit = true := isDigit_of_mem_leftpad hc
      rw [isNumChar, hdigit, Bool.or_true]
  | negSucc n =>
      rcases List.mem_cons.mp hc with rfl | hc
      · rfl
      · have hdigit : c.isDigit = true := isDigit_of_mem_leftpad hc
        rw [isNumChar, hdigit, Bool.or_true]

/-- Formatted numbers are different for different numbers. -/
theorem fmtD_injective (w : Nat) : Function.Injective (fmtD w) := by
  -- a sign is not a digit
  have hsign : ∀ (m n : Nat), List.leftpad w '0' (Nat.toDigits 10 m) ≠
      '-' :: List.leftpad (w - 1) '0' (Nat.toDigits 10 (n + 1)) := by
    intro m n h
    have hminus : '-' ∈ List.leftpad w '0' (Nat.toDigits 10 m) := by
      rw [h]
      exact List.mem_cons_self
    exact absurd (isDigit_of_mem_leftpad hminus) (by decide)
  intro m n h
  cases m with
  | ofNat m =>
      cases n with
      | ofNat n => rw [leftpad_inj h]
      | negSucc n => exact absurd h (hsign m n)
  | negSucc m =>
      cases n with
      | ofNat n => exact absurd h.symm (hsign n m)
      | negSucc n =>
          have hmn := leftpad_inj (List.cons.inj h).2
          rw [Nat.succ.inj hmn]

/-- A formatted number ends with a digit. -/
theorem fmtD_eq_append (w : Nat) (n : Int) : ∃ front d, fmtD w n = front ++ [d] ∧ d.isDigit := by
  have hpad : ∀ v k, ∃ front d, List.leftpad v '0' (Nat.toDigits 10 k) = front ++ [d] ∧ d.isDigit := by
    intro v k
    refine ⟨_, _, (List.dropLast_append_getLast leftpad_ne_nil).symm, ?_⟩
    exact isDigit_of_mem_leftpad (List.getLast_mem leftpad_ne_nil)
  cases n with
  | ofNat n => exact hpad w n
  | negSucc n =>
      obtain ⟨front, d, hfront, hd⟩ := hpad (w - 1) (n + 1)
      exact ⟨'-' :: front, d, by rw [fmtD, hfront, List.cons_append], hd⟩

theorem length_fmtD_le {n : Int} {k : Nat} (hk : 0 < k) (hn : n.natAbs < 10 ^ k) :
    (fmtD w n).length ≤ max w k + 1 := by
  cases n with
  | ofNat n =>
      have hle : (fmtD w (.ofNat n)).length ≤ max w k := length_leftpad_le hk hn
      omega
  | negSucc n =>
      have hle := length_leftpad_le (w := w - 1) hk (show n + 1 < 10 ^ k from hn)
      rw [fmtD, List.length_cons]
      omega

/-- A formatted number is read back from the end, up to a character that it cannot contain. -/
theorem rtakeWhile_fmtD (front : List Char) {sep : Char} (hsep : isNumChar sep = false) (n : Int) :
    (front ++ sep :: fmtD w n).rtakeWhile isNumChar = fmtD w n := by
  have hall : ∀ c ∈ (fmtD w n).reverse, isNumChar c := fun c hc =>
    isNumChar_of_mem_fmtD (List.mem_reverse.mp hc)
  have hrev : (front ++ sep :: fmtD w n).reverse = (fmtD w n).reverse ++ sep :: front.reverse := by
    simp
  rw [List.rtakeWhile, hrev, List.takeWhile_append_of_pos hall, List.takeWhile_cons_of_neg (by simp [hsep]),
    List.append_nil, List.reverse_reverse]

end FmtD

section FmtX

@[simp] theorem length_fmtX (k n : Nat) : (fmtX k n).length = k := by
  induction k generalizing n with
  | zero => rfl
  | succ k ih => rw [fmtX, List.length_append, ih, List.length_singleton]

theorem digitChar_inj {m n : Nat} (hm : m < 16) (hn : n < 16) (h : Nat.digitChar m = Nat.digitChar n) : m = n := by
  have hall : ∀ m n : Fin 16, Nat.digitChar m = Nat.digitChar n → m = n := by decide
  exact Fin.mk.inj (hall ⟨m, hm⟩ ⟨n, hn⟩ h)

/-- A number that fits is determined by its digits. -/
theorem fmtX_inj {k m n : Nat} (hm : m < 16 ^ k) (hn : n < 16 ^ k) (h : fmtX k m = fmtX k n) : m = n := by
  induction k generalizing m n with
  | zero => omega
  | succ k ih =>
      obtain ⟨hfront, hlast⟩ := List.append_inj' h rfl
      have hdigit := digitChar_inj (Nat.mod_lt m (by decide)) (Nat.mod_lt n (by decide)) (List.cons.inj hlast).1
      have hdiv := ih (by omega) (by omega) hfront
      omega

theorem length_hexText (bs : List UInt8) : (hexText bs).length = 2 * bs.length := by
  induction bs with
  | nil => rfl
  | cons b bs ih =>
      rw [hexText, List.flatMap_cons, ← hexText, List.length_append, length_fmtX, ih, List.length_cons]
      omega

/-- Bytes are determined by their digits. -/
theorem hexText_inj {bs bs' : List UInt8} (hlen : bs.length = bs'.length) (h : hexText bs = hexText bs') :
    bs = bs' := by
  induction bs generalizing bs' with
  | nil => exact (List.length_eq_zero_iff.mp hlen.symm).symm
  | cons b bs ih =>
      cases bs' with
      | nil => exact absurd hlen (by simp)
      | cons b' bs' =>
          rw [hexText, hexText, List.flatMap_cons, List.flatMap_cons, ← hexText, ← hexText] at h
          obtain ⟨hhead, htail⟩ := List.append_inj h (by rw [length_fmtX, length_fmtX])
          have hbyte := fmtX_inj (UInt8.toNat_lt b) (UInt8.toNat_lt b') hhead
          rw [UInt8.toNat_inj.mp hbyte, ih (by simpa using hlen) htail]

end FmtX

end QLog.Library
