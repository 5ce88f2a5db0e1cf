import Mathlib.Data.List.TakeWhile
import Mathlib.Data.Nat.Digits.Defs

/-! # Strings in memory

A string of C is what stands in memory before the next zero byte. A field of a fixed size that is filled by `strncpy`
need not hold one: where all its bytes are in use, the string goes on in what stands behind the field. `strtoul` reads
a number from the front of a string, `strstr` looks for a string in another one. -/

namespace QLog.Library

/-- The string at the front of a memory, which ends with a zero byte or with the memory. -/
def cString (mem : List UInt8) : List UInt8 := mem.takeWhile (· ≠ 0)

/-- `strncpy (.., src, n)`: the string in the first `n` bytes, filled up with zeros. -/
def strncpy (src : List UInt8) (n : Nat) : List UInt8 :=
  cString (src.take n) ++ List.replicate (n - (cString (src.take n)).length) 0

section CString

variable {xs : List UInt8}

theorem cString_isPrefix (xs : List UInt8) : cString xs <+: xs := List.takeWhile_prefix _

theorem not_mem_cString (xs : List UInt8) : 0 ∉ cString xs := fun h => by
  simpa using List.mem_takeWhile_imp h

@[simp] theorem cString_nil : cString [] = [] := rfl

@[simp] theorem cString_zero_cons (ys : List UInt8) : cString (0 :: ys) = [] := rfl

theorem cString_append_of_not_mem (h : 0 ∉ xs) (ys : List UInt8) : cString (xs ++ ys) = xs ++ cString ys :=
  List.takeWhile_append_of_pos fun x hx => by
    rw [decide_eq_true_eq]
    rintro rfl
    exact h hx

theorem cString_of_not_mem (h : 0 ∉ xs) : cString xs = xs := by
  have happend := cString_append_of_not_mem h []
  rwa [List.append_nil, cString_nil, List.append_nil] at happend

/-- The string ends in the first part. -/
theorem cString_append_of_mem (h : 0 ∈ xs) (ys : List UInt8) : cString (xs ++ ys) = cString xs := by
  obtain ⟨front, back, rfl, hfront⟩ := List.eq_append_cons_of_mem h
  rw [List.append_assoc, List.cons_append, cString_append_of_not_mem hfront, cString_append_of_not_mem hfront,
    cString_zero_cons, cString_zero_cons]

theorem cString_eq_nil_iff (xs : List UInt8) : cString xs = [] ↔ xs.headD 0 = 0 := by
  cases xs with
  | nil => exact iff_of_true rfl rfl
  | cons x xs => simp [cString, List.takeWhile_cons]

/-- A field holds its string if it has a zero byte, or if one follows it. -/
theorem cString_append_eq_iff (xs ys : List UInt8) :
    cString (xs ++ ys) = cString xs ↔ 0 ∈ xs ∨ ys.headD 0 = 0 := by
  by_cases h : 0 ∈ xs
  · exact iff_of_true (cString_append_of_mem h ys) (Or.inl h)
  · rw [cString_append_of_not_mem h, cString_of_not_mem h, List.append_right_eq_self, cString_eq_nil_iff]
    exact (or_iff_right h).symm

theorem length_strncpy (src : List UInt8) (n : Nat) : (strncpy src n).length = n := by
  have htext : (cString (src.take n)).length ≤ n :=
    (cString_isPrefix _).length_le.trans (List.length_take_le n src)
  rw [strncpy, List.length_append, List.length_replicate]
  omega

/-- A field that is copied to one of its size keeps its string. -/
theorem cString_strncpy_append {n : Nat} (h : xs.length = n) (ys : List UInt8) :
    cString (strncpy xs n ++ ys) = cString (xs ++ ys) := by
  rw [strncpy, List.take_of_length_le (Nat.le_of_eq h)]
  by_cases hmem : 0 ∈ xs
  · -- a string that ends in the field is shorter than it, and a zero is written behind it
    have hlt : (cString xs).length < n := by
      rw [← h]
      refine Nat.lt_of_le_of_ne (cString_isPrefix xs).length_le fun heq => ?_
      rw [← (cString_isPrefix xs).eq_of_length heq] at hmem
      exact not_mem_cString xs hmem
    obtain ⟨k, hk⟩ := Nat.exists_eq_add_of_lt hlt
    have hfill : n - (cString xs).length = k + 1 := by omega
    rw [cString_append_of_mem hmem, List.append_assoc, cString_append_of_not_mem (not_mem_cString xs), hfill,
      List.replicate_succ, List.cons_append, cString_zero_cons, List.append_nil]
  · rw [cString_of_not_mem hmem, h, Nat.sub_self, List.replicate_zero, List.append_nil]

end CString

/-! ## Searching -/

/-- `strstr`: the offset of the first occurrence of `pat`. -/
def strstr : List UInt8 → List UInt8 → Option Nat
  | [], pat => if pat = [] then some 0 else none
  | c :: cs, pat => if pat.isPrefixOf (c :: cs) then some 0 else (strstr cs pat).map (· + 1)

section Search

variable {pat : List UInt8}

theorem strstr_of_isPrefix {str : List UInt8} (hne : pat ≠ []) (h : pat <+: str) : strstr str pat = some 0 := by
  cases str with
  | nil => exact absurd (List.prefix_nil.mp h) hne
  | cons c cs => rw [strstr, if_pos (List.isPrefixOf_iff_prefix.mpr h)]

theorem strstr_cons_of_not_isPrefix {c : UInt8} {cs : List UInt8} (h : ¬ pat <+: c :: cs) :
    strstr (c :: cs) pat = (strstr cs pat).map (· + 1) := by
  rw [strstr, if_neg (fun hpat => h (List.isPrefixOf_iff_prefix.mp hpat))]

/-- A character is found where it stands first. -/
theorem strstr_singleton {c : UInt8} {front : List UInt8} (h : c ∉ front) (back : List UInt8) :
    strstr (front ++ c :: back) [c] = some front.length := by
  induction front with
  | nil => exact strstr_of_isPrefix (List.cons_ne_nil _ _) ⟨back, rfl⟩
  | cons d front ih =>
      obtain ⟨hd, hfront⟩ := not_or.mp (mt List.mem_cons.mpr h)
      have hhead : ¬ [c] <+: d :: (front ++ c :: back) := fun hpat => hd (List.cons_prefix_cons.mp hpat).1
      rw [List.cons_append, strstr_cons_of_not_isPrefix hhead, ih hfront]
      rfl

/-- An occurrence does not reach across a character that it does not have. -/
theorem strstr_append_cons {sep : UInt8} (hne : pat ≠ []) (hsep : sep ∉ pat) (front str : List UInt8)
    (h : ¬ pat <:+: front) : strstr (front ++ sep :: str) pat = (strstr str pat).map (· + (front.length + 1)) := by
  -- what begins in front of the separator ends there too
  have hcut : ∀ {xs : List UInt8}, pat <+: xs ++ sep :: str → pat <+: xs := by
    intro xs hpat
    have hthrough : xs ++ [sep] <+: xs ++ sep :: str := ⟨str, by rw [List.append_assoc, List.singleton_append]⟩
    rcases List.prefix_or_prefix_of_prefix hpat hthrough with hshort | hlong
    · rcases List.prefix_concat_iff.mp hshort with heq | hxs
      · exact absurd (by rw [heq]; simp) hsep
      · exact hxs
    · exact absurd (hlong.subset (by simp)) hsep
  induction front with
  | nil =>
      have hhead : ¬ pat <+: sep :: str := fun hpat => hne (List.prefix_nil.mp (@hcut [] hpat))
      exact strstr_cons_of_not_isPrefix hhead
  | cons c front ih =>
      have hhead : ¬ pat <+: c :: (front ++ sep :: str) := fun hpat => h (@hcut (c :: front) hpat).isInfix
      rw [List.cons_append, strstr_cons_of_not_isPrefix hhead, ih fun hpat => h (List.infix_cons hpat), Option.map_map]
      rfl

end Search

/-! ## Numbers -/

/-- `isspace` -/
def isSpace (b : UInt8) : Bool := b == 0x20 || (9 ≤ b && b ≤ 13)

/-- `isdigit` -/
def isDigit (b : UInt8) : Bool := 0x30 ≤ b && b ≤ 0x39

/-- The number that some decimal digits stand for. -/
def decimalValue (digits : List UInt8) : Nat := digits.foldl (fun n d => 10 * n + (d.toNat - 0x30)) 0

/-- `strtoul (.., NULL, 10)`, for an `unsigned long` of 64 bits. -/
def strtoul (mem : List UInt8) : Nat :=
  let text := mem.dropWhile isSpace
  let signed := text.headD 0 == 0x2b || text.headD 0 == 0x2d
  let n := decimalValue ((if signed then text.tail else text).takeWhile isDigit)
  if 2 ^ 64 ≤ n then 2 ^ 64 - 1
  else if text.headD 0 = 0x2d then (2 ^ 64 - n) % 2 ^ 64
  else n

/-- A number in decimal digits. -/
def decimalText (n : Nat) : List UInt8 := (Nat.toDigits 10 n).map fun c => UInt8.ofNat c.toNat

section Numbers

variable {n : Nat}

theorem isDigit_iff {d : UInt8} : isDigit d = true ↔ 48 ≤ d.toNat ∧ d.toNat ≤ 57 := by
  rw [isDigit, Bool.and_eq_true, decide_eq_true_eq, decide_eq_true_eq]
  exact Iff.rfl

/-- A digit is stored as one. -/
theorem isDigit_ofNat {c : Char} (h : c.isDigit = true) :
    isDigit (UInt8.ofNat c.toNat) = true ∧ (UInt8.ofNat c.toNat).toNat = c.toNat := by
  obtain ⟨hlo, hhi⟩ : 48 ≤ c.toNat ∧ c.toNat ≤ 57 := Char.isDigit_iff_toNat.mp h
  have htoNat : (UInt8.ofNat c.toNat).toNat = c.toNat := by
    rw [UInt8.toNat_ofNat']
    omega
  exact ⟨isDigit_iff.mpr (by omega), htoNat⟩

theorem isDigit_of_mem_decimalText {d : UInt8} (h : d ∈ decimalText n) : isDigit d = true := by
  obtain ⟨c, hc, rfl⟩ := List.mem_map.mp h
  exact (isDigit_ofNat (Nat.isDigit_of_mem_toDigits (by decide) (by decide) hc)).1

theorem decimalText_ne_nil (n : Nat) : decimalText n ≠ [] := by
  rw [decimalText, ne_eq, List.map_eq_nil_iff]
  exact Nat.toDigits_ne_nil

theorem decimalValue_decimalText (n : Nat) : decimalValue (decimalText n) = n := by
  have hfold : ∀ (cs : List Char) (m : Nat), (∀ c ∈ cs, c.isDigit = true) →
      (cs.map fun c => UInt8.ofNat c.toNat).foldl (fun n d => 10 * n + (d.toNat - 0x30)) m =
        Nat.ofDigitChars 10 cs m := by
    intro cs
    induction cs with
    | nil => exact fun m _ => rfl
    | cons c cs ih =>
        intro m hcs
        obtain ⟨hc, hcs⟩ := List.forall_mem_cons.mp hcs
        rw [List.map_cons, List.foldl_cons, ih _ hcs, Nat.ofDigitChars_cons, (isDigit_ofNat hc).2]
        rfl
  rw [decimalValue, decimalText, hfold _ 0 fun c hc => Nat.isDigit_of_mem_toDigits (by decide) (by decide) hc]
  exact Nat.ofDigitChars_toDigits (by decide) (by decide)

/-- A digit is neither a space nor a sign. -/
theorem not_space_of_isDigit {d : UInt8} (h : isDigit d = true) :
    isSpace d = false ∧ d ≠ 0x2b ∧ d ≠ 0x2d := by
  have hlo := (isDigit_iff.mp h).1
  have hne : ∀ b : UInt8, b.toNat < 48 → d ≠ b := by
    rintro b hb rfl
    exact absurd hb (Nat.not_lt.mpr hlo)
  refine ⟨?_, hne 0x2b (by decide), hne 0x2d (by decide)⟩
  have hspace : ¬ d ≤ 13 := by
    rw [UInt8.le_iff_toNat_le, Nat.not_le]
    exact Nat.lt_of_lt_of_le (by decide) hlo
  rw [isSpace, beq_eq_false_iff_ne.mpr (hne 0x20 (by decide)), decide_eq_false hspace, Bool.and_false, Bool.or_false]

/-- `strtoul` reads a number back that something else than a digit follows. -/
theorem strtoul_decimalText (hn : n < 2 ^ 64) {rest : List UInt8} (hrest : isDigit (rest.headD 0) = false) :
    strtoul (decimalText n ++ rest) = n := by
  obtain ⟨d, digits, hdigits⟩ := List.exists_cons_of_ne_nil (decimalText_ne_nil n)
  have hmem : d ∈ decimalText n := by
    rw [hdigits]
    exact List.mem_cons_self
  obtain ⟨hspace, hplus, hminus⟩ := not_space_of_isDigit (isDigit_of_mem_decimalText hmem)
  have htake : (decimalText n ++ rest).takeWhile isDigit = decimalText n := by
    rw [List.takeWhile_append_of_pos fun d hd => isDigit_of_mem_decimalText hd]
    cases rest with
    | nil => rw [List.takeWhile_nil, List.append_nil]
    | cons r rest => rw [List.takeWhile_cons_of_neg (by simpa using hrest), List.append_nil]
  have hdrop : (decimalText n ++ rest).dropWhile isSpace = decimalText n ++ rest := by
    rw [hdigits, List.cons_append, List.dropWhile_cons_of_neg (by simp [hspace])]
  have hhead : (decimalText n ++ rest).headD 0 = d := by rw [hdigits]; rfl
  rw [strtoul, hdrop]
  simp only [hhead, beq_eq_false_iff_ne.mpr hplus, beq_eq_false_iff_ne.mpr hminus, Bool.or_self, Bool.false_eq_true,
    if_false, htake, decimalValue_decimalText, hminus]
  exact if_neg (Nat.not_le.mpr hn)

end Numbers

end QLog.Library
