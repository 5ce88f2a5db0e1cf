import QLog.Library.CString

/-! # Numbers that are scanned and printed

`sscanf` with a format of conversions `%d` and single characters between them: the numbers are stored one by one, up to
the first conversion or character that does not match. `%d` skips spaces, and reads a `long` that becomes an `int`. -/

namespace QLog.Library

/-- A sign. -/
def isSign (c : UInt8) : Bool := c == 0x2b || c == 0x2d

/-- A character of a number, or one that is skipped in front of it. -/
def isNumeric (c : UInt8) : Bool := isSpace c || isSign c || isDigit c

/-- A number without its sign. -/
def dropSign (text : List UInt8) : List UInt8 := if isSign (text.headD 0) then text.tail else text

/-- A number as an `int`. -/
def toInt (n : Int) : Int := n.bmod (2 ^ 32)

/-- `%d` of `sscanf`: the number, and what stands behind it. -/
def scanD (str : List UInt8) : Option (Int × List UInt8) :=
  let text := str.dropWhile isSpace
  let digits := (dropSign text).takeWhile isDigit
  if digits = [] then none
  else
    let n : Int := decimalValue digits
    -- the value is cut to what a `long` can hold, as `strtol` does
    let value := if text.headD 0 = 0x2d then max (-n) (-2 ^ 63) else min n (2 ^ 63 - 1)
    some (toInt value, (dropSign text).dropWhile isDigit)

/-- `sscanf` with `%d`, and then a character and another `%d` for each of `seps`: the numbers it stores. -/
def sscanf : List UInt8 → List UInt8 → List Int
  | seps, str =>
      match scanD str with
      | none => []
      | some (n, rest) =>
          match seps, rest with
          | sep :: seps, c :: cs => if c = sep then n :: sscanf seps cs else [n]
          | _, _ => [n]

/-- `atoi` -/
def atoi (str : List UInt8) : Int := ((scanD str).map Prod.fst).getD 0

/-- `%d` of `printf` -/
def printD : Int → List UInt8
  | .ofNat n => decimalText n
  | .negSucc n => 0x2d :: decimalText (n + 1)

/-- Numbers with a dot between each two. -/
def dotted (ns : List Int) : List UInt8 := [0x2e].intercalate (ns.map printD)

section Scan

variable {seps str : List UInt8}

theorem dropSign_eq_append (text : List UInt8) :
    ∃ front, text = front ++ dropSign text ∧ ∀ c ∈ front, isSign c = true := by
  rw [dropSign]
  split
  · next hsign =>
      cases text with
      | nil => exact absurd hsign (by decide)
      | cons c text => exact ⟨[c], rfl, fun d hd => by rwa [List.mem_singleton.mp hd]⟩
  · exact ⟨[], rfl, fun d hd => absurd hd List.not_mem_nil⟩

/-- A conversion takes only the characters of a number. -/
theorem scanD_eq_append {n : Int} {rest : List UInt8} (h : scanD str = some (n, rest)) :
    ∃ front, str = front ++ rest ∧ ∀ c ∈ front, isNumeric c = true := by
  simp only [scanD] at h
  split at h
  · cases h
  · obtain ⟨-, rfl⟩ := Prod.mk.inj (Option.some.inj h)
    obtain ⟨sign, htext, hsign⟩ := dropSign_eq_append (str.dropWhile isSpace)
    generalize hdigits : dropSign (str.dropWhile isSpace) = digits at htext
    refine ⟨str.takeWhile isSpace ++ sign ++ digits.takeWhile isDigit, ?_, ?_⟩
    · rw [List.append_assoc, List.takeWhile_append_dropWhile, List.append_assoc, ← htext,
        List.takeWhile_append_dropWhile]
    · intro c hc
      rcases List.mem_append.mp hc with hc | hc
      · rcases List.mem_append.mp hc with hc | hc
        · simp [isNumeric, List.mem_takeWhile_imp hc]
        · simp [isNumeric, hsign c hc]
      · simp [isNumeric, List.mem_takeWhile_imp hc]

theorem length_sscanf_le (seps str : List UInt8) : (sscanf seps str).length ≤ seps.length + 1 := by
  induction seps generalizing str with
  | nil =>
      rw [sscanf]
      split
      · exact Nat.zero_le _
      · exact Nat.le_refl _
  | cons sep seps ih =>
      rw [sscanf]
      split
      · exact Nat.zero_le _
      · split
        · next heq _ =>
            obtain ⟨rfl, rfl⟩ := List.cons.inj heq
            split
            · exact Nat.succ_le_succ (ih _)
            · simp
        · simp

/-- More than one number is stored only where the first is followed by the first character of the format. -/
theorem sscanf_cons_of_two {sep : UInt8} (h : 2 ≤ (sscanf (sep :: seps) str).length) :
    ∃ n front rest, (∀ c ∈ front, isNumeric c = true) ∧ str = front ++ sep :: rest ∧
      sscanf (sep :: seps) str = n :: sscanf seps rest := by
  rw [sscanf] at h
  cases hscan : scanD str with
  | none => simp [hscan] at h
  | some scanned =>
      obtain ⟨n, rest⟩ := scanned
      obtain ⟨front, hstr, hfront⟩ := scanD_eq_append hscan
      cases rest with
      | nil => simp [hscan] at h
      | cons c cs =>
          by_cases hc : c = sep
          · subst hc
            refine ⟨n, front, cs, hfront, hstr, ?_⟩
            rw [sscanf, hscan]
            exact if_pos rfl
          · simp [hscan, hc] at h

/-- Where all numbers are stored, all characters of the format are in the string. -/
theorem mem_of_sscanf (h : (sscanf seps str).length = seps.length + 1) : ∀ sep ∈ seps, sep ∈ str := by
  induction seps generalizing str with
  | nil => exact fun sep hsep => absurd hsep List.not_mem_nil
  | cons sep seps ih =>
      obtain ⟨n, front, rest, -, hstr, hrest⟩ := sscanf_cons_of_two (by rw [h]; simp)
      rw [hrest, List.length_cons, List.length_cons, Nat.succ_inj] at h
      intro c hc
      rw [hstr, List.mem_append, List.mem_cons]
      rcases List.mem_cons.mp hc with rfl | hc
      · exact Or.inr (Or.inl rfl)
      · exact Or.inr (Or.inr (ih h c hc))

/-- Where all numbers are stored, the first character of the format stands in front of the others. -/
theorem strstr_lt_of_sscanf (sep other : UInt8) (h : (sscanf (sep :: seps) str).length = seps.length + 2)
    (hsep : isNumeric sep = false) (hother : isNumeric other = false) (hne : other ≠ sep) (hmem : other ∈ seps) :
    ∃ i j, strstr str [sep] = some i ∧ strstr str [other] = some j ∧ i < j := by
  obtain ⟨n, front, rest, hfront, hstr, hrest⟩ := sscanf_cons_of_two (by rw [h]; exact Nat.le_add_left _ _)
  rw [hrest, List.length_cons, Nat.succ_inj] at h
  have hnot : ∀ {c : UInt8}, isNumeric c = false → c ∉ front := fun hc hmem => by
    rw [hfront _ hmem] at hc
    cases hc
  obtain ⟨front', back, hrest', hfront'⟩ := List.eq_append_cons_of_mem (mem_of_sscanf h other hmem)
  have hstr' : str = (front ++ sep :: front') ++ other :: back := by rw [hstr, hrest']; simp
  have hother' : other ∉ front ++ sep :: front' := by
    rw [List.mem_append, List.mem_cons, not_or, not_or]
    exact ⟨hnot hother, hne, hfront'⟩
  refine ⟨front.length, (front ++ sep :: front').length, ?_, ?_, ?_⟩
  · rw [hstr]
    exact strstr_singleton (hnot hsep) rest
  · rw [hstr']
    exact strstr_singleton hother' back
  · rw [List.length_append, List.length_cons]
    omega

end Scan

section Print

theorem decimalText_injective : Function.Injective decimalText := fun m n h => by
  rw [← decimalValue_decimalText m, h, decimalValue_decimalText]

theorem isNumeric_of_mem_printD {n : Int} {c : UInt8} (h : c ∈ printD n) : isNumeric c = true := by
  have hdigit : ∀ {k : Nat}, c ∈ decimalText k → isNumeric c = true := fun hc => by
    simp [isNumeric, isDigit_of_mem_decimalText hc]
  cases n with
  | ofNat n => exact hdigit h
  | negSucc n =>
      rcases List.mem_cons.mp h with rfl | h
      · decide
      · exact hdigit h

theorem printD_injective : Function.Injective printD := by
  -- a sign is not a digit
  have hsign : ∀ m n : Nat, decimalText m ≠ 0x2d :: decimalText n := by
    intro m n h
    have hminus : (0x2d : UInt8) ∈ decimalText m := by
      rw [h]
      exact List.mem_cons_self
    exact absurd (isDigit_of_mem_decimalText hminus) (by decide)
  intro m n h
  cases m with
  | ofNat m =>
      cases n with
      | ofNat n => rw [decimalText_injective h]
      | negSucc n => exact absurd h (hsign m (n + 1))
  | negSucc m =>
      cases n with
      | ofNat n => exact absurd h.symm (hsign n (m + 1))
      | negSucc n => rw [Nat.succ.inj (decimalText_injective (List.cons.inj h).2)]

theorem mem_dotted {ns : List Int} {c : UInt8} (h : c ∈ dotted ns) : isNumeric c = true ∨ c = 0x2e := by
  induction ns with
  | nil => exact absurd h List.not_mem_nil
  | cons n ns ih =>
      cases ns with
      | nil => exact Or.inl (isNumeric_of_mem_printD (by simpa [dotted, List.intercalate_singleton] using h))
      | cons m ns =>
          rw [dotted, List.map_cons, List.map_cons, List.intercalate_cons_cons, List.mem_append, List.mem_append,
            List.mem_singleton] at h
          rcases h with (h | h) | h
          · exact Or.inl (isNumeric_of_mem_printD h)
          · exact Or.inr h
          · exact ih h

/-- Dotted numbers are different for different numbers. -/
theorem dotted_inj {ms ns : List Int} (hms : ms ≠ []) (hns : ns ≠ []) (h : dotted ms = dotted ns) : ms = ns := by
  have hsplit : ∀ {ks : List Int}, ks ≠ [] → (dotted ks).splitOn 0x2e = ks.map printD := by
    intro ks hks
    refine List.splitOn_intercalate _ ?_ (by simpa using hks)
    intro text htext hdot
    obtain ⟨k, -, rfl⟩ := List.mem_map.mp htext
    exact absurd (isNumeric_of_mem_printD hdot) (by decide)
  have hmap := hsplit hms
  rw [h, hsplit hns] at hmap
  exact ((List.map_inj_right fun _ _ hk => printD_injective hk).mp hmap).symm

end Print

end QLog.Library
