import QLog.Library.ByteBuffer

/-! # Patterns with free positions

A pattern names symbols for some of its positions and leaves the others free. A test of a buffer against a pattern looks
at the fresh symbols in front of the buffer and, if the pattern is longer, at what stands behind them. -/

namespace QLog.Library

universe u

variable {α : Type u}

/-- A symbol for each position, or none where any symbol will do. -/
abbrev Pattern (α : Type u) : Type u := List (Option α)

namespace Pattern

/-- The symbols from the front on are those of the pattern. -/
def Matches : Pattern α → List α → Prop
  | [], _ => True
  | _ :: _, [] => False
  | cell :: p, x :: xs => (∀ a ∈ cell, x = a) ∧ Matches p xs

instance decidableMatches [DecidableEq α] : ∀ (p : Pattern α) (xs : List α), Decidable (Matches p xs)
  | [], _ => isTrue trivial
  | _ :: _, [] => isFalse id
  | cell :: p, x :: xs =>
      @instDecidableAnd (∀ a ∈ cell, x = a) (Matches p xs) inferInstance (decidableMatches p xs)

@[simp] theorem matches_nil (xs : List α) : Matches [] xs := trivial

theorem matches_cons {cell : Option α} {p : Pattern α} {x : α} {xs : List α} :
    Matches (cell :: p) (x :: xs) ↔ (∀ a ∈ cell, x = a) ∧ Matches p xs := Iff.rfl

/-- A test of two parts is a test of each part, against its part of the pattern. -/
theorem matches_append (p : Pattern α) (xs ys : List α) :
    Matches p (xs ++ ys) ↔ Matches (p.take xs.length) xs ∧ Matches (p.drop xs.length) ys := by
  induction xs generalizing p with
  | nil => simp
  | cons x xs ih =>
      cases p with
      | nil => simp
      | cons cell p =>
          rw [List.cons_append, matches_cons, ih, List.length_cons, List.take_succ_cons, List.drop_succ_cons,
            matches_cons, and_assoc]

/-- The pattern is met by every text that begins with these symbols. -/
def fill (p : Pattern α) (a : α) : List α := p.map (·.getD a)

@[simp] theorem length_fill (p : Pattern α) (a : α) : (p.fill a).length = p.length := List.length_map _

theorem matches_fill_append (p : Pattern α) (a : α) (rest : List α) : Matches p (p.fill a ++ rest) := by
  induction p with
  | nil => trivial
  | cons cell p ih =>
      refine ⟨fun b hb => ?_, ih⟩
      rw [Option.mem_def.mp hb]
      rfl

theorem drop_fill (p : Pattern α) (a : α) (n : Nat) : (p.fill a).drop n = fill (p.drop n) a :=
  List.map_drop.symm

/-- A text of one symbol fails a pattern that names another one. -/
theorem not_matches_of_mem {p : Pattern α} {a b : α} (hmem : some a ∈ p) (hne : b ≠ a) {n : Nat}
    (hn : p.length ≤ n) (rest : List α) : ¬ Matches p (List.replicate n b ++ rest) := by
  induction p generalizing n with
  | nil => cases hmem
  | cons cell p ih =>
      cases n with
      | zero => cases hn
      | succ n =>
          rw [List.replicate_succ, List.cons_append, matches_cons]
          rintro ⟨hhead, htail⟩
          rcases List.mem_cons.mp hmem with rfl | hmem
          · exact hne (hhead a rfl)
          · exact ih hmem (Nat.le_of_succ_le_succ hn) htail

/-- A test does not look behind the end of the pattern. -/
theorem matches_append_of_length_le {p : Pattern α} {xs : List α} (h : p.length ≤ xs.length) (ys : List α) :
    Matches p (xs ++ ys) ↔ Matches p xs := by
  rw [matches_append, List.take_of_length_le h, List.drop_of_length_le h]
  exact and_iff_left trivial

/-- A test of fresh symbols in front of older ones does not depend on the older ones if the fresh ones decide it. -/
theorem matches_congr_of_decided {p : Pattern α} {xs : List α}
    (h : p.length ≤ xs.length ∨ ¬ Matches (p.take xs.length) xs) (ys zs : List α) :
    Matches p (xs ++ ys) ↔ Matches p (xs ++ zs) := by
  rcases h with hlong | hnot
  · rw [matches_append_of_length_le hlong, matches_append_of_length_le hlong]
  · rw [matches_append, matches_append]
    exact iff_of_false (fun hm => hnot hm.1) (fun hm => hnot hm.1)

end Pattern

end QLog.Library
