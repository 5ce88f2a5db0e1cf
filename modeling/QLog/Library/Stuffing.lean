import Mathlib.Data.List.Basic

/-! # Symbol stuffing

Framing reserves a few symbols; a stuffed text writes each of them as an escape symbol followed by a
masked copy. The code is given by the escape symbol, the set of reserved symbols and the mask; that the
mask is an involution is what the receiver relies on to restore the reserved symbols. -/

namespace QLog.Library

universe u

/-- A stuffing code over an alphabet: `esc` announces that the next symbol is masked. -/
structure StuffingCode (α : Type u) where
  /-- The escape symbol. -/
  esc : α
  /-- The symbols that must not occur in a stuffed text. -/
  reserved : α → Bool
  /-- The mask applied to a reserved symbol behind an escape. -/
  mask : α → α
  /-- The escape symbol itself is reserved. -/
  reserved_esc : reserved esc = true
  /-- Masking twice restores the symbol. -/
  mask_mask : ∀ a, mask (mask a) = a
  /-- A masked reserved symbol is no longer reserved. -/
  mask_reserved : ∀ a, reserved a = true → reserved (mask a) = false

namespace StuffingCode

variable {α : Type u} (code : StuffingCode α)

/-- How one symbol is written. -/
def symbol (a : α) : List α := if code.reserved a then [code.esc, code.mask a] else [a]

/-- Stuff a text symbol by symbol. -/
def stuff (text : List α) : List α := text.flatMap code.symbol

/-- Undo a stuffing: the symbol behind an escape is masked back. -/
def unstuff [DecidableEq α] : List α → List α
  | [] => []
  | [a] => [a]
  | a :: b :: text => if a = code.esc then code.mask b :: unstuff text else a :: unstuff (b :: text)

theorem stuff_cons (a : α) (text : List α) :
    code.stuff (a :: text) = code.symbol a ++ code.stuff text := rfl

theorem stuff_cons_reserved {a : α} (text : List α) (ha : code.reserved a = true) :
    code.stuff (a :: text) = code.esc :: code.mask a :: code.stuff text := by
  simp [stuff_cons, symbol, ha]

theorem stuff_cons_plain {a : α} (text : List α) (ha : code.reserved a = false) :
    code.stuff (a :: text) = a :: code.stuff text := by
  simp [stuff_cons, symbol, ha]

/-- A text without reserved symbols is its own stuffing. -/
theorem stuff_of_plain {text : List α} (h : ∀ a ∈ text, code.reserved a = false) : code.stuff text = text := by
  induction text with
  | nil => rfl
  | cons a text ih =>
      obtain ⟨ha, htext⟩ := List.forall_mem_cons.mp h
      rw [code.stuff_cons_plain text ha, ih htext]

/-- Of the reserved symbols, only the escape symbol occurs in a stuffed text. -/
theorem eq_esc_of_mem_stuff {text : List α} {a : α} (h : a ∈ code.stuff text) (ha : code.reserved a = true) :
    a = code.esc := by
  induction text with
  | nil => cases h
  | cons b text ih =>
      cases hb : code.reserved b with
      | false =>
          rw [code.stuff_cons_plain text hb] at h
          rcases List.mem_cons.mp h with rfl | h
          · rw [hb] at ha
            cases ha
          · exact ih h
      | true =>
          rw [code.stuff_cons_reserved text hb] at h
          rcases List.mem_cons.mp h with rfl | h
          · rfl
          · rcases List.mem_cons.mp h with rfl | h
            · rw [code.mask_reserved b hb] at ha
              cases ha
            · exact ih h

theorem length_stuff (text : List α) : (code.stuff text).length = text.length + text.countP code.reserved := by
  induction text with
  | nil => rfl
  | cons a text ih =>
      cases ha : code.reserved a with
      | false => simp [code.stuff_cons_plain text ha, ih, ha, Nat.add_right_comm]
      | true =>
          simp only [code.stuff_cons_reserved text ha, List.length_cons, ih, List.countP_cons_of_pos ha]
          omega

section Unstuff

variable [DecidableEq α]

theorem unstuff_esc (a : α) (text : List α) :
    code.unstuff (code.esc :: a :: text) = code.mask a :: code.unstuff text := by
  simp [unstuff]

theorem unstuff_plain {a : α} (text : List α) (ha : a ≠ code.esc) :
    code.unstuff (a :: text) = a :: code.unstuff text := by
  cases text with
  | nil => rfl
  | cons b text => simp [unstuff, ha]

/-- **Unstuffing undoes stuffing.** -/
theorem unstuff_stuff (text : List α) : code.unstuff (code.stuff text) = text := by
  induction text with
  | nil => rfl
  | cons a text ih =>
      cases ha : code.reserved a with
      | false =>
          have hne : a ≠ code.esc := by
            rintro rfl
            rw [code.reserved_esc] at ha
            cases ha
          rw [code.stuff_cons_plain text ha, code.unstuff_plain _ hne, ih]
      | true => rw [code.stuff_cons_reserved text ha, code.unstuff_esc, code.mask_mask, ih]

end Unstuff

end StuffingCode

end QLog.Library
