import Mathlib.Data.List.Basic

/-! # Linked lists in memory

A heap is a list of cells, addressed by their places in it. A freed cell stays behind as `none` and its address is not
used again, so that a read behind a `free` finds nothing. `Linked h ps xs` says that the cells at the addresses `ps` are
chained to a list of the values `xs`. -/

namespace QLog.Library

universe u

/-- A cell of a linked list. -/
structure Cell (α : Type u) where
  value : α
  next : Option Nat

/-- The cells by address. -/
abbrev Heap (α : Type u) : Type u := List (Option (Cell α))

namespace Heap

variable {α : Type u}

/-- The cell at an address. -/
def load (h : Heap α) (p : Nat) : Option (Cell α) := h[p]?.join

/-- A new cell, at the address `h.length`. -/
def alloc (h : Heap α) (cell : Cell α) : Heap α := h ++ [some cell]

/-- `p->next = next` -/
def setNext (h : Heap α) (p : Nat) (next : Option Nat) : Heap α :=
  h.modify p (Option.map fun cell => { cell with next := next })

def free (h : Heap α) (p : Nat) : Heap α := h.set p none

variable {h : Heap α} {p q : Nat}

theorem lt_of_load {cell : Cell α} (hload : h.load p = some cell) : p < h.length := by
  by_contra hge
  rw [load, List.getElem?_eq_none (Nat.not_lt.mp hge)] at hload
  cases hload

theorem load_alloc_self (cell : Cell α) : (h.alloc cell).load h.length = some cell := by
  simp [load, alloc]

theorem load_alloc_of_lt (cell : Cell α) (hp : p < h.length) : (h.alloc cell).load p = h.load p := by
  rw [load, alloc, List.getElem?_append_left hp, load]

theorem load_setNext_self (next : Option Nat) :
    (h.setNext p next).load p = (h.load p).map fun cell => { cell with next := next } := by
  rw [load, setNext, List.getElem?_modify_eq, load]
  cases h[p]? <;> rfl

theorem load_setNext_of_ne (next : Option Nat) (hq : q ≠ p) : (h.setNext p next).load q = h.load q := by
  simp [load, setNext, Ne.symm hq]

theorem load_free_of_ne (hq : q ≠ p) : (h.free p).load q = h.load q := by
  rw [load, free, List.getElem?_set_ne (Ne.symm hq), load]

end Heap

/-- The cells at the addresses hold the values, and each leads to the next. -/
def Linked {α : Type u} (h : Heap α) : List Nat → List α → Prop
  | [], xs => xs = []
  | p :: ps, xs => ∃ x rest, xs = x :: rest ∧ h.load p = some ⟨x, ps.head?⟩ ∧ Linked h ps rest

section Linked

variable {α : Type u} {h h' : Heap α} {ps : List Nat} {xs : List α}

/-- A list is not touched by what happens to other cells. -/
theorem Linked.frame (hlinked : Linked h ps xs) (hsame : ∀ p ∈ ps, h'.load p = h.load p) : Linked h' ps xs := by
  induction ps generalizing xs with
  | nil => exact hlinked
  | cons p ps ih =>
      obtain ⟨x, rest, hxs, hload, hrest⟩ := hlinked
      refine ⟨x, rest, hxs, ?_, ih hrest fun q hq => hsame q (List.mem_cons_of_mem p hq)⟩
      rw [hsame p List.mem_cons_self, hload]

/-- All addresses of a list are in use. -/
theorem Linked.lt_length (hlinked : Linked h ps xs) : ∀ p ∈ ps, p < h.length := by
  induction ps generalizing xs with
  | nil => exact fun p hp => absurd hp List.not_mem_nil
  | cons p ps ih =>
      obtain ⟨x, rest, -, hload, hrest⟩ := hlinked
      intro q hq
      rcases List.mem_cons.mp hq with rfl | hq
      · exact Heap.lt_of_load hload
      · exact ih hrest q hq

/-- A cell is appended: the last one leads to it. -/
theorem Linked.snoc {last p : Nat} {x : α} (hlinked : Linked h (ps ++ [last]) xs)
    (hsame : ∀ q ∈ ps, h'.load q = h.load q)
    (hlast : h'.load last = (h.load last).map fun cell => { cell with next := some p })
    (hnew : h'.load p = some ⟨x, none⟩) : Linked h' (ps ++ [last] ++ [p]) (xs ++ [x]) := by
  induction ps generalizing xs with
  | nil =>
      obtain ⟨y, rest, rfl, hload, rfl⟩ := hlinked
      refine ⟨y, [x], rfl, ?_, x, [], rfl, hnew, rfl⟩
      rw [hlast, hload]
      rfl
  | cons q ps ih =>
      obtain ⟨y, rest, rfl, hload, hrest⟩ := hlinked
      refine ⟨y, rest ++ [x], rfl, ?_, ih hrest fun q' hq' => hsame q' (List.mem_cons_of_mem q hq')⟩
      rw [hsame q List.mem_cons_self, hload]
      cases ps <;> rfl

/-- The front of a list that is not empty. -/
theorem Linked.front {x : α} (hlinked : Linked h ps (x :: xs)) :
    ∃ p rest, ps = p :: rest ∧ h.load p = some ⟨x, rest.head?⟩ ∧ Linked h rest xs := by
  cases ps with
  | nil => cases hlinked
  | cons p rest =>
      obtain ⟨y, ys, heq, hload, hrest⟩ := hlinked
      obtain ⟨rfl, rfl⟩ := List.cons.inj heq
      exact ⟨p, rest, rfl, hload, hrest⟩

end Linked

end QLog.Library
