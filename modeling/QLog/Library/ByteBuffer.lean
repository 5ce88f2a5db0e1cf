import Mathlib.Data.List.Basic
import Mathlib.Data.List.PeriodicityLemma

/-! # Buffers addressed by offset

A buffer is the list of what its cells hold. `overwrite` is the copy of a block to an offset, `window` the
block between two offsets: `memcpy` and `memmove` are an `overwrite` with a `window`. The lemmas say which
window of a buffer an overwrite changes, and how windows split. -/

namespace QLog.Library

universe u

variable {α : Type u}

/-- Copy `src` to the offset `off`. -/
def overwrite (mem : List α) (off : Nat) (src : List α) : List α :=
  mem.take off ++ src ++ mem.drop (off + src.length)

/-- The cells at the offsets from `lo` up to, but not including, `hi`. -/
def window (mem : List α) (lo hi : Nat) : List α := (mem.take hi).drop lo

section Window

theorem length_window (mem : List α) {lo hi : Nat} (hhi : hi ≤ mem.length) :
    (window mem lo hi).length = hi - lo := by
  rw [window, List.length_drop, List.length_take, Nat.min_eq_left hhi]

theorem length_window_le (mem : List α) (lo hi : Nat) : (window mem lo hi).length ≤ hi - lo := by
  rw [window, List.length_drop, List.length_take]
  omega

@[simp] theorem window_self (mem : List α) (n : Nat) : window mem n n = [] := by
  rw [window, List.drop_eq_nil_iff]
  exact List.length_take_le n mem

theorem window_zero (mem : List α) (hi : Nat) : window mem 0 hi = mem.take hi := by
  rw [window, List.drop_zero]

theorem getElem?_window (mem : List α) {lo hi k : Nat} (hk : lo + k < hi) :
    (window mem lo hi)[k]? = mem[lo + k]? := by
  rw [window, List.getElem?_drop, List.getElem?_take_of_lt hk]

/-- Taking from a window shortens it at the end. -/
theorem take_window (mem : List α) {lo hi n : Nat} (hn : lo + n ≤ hi) :
    (window mem lo hi).take n = window mem lo (lo + n) := by
  rw [window, window, List.take_drop, List.take_take, Nat.min_eq_left hn]

/-- Dropping from a window shortens it at the front. -/
theorem drop_window (mem : List α) (lo hi n : Nat) :
    (window mem lo hi).drop n = window mem (lo + n) hi := by
  rw [window, window, List.drop_drop]

/-- Two adjacent windows make up one. -/
theorem window_append (mem : List α) {lo mid hi : Nat} (hlo : lo ≤ mid) (hhi : mid ≤ hi) :
    window mem lo mid ++ window mem mid hi = window mem lo hi := by
  obtain ⟨n, rfl⟩ := Nat.exists_eq_add_of_le hlo
  rw [← take_window mem hhi, ← drop_window, List.take_append_drop]

theorem window_drop (mem : List α) (d lo hi : Nat) :
    window (mem.drop d) lo hi = window mem (d + lo) (d + hi) := by
  rw [window, window, List.take_drop, List.drop_drop]

/-- A window does not depend on what is appended behind it. -/
theorem window_append_left {mem : List α} (more : List α) {lo hi : Nat} (h : hi ≤ mem.length) :
    window (mem ++ more) lo hi = window mem lo hi := by
  rw [window, window, List.take_append_of_le_length h]

/-- A window inside a part of the buffer that is known. -/
theorem window_of_drop_eq {mem front mid back : List α} {cur : Nat}
    (h : mem.drop cur = front ++ mid ++ back) :
    window mem (cur + front.length) (cur + front.length + mid.length) = mid := by
  rw [window, List.drop_take, Nat.add_sub_cancel_left, ← List.drop_drop, h, List.append_assoc,
    List.drop_left, List.take_left]

/-- A window inside the middle of three parts. -/
theorem window_middle (front mid back : List α) (lo : Nat) {hi : Nat} (hhi : hi ≤ mid.length) :
    window (front ++ mid ++ back) (front.length + lo) (front.length + hi) = window mid lo hi := by
  rw [window, List.append_assoc, List.take_length_add_append, List.drop_length_add_append,
    List.take_append_of_le_length hhi, window]

/-- The window that is the middle of three parts. -/
theorem window_mid (front mid back : List α) :
    window (front ++ mid ++ back) front.length (front.length + mid.length) = mid := by
  have h := window_middle front mid back 0 (Nat.le_refl mid.length)
  rwa [Nat.add_zero, window_zero, List.take_length] at h

end Window

section Overwrite

variable (mem src : List α) {off : Nat}

theorem length_overwrite (h : off + src.length ≤ mem.length) :
    (overwrite mem off src).length = mem.length := by
  rw [overwrite, List.length_append, List.length_append, List.length_take, List.length_drop]
  omega

/-- A window that ends where the copy begins is not changed. -/
theorem window_overwrite_before {lo hi : Nat} (hhi : hi ≤ off) (hoff : off ≤ mem.length) :
    window (overwrite mem off src) lo hi = window mem lo hi := by
  have hlen : hi ≤ (mem.take off).length := by
    rw [List.length_take]
    omega
  rw [window, overwrite, List.append_assoc, List.take_append_of_le_length hlen, List.take_take,
    Nat.min_eq_left hhi, window]

/-- The window the copy went to holds the copied block. -/
theorem window_overwrite_self (hoff : off ≤ mem.length) :
    window (overwrite mem off src) off (off + src.length) = src := by
  have hlen : (mem.take off).length = off := by
    rw [List.length_take, Nat.min_eq_left hoff]
  rw [window, overwrite, List.take_append_of_le_length (by simp [hlen]), List.take_of_length_le (by simp [hlen]),
    List.drop_left' hlen]

/-- Copying a block to the end of a window appends it to the window. -/
theorem window_overwrite_append {lo : Nat} (hlo : lo ≤ off) (hoff : off ≤ mem.length) :
    window (overwrite mem off src) lo (off + src.length) = window mem lo off ++ src := by
  rw [← window_append _ hlo (Nat.le_add_right off src.length),
    window_overwrite_before mem src (Nat.le_refl off) hoff, window_overwrite_self mem src hoff]

/-- What lies behind the copied block is not changed. -/
theorem drop_overwrite {k : Nat} (hk : off + src.length ≤ k) (hoff : off ≤ mem.length) :
    (overwrite mem off src).drop k = mem.drop k := by
  obtain ⟨m, rfl⟩ := Nat.exists_eq_add_of_le hk
  have hlen : (mem.take off ++ src).length = off + src.length := by
    rw [List.length_append, List.length_take, Nat.min_eq_left hoff]
  rw [overwrite, ← hlen, List.drop_length_add_append, List.drop_drop, hlen]

/-- Copying a window onto itself changes nothing. -/
theorem overwrite_window_self {hi : Nat} (hle : off ≤ hi) (hhi : hi ≤ mem.length) :
    overwrite mem off (window mem off hi) = mem := by
  have hlen : (window mem off hi).length = hi - off := length_window mem hhi
  rw [overwrite, hlen, Nat.add_sub_cancel' hle, ← window_zero mem off,
    window_append mem (Nat.zero_le off) hle, window_zero, List.take_append_drop]

/-- A copy behind a known front of the buffer. -/
theorem overwrite_append (front rest : List α) :
    overwrite (front ++ rest) front.length src = front ++ src ++ rest.drop src.length := by
  rw [overwrite, List.take_left, List.drop_append, List.drop_of_length_le (Nat.le_add_right _ _),
    Nat.add_sub_cancel_left, List.nil_append]

theorem overwrite_zero (mem src : List α) : overwrite mem 0 src = src ++ mem.drop src.length := by
  rw [overwrite, List.take_zero, List.nil_append, Nat.zero_add]

/-- A copy to the front changes nothing exactly if it is there already. -/
theorem overwrite_zero_eq_self_iff {mem src : List α} : overwrite mem 0 src = mem ↔ src <+: mem := by
  rw [overwrite_zero]
  constructor
  · exact fun h => ⟨_, h⟩
  · rintro ⟨rest, rfl⟩
    rw [List.drop_left]

/-- Two copies one behind the other are one copy. -/
theorem overwrite_overwrite (mem src more : List α) :
    overwrite (overwrite mem 0 src) src.length more = overwrite mem 0 (src ++ more) := by
  rw [overwrite_zero, overwrite_append, overwrite_zero, List.drop_drop, List.length_append]

end Overwrite

/-- A copy inside the middle of three parts. -/
theorem overwrite_middle (front mid back src : List α) {off : Nat} (h : off + src.length ≤ mid.length) :
    overwrite (front ++ mid ++ back) (front.length + off) src = front ++ overwrite mid off src ++ back := by
  have htake : (mid ++ back).take off = mid.take off := List.take_append_of_le_length (by omega)
  have hdrop : (mid ++ back).drop (off + src.length) = mid.drop (off + src.length) ++ back :=
    List.drop_append_of_le_length h
  rw [overwrite, List.append_assoc front, List.take_length_add_append, Nat.add_assoc,
    List.drop_length_add_append, htake, hdrop, overwrite]
  simp only [List.append_assoc]

/-! ## Sequences of copies -/

/-- A copy of `src` to the offset `off`. -/
structure Write (α : Type u) where
  off : Nat
  src : List α

/-- The copies are made one after another. -/
def applyWrites (mem : List α) (ws : List (Write α)) : List α := ws.foldl (fun mem w => overwrite mem w.off w.src) mem

@[simp] theorem applyWrites_nil (mem : List α) : applyWrites mem [] = mem := rfl

@[simp] theorem applyWrites_cons (mem : List α) (w : Write α) (ws : List (Write α)) :
    applyWrites mem (w :: ws) = applyWrites (overwrite mem w.off w.src) ws := rfl

theorem applyWrites_append (mem : List α) (ws ws' : List (Write α)) :
    applyWrites mem (ws ++ ws') = applyWrites (applyWrites mem ws) ws' := List.foldl_append

/-- The copy stays within a buffer of the size `n`. -/
def Write.InBounds (n : Nat) (w : Write α) : Prop := w.off + w.src.length ≤ n

/-- The copy with its offset moved. -/
def Write.shift (n : Nat) (w : Write α) : Write α := ⟨n + w.off, w.src⟩

/-- Copies inside the middle of three parts. -/
theorem applyWrites_middle (front mid back : List α) (ws : List (Write α)) (h : ∀ w ∈ ws, w.InBounds mid.length) :
    applyWrites (front ++ mid ++ back) (ws.map (Write.shift front.length)) = front ++ applyWrites mid ws ++ back := by
  induction ws generalizing mid with
  | nil => rfl
  | cons w ws ih =>
      obtain ⟨hw, hws⟩ := List.forall_mem_cons.mp h
      have hlen : (overwrite mid w.off w.src).length = mid.length := length_overwrite mid w.src hw
      rw [List.map_cons, applyWrites_cons, applyWrites_cons, Write.shift, overwrite_middle front mid back w.src hw]
      exact ih _ (by rwa [hlen])

/-- Cutting a list to a length early does not matter where it is cut to that length at the end. -/
theorem take_take_append (n : Nat) (xs ys : List α) : (xs.take n ++ ys).take n = (xs ++ ys).take n := by
  rw [List.take_append, List.take_append, List.take_take, Nat.min_self, List.length_take]
  congr 2
  omega

/-- A front of two parts that is long enough is the first part and a front of the second. -/
theorem exists_of_prefix_append {xs ys zs : List α} (h : xs <+: ys ++ zs) (hle : ys.length ≤ xs.length) :
    ∃ rest, xs = ys ++ rest ∧ rest <+: zs := by
  have hfront : ys <+: xs := List.prefix_of_prefix_length_le (List.prefix_append ys zs) h hle
  obtain ⟨rest, rfl⟩ := hfront
  exact ⟨rest, rfl, (List.prefix_append_right_inj ys).mp h⟩

/-! ## Memories -/

/-- The `n` cells of a memory from the address `a` on. -/
def memoryRange (mem : Nat → α) (a n : Nat) : List α := (List.range' a n).map mem

@[simp] theorem length_memoryRange (mem : Nat → α) (a n : Nat) : (memoryRange mem a n).length = n := by
  rw [memoryRange, List.length_map, List.length_range']

@[simp] theorem memoryRange_zero (mem : Nat → α) (a : Nat) : memoryRange mem a 0 = [] := rfl

theorem memoryRange_append (mem : Nat → α) (a m n : Nat) :
    memoryRange mem a m ++ memoryRange mem (a + m) n = memoryRange mem a (m + n) := by
  rw [memoryRange, memoryRange, memoryRange, ← List.map_append, List.range'_append_1]

/-! ## Blocks of one size -/

/-- A cell of a concatenation of blocks of one size. -/
theorem getElem?_flatMap_block {β : Type u} (g : β → List α) {c : Nat} (bs : List β)
    (hc : ∀ b ∈ bs, (g b).length = c) {i j : Nat} {b : β} (hi : bs[i]? = some b) (hj : j < c) :
    (bs.flatMap g)[c * i + j]? = (g b)[j]? := by
  induction bs generalizing i with
  | nil => simp at hi
  | cons b' bs ih =>
      have hlen : (g b').length = c := hc b' List.mem_cons_self
      rw [List.flatMap_cons]
      cases i with
      | zero =>
          rw [List.getElem?_cons_zero, Option.some.injEq] at hi
          rw [← hi, Nat.mul_zero, Nat.zero_add, List.getElem?_append_left (by omega)]
      | succ i =>
          rw [List.getElem?_cons_succ] at hi
          have hidx : c * (i + 1) + j = c + (c * i + j) := by rw [Nat.mul_succ]; omega
          rw [hidx, List.getElem?_append_right (by omega), hlen, Nat.add_sub_cancel_left]
          exact ih (fun x hx => hc x (List.mem_cons_of_mem b' hx)) hi

theorem length_flatMap_block {β : Type u} (g : β → List α) {c : Nat} (bs : List β)
    (hc : ∀ b ∈ bs, (g b).length = c) : (bs.flatMap g).length = c * bs.length := by
  induction bs with
  | nil => rfl
  | cons b bs ih =>
      rw [List.flatMap_cons, List.length_append, hc b List.mem_cons_self,
        ih fun x hx => hc x (List.mem_cons_of_mem b hx), List.length_cons, Nat.mul_succ, Nat.add_comm]

/-! ## A block that begins with itself shifted -/

/-- A block that is a front of itself behind `head` repeats `head`. -/
theorem getElem?_of_prefix_append_self {head block : List α} (h : block <+: head ++ block)
    (hpos : 0 < head.length) (hle : head.length ≤ block.length) {k : Nat} (hk : k < block.length) :
    block[k]? = head[k % head.length]? := by
  have hfront : head <+: block := List.prefix_of_prefix_length_le (List.prefix_append head block) h hle
  have htake : block.take head.length = head := (List.prefix_iff_eq_take.mp hfront).symm
  have hperiod : block.HasPeriod head.length := by
    rw [List.HasPeriod, htake]
    exact h
  have hmod : k % head.length < head.length := Nat.mod_lt k hpos
  calc block[k]? = block[k % head.length]? := (hperiod.getElem?_mod head.length k block hk).symm
    _ = (block.take head.length)[k % head.length]? := (List.getElem?_take_of_lt hmod).symm
    _ = head[k % head.length]? := by rw [htake]

end QLog.Library
