import Mathlib.Data.List.Nodup
import QLog.Library.LinkedList

/-! # The queue of log files

With `-C` the names of the log files wait in a linked list to be removed. `Holds` is what the functions of the queue
keep: the cells between `front` and `rear` are chained to the list of the names. -/

namespace QLog.Cqueue

open Library

universe u

/-- `Queue`, with the memory its nodes are in. -/
structure Queue (α : Type u) where
  heap : Heap α
  front : Option Nat
  rear : Option Nat

variable {α : Type u}

/-- `create_node` -/
def createNode (filename : α) : Cell α := ⟨filename, none⟩

/-- `create_queue` -/
def createQueue : Queue α := ⟨[], none, none⟩

/-- `enqueue` -/
def enqueue (queue : Queue α) (data : α) : Queue α :=
  let newNode := queue.heap.length
  let heap := queue.heap.alloc (createNode data)
  match queue.rear with
  | none => ⟨heap, some newNode, some newNode⟩
  | some rear => ⟨heap.setNext rear (some newNode), queue.front, some newNode⟩

/-- `dequeue`: the queue, and the value that is returned. -/
def dequeue (queue : Queue α) : Queue α × Int :=
  match queue.front with
  | none => (queue, -1)
  | some temp =>
      let front := (queue.heap.load temp).bind (·.next)
      (⟨queue.heap.free temp, front, if front = none then none else queue.rear⟩, 0)

/-- `peek` -/
def peek (queue : Queue α) : Option α :=
  match queue.front with
  | none => none
  | some front => (queue.heap.load front).map (·.value)

/-- `is_empty` -/
def isEmpty (queue : Queue α) : Bool := queue.front = none

/-- The queue holds these values, from front to rear. -/
def Holds (queue : Queue α) (xs : List α) : Prop :=
  ∃ ps : List Nat, ps.Nodup ∧ queue.front = ps.head? ∧ queue.rear = ps.getLast? ∧ Linked queue.heap ps xs

variable {queue : Queue α} {x : α} {xs : List α}

theorem holds_createQueue : Holds (createQueue : Queue α) [] := ⟨[], List.nodup_nil, rfl, rfl, rfl⟩

/-- `enqueue` appends to the list. -/
theorem Holds.enqueue (h : Holds queue xs) (data : α) : Holds (enqueue queue data) (xs ++ [data]) := by
  obtain ⟨ps, hnodup, hfront, hrear, hlinked⟩ := h
  have hfresh : queue.heap.length ∉ ps := fun hmem => Nat.lt_irrefl _ (hlinked.lt_length _ hmem)
  rw [Cqueue.enqueue]
  rcases List.eq_nil_or_concat' ps with rfl | ⟨init, last, rfl⟩
  · rw [List.getLast?_nil] at hrear
    rw [hrear]
    refine ⟨[queue.heap.length], List.nodup_singleton _, rfl, rfl, ?_⟩
    have hnil : xs = [] := hlinked
    rw [hnil]
    exact ⟨data, [], rfl, Heap.load_alloc_self _, rfl⟩
  · rw [List.getLast?_concat] at hrear
    rw [hrear]
    have hlast : last ∉ init := by
      intro hmem
      exact (List.nodup_append.mp hnodup).2.2 last hmem last List.mem_cons_self rfl
    have hlt := hlinked.lt_length
    have hlastLt : last < queue.heap.length := hlt last (List.mem_append_right _ List.mem_cons_self)
    refine ⟨init ++ [last] ++ [queue.heap.length], ?_, ?_, ?_, ?_⟩
    · exact List.nodup_append.mpr ⟨hnodup, List.nodup_singleton _, fun p hp q hq hpq =>
        hfresh (List.mem_singleton.mp hq ▸ hpq ▸ hp)⟩
    · rw [hfront]
      cases init <;> rfl
    · exact List.getLast?_concat.symm
    · apply hlinked.snoc
      · intro q hq
        have hqLt : q < queue.heap.length := hlt q (List.mem_append_left _ hq)
        have hne : q ≠ last := by
          rintro rfl
          exact hlast hq
        rw [Heap.load_setNext_of_ne _ hne, Heap.load_alloc_of_lt _ hqLt]
      · rw [Heap.load_setNext_self, Heap.load_alloc_of_lt _ hlastLt]
      · rw [Heap.load_setNext_of_ne _ (Nat.ne_of_gt hlastLt), Heap.load_alloc_self]
        rfl

/-- `dequeue` takes the front away. -/
theorem Holds.dequeue (h : Holds queue (x :: xs)) : Holds (dequeue queue).1 xs ∧ (dequeue queue).2 = 0 := by
  obtain ⟨ps, hnodup, hfront, hrear, hlinked⟩ := h
  obtain ⟨p, rest, rfl, hload, hrest⟩ := hlinked.front
  obtain ⟨hp, hnodup⟩ := List.nodup_cons.mp hnodup
  rw [List.head?_cons] at hfront
  rw [Cqueue.dequeue, hfront]
  dsimp only
  rw [hload, Option.bind_some]
  refine ⟨⟨rest, hnodup, rfl, ?_, ?_⟩, rfl⟩
  · cases rest with
    | nil => rfl
    | cons q rest =>
        rw [List.head?_cons, if_neg (Option.some_ne_none q), hrear, List.getLast?_cons_cons]
  · exact hrest.frame fun q hq => Heap.load_free_of_ne fun hqp => hp (hqp ▸ hq)

/-- `peek` is the front. -/
theorem Holds.peek (h : Holds queue xs) : peek queue = xs.head? := by
  obtain ⟨ps, -, hfront, -, hlinked⟩ := h
  rw [Cqueue.peek, hfront]
  cases xs with
  | nil =>
      cases ps with
      | nil => rfl
      | cons p ps =>
          obtain ⟨x, rest, hxs, -⟩ := hlinked
          cases hxs
  | cons x xs =>
      obtain ⟨p, rest, rfl, hload, -⟩ := hlinked.front
      rw [List.head?_cons]
      dsimp only
      rw [hload]
      rfl

theorem Holds.isEmpty (h : Holds queue xs) : isEmpty queue = true ↔ xs = [] := by
  obtain ⟨ps, -, hfront, -, hlinked⟩ := h
  rw [Cqueue.isEmpty, decide_eq_true_iff, hfront, List.head?_eq_none_iff]
  cases xs with
  | nil =>
      cases ps with
      | nil => simp
      | cons p ps =>
          obtain ⟨x, rest, hxs, -⟩ := hlinked
          cases hxs
  | cons x xs =>
      obtain ⟨p, rest, rfl, -, -⟩ := hlinked.front
      simp

end QLog.Cqueue
