import Mathlib.Data.List.Basic
import Mathlib.Logic.Function.Basic

/-! # Doubly linked lists in memory

An arena holds cells by address. A freed cell leaves nothing behind, and no address is used twice, so that a read behind
a `free` finds nothing. `DLinked m prev ps xs` says that the cells at the addresses `ps` hold the values `xs`, each with
the addresses of its two neighbours; in front of the first stands `prev`. -/

namespace QLog.Library

universe u

/-- A cell of a doubly linked list. -/
structure DCell (α : Type u) where
  value : α
  prev : Option Nat
  next : Option Nat

/-- The cells by address, and the first address that has not been used yet. -/
structure Arena (α : Type u) where
  cells : Nat → Option (DCell α)
  fresh : Nat

namespace Arena

variable {α : Type u}

def empty : Arena α := ⟨fun _ => none, 0⟩

/-- A new cell, at the address `m.fresh`. -/
def alloc (m : Arena α) (cell : DCell α) : Arena α := ⟨Function.update m.cells m.fresh (some cell), m.fresh + 1⟩

def free (m : Arena α) (p : Nat) : Arena α := { m with cells := Function.update m.cells p none }

/-- A cell is changed, if the address is not null. -/
def modify (m : Arena α) (p : Option Nat) (f : DCell α → DCell α) : Arena α :=
  match p with
  | none => m
  | some p => { m with cells := Function.update m.cells p ((m.cells p).map f) }

/-- `p->prev = prev` -/
def setPrev (m : Arena α) (p prev : Option Nat) : Arena α := m.modify p fun cell => { cell with prev := prev }

/-- `p->next = next` -/
def setNext (m : Arena α) (p next : Option Nat) : Arena α := m.modify p fun cell => { cell with next := next }

/-- `p->value = value` -/
def setValue (m : Arena α) (p : Nat) (value : α) : Arena α :=
  m.modify (some p) fun cell => { cell with value := value }

variable {m : Arena α} {p q : Nat}

@[simp] theorem alloc_self (cell : DCell α) : (m.alloc cell).cells m.fresh = some cell := Function.update_self ..

theorem alloc_of_ne (cell : DCell α) (h : q ≠ m.fresh) : (m.alloc cell).cells q = m.cells q :=
  Function.update_of_ne h ..

theorem free_of_ne (h : q ≠ p) : (m.free p).cells q = m.cells q := Function.update_of_ne h ..

@[simp] theorem modify_some_self (f : DCell α → DCell α) :
    (m.modify (some p) f).cells p = (m.cells p).map f := Function.update_self ..

theorem modify_of_ne {p : Option Nat} (f : DCell α → DCell α) (h : p ≠ some q) :
    (m.modify p f).cells q = m.cells q := by
  cases p with
  | none => rfl
  | some p => exact Function.update_of_ne (fun heq => h (congrArg some heq.symm)) ..

theorem setNext_alloc (cell : DCell α) (next : Option Nat) :
    (m.alloc cell).setNext (some m.fresh) next = m.alloc { cell with next := next } := by
  rw [setNext, modify, alloc_self, alloc, alloc, Function.update_idem]
  rfl

@[simp] theorem fresh_modify (p : Option Nat) (f : DCell α → DCell α) : (m.modify p f).fresh = m.fresh := by
  cases p <;> rfl

end Arena

/-- The cells at the addresses hold the values, and each knows its neighbours. -/
def DLinked {α : Type u} (m : Arena α) : Option Nat → List Nat → List α → Prop
  | _, [], xs => xs = []
  | prev, p :: ps, xs => ∃ x rest, xs = x :: rest ∧ m.cells p = some ⟨x, prev, ps.head?⟩ ∧ DLinked m (some p) ps rest

section DLinked

variable {α : Type u} {m m' : Arena α} {prev : Option Nat} {p : Nat} {ps qs : List Nat} {x : α} {xs ys : List α}

theorem dlinked_cons : DLinked m prev (p :: ps) (x :: xs) ↔
    m.cells p = some ⟨x, prev, ps.head?⟩ ∧ DLinked m (some p) ps xs := by
  constructor
  · rintro ⟨y, rest, heq, hcell, hrest⟩
    obtain ⟨rfl, rfl⟩ := List.cons.inj heq
    exact ⟨hcell, hrest⟩
  · rintro ⟨hcell, hrest⟩
    exact ⟨x, xs, rfl, hcell, hrest⟩

/-- A list has as many cells as values. -/
theorem DLinked.length_eq (h : DLinked m prev ps xs) : ps.length = xs.length := by
  induction ps generalizing prev xs with
  | nil =>
      obtain rfl : xs = [] := h
      rfl
  | cons p ps ih =>
      obtain ⟨x, rest, rfl, -, hrest⟩ := h
      rw [List.length_cons, List.length_cons, ih hrest]

/-- A list is not touched by what happens to other cells. -/
theorem DLinked.frame (h : DLinked m prev ps xs) (hsame : ∀ p ∈ ps, m'.cells p = m.cells p) :
    DLinked m' prev ps xs := by
  induction ps generalizing prev xs with
  | nil => exact h
  | cons p ps ih =>
      obtain ⟨x, rest, hxs, hcell, hrest⟩ := h
      refine ⟨x, rest, hxs, ?_, ih hrest fun q hq => hsame q (List.mem_cons_of_mem p hq)⟩
      rw [hsame p List.mem_cons_self, hcell]

/-- The values of a list are those of its cells. -/
theorem DLinked.getElem? (h : DLinked m prev ps xs) (i : Nat) :
    xs[i]? = ps[i]?.bind fun p => (m.cells p).map (·.value) := by
  induction ps generalizing prev xs i with
  | nil =>
      obtain rfl : xs = [] := h
      rfl
  | cons p ps ih =>
      obtain ⟨x, rest, rfl, hcell, hrest⟩ := h
      cases i with
      | zero => rw [List.getElem?_cons_zero, List.getElem?_cons_zero, Option.bind_some, hcell, Option.map_some]
      | succ i => rw [List.getElem?_cons_succ, List.getElem?_cons_succ, ih hrest]

/-- A new neighbour in front of a list. -/
theorem DLinked.setPrev (h : DLinked m prev ps xs) (hnodup : ps.Nodup) (prev' : Option Nat) :
    DLinked (m.setPrev ps.head? prev') prev' ps xs := by
  cases ps with
  | nil => exact h
  | cons p ps =>
      obtain ⟨x, rest, hxs, hcell, hrest⟩ := h
      refine ⟨x, rest, hxs, ?_, hrest.frame fun q hq => ?_⟩
      · rw [List.head?_cons, Arena.setPrev, Arena.modify_some_self, hcell]
        rfl
      · refine Arena.modify_of_ne _ fun heq => ?_
        rw [List.head?_cons, Option.some_inj] at heq
        exact (List.nodup_cons.mp hnodup).1 (heq ▸ hq)

/-- A cell is put in front of a list. -/
theorem DLinked.push (h : DLinked m none ps xs) (hnodup : ps.Nodup) (hfresh : m.fresh ∉ ps) (x : α) :
    DLinked ((m.alloc ⟨x, none, ps.head?⟩).setPrev ps.head? (some m.fresh)) none (m.fresh :: ps) (x :: xs) := by
  have hold : DLinked (m.alloc ⟨x, none, ps.head?⟩) none ps xs :=
    h.frame fun q hq => Arena.alloc_of_ne _ fun heq => hfresh (heq ▸ hq)
  refine dlinked_cons.mpr ⟨?_, hold.setPrev hnodup (some m.fresh)⟩
  rw [Arena.setPrev, Arena.modify_of_ne, Arena.alloc_self]
  intro heq
  exact hfresh (List.mem_of_mem_head? heq)

/-- A cell is taken out of its list: its neighbours are led past it. -/
def Arena.unlink (m : Arena α) (p : Nat) (cell : DCell α) : Arena α :=
  ((m.setNext cell.prev cell.next).setPrev cell.next cell.prev).free p

theorem Arena.unlink_of_ne {q : Nat} {cell : DCell α} (hp : q ≠ p) (hprev : cell.prev ≠ some q)
    (hnext : cell.next ≠ some q) : (m.unlink p cell).cells q = m.cells q := by
  rw [Arena.unlink, Arena.free_of_ne hp, Arena.setPrev, Arena.modify_of_ne _ hnext, Arena.setNext,
    Arena.modify_of_ne _ hprev]

/-- What is left of a list when a cell has been taken out of it. -/
theorem DLinked.unlink {front back : List Nat} (h : DLinked m prev (front ++ p :: back) (xs ++ x :: ys))
    (hlength : front.length = xs.length) (hnodup : (front ++ p :: back).Nodup)
    (hprev : ∀ q ∈ front ++ p :: back, prev ≠ some q) :
    ∃ cell, m.cells p = some cell ∧ cell.value = x ∧ cell.prev = front.getLast?.or prev ∧
      cell.next = back.head? ∧ DLinked (m.unlink p cell) prev (front ++ back) (xs ++ ys) := by
  -- Induction on the cells in front: only the last of them is led past the cell.
  induction front generalizing prev xs with
  | nil =>
      rw [List.eq_nil_of_length_eq_zero hlength.symm] at h ⊢
      obtain ⟨hcell, hback⟩ := dlinked_cons.mp h
      obtain ⟨hp, hnodup⟩ := List.nodup_cons.mp hnodup
      have hled : DLinked (m.setNext prev back.head?) (some p) back ys :=
        hback.frame fun q hq => Arena.modify_of_ne _ (hprev q (List.mem_cons_of_mem p hq))
      refine ⟨_, hcell, rfl, rfl, rfl, (hled.setPrev hnodup prev).frame fun q hq => ?_⟩
      exact Arena.free_of_ne fun heq => hp (heq ▸ hq)
  | cons a front ih =>
      cases xs with
      | nil => cases hlength
      | cons b xs =>
          obtain ⟨ha, hrest⟩ := dlinked_cons.mp h
          obtain ⟨hnot, hnodup⟩ := List.nodup_cons.mp hnodup
          obtain ⟨cell, hcell, hvalue, hlast, hnext, hleft⟩ := ih hrest (Nat.succ.inj hlength) hnodup
            fun q hq heq => hnot (Option.some.inj heq ▸ hq)
          have hap : a ≠ p := fun heq => hnot (heq ▸ List.mem_append_right front List.mem_cons_self)
          have haback : back.head? ≠ some a := fun heq =>
            hnot (List.mem_append_right front (List.mem_cons_of_mem p (List.mem_of_mem_head? heq)))
          have hprev' : cell.prev = (a :: front).getLast?.or prev := by
            rw [hlast, List.getLast?_cons]
            cases front.getLast? <;> rfl
          refine ⟨cell, hcell, hvalue, hprev', hnext, dlinked_cons.mpr ⟨?_, hleft⟩⟩
          cases front with
          | nil =>
              rw [Arena.unlink, Arena.free_of_ne hap, Arena.setPrev, Arena.modify_of_ne _ (hnext ▸ haback), hlast,
                Arena.setNext]
              show (m.modify (some a) _).cells a = _
              rw [Arena.modify_some_self, ha, hnext]
              rfl
          | cons c front =>
              rw [Arena.unlink_of_ne hap ?_ (hnext ▸ haback), ha]
              · rfl
              · rw [hlast]
                intro heq
                refine hnot (List.mem_append_left _ (List.mem_of_mem_getLast? (Option.mem_def.mpr ?_)))
                rwa [List.getLast?_eq_some_getLast (List.cons_ne_nil c front)] at heq ⊢

/-- The value of a cell is changed. -/
theorem DLinked.setValue {front back : List Nat} (h : DLinked m prev (front ++ p :: back) (xs ++ x :: ys))
    (hlength : front.length = xs.length) (hnodup : (front ++ p :: back).Nodup) (y : α) :
    DLinked (m.setValue p y) prev (front ++ p :: back) (xs ++ y :: ys) := by
  induction front generalizing prev xs with
  | nil =>
      rw [List.eq_nil_of_length_eq_zero hlength.symm] at h ⊢
      obtain ⟨hcell, hback⟩ := dlinked_cons.mp h
      obtain ⟨hp, -⟩ := List.nodup_cons.mp hnodup
      refine dlinked_cons.mpr ⟨?_, hback.frame fun q hq => Arena.modify_of_ne _ fun heq => ?_⟩
      · rw [Arena.setValue, Arena.modify_some_self, hcell]
        rfl
      · exact hp (Option.some.inj heq ▸ hq)
  | cons a front ih =>
      cases xs with
      | nil => cases hlength
      | cons b xs =>
          obtain ⟨ha, hrest⟩ := dlinked_cons.mp h
          obtain ⟨hnot, hnodup⟩ := List.nodup_cons.mp hnodup
          have hpa : (some p : Option Nat) ≠ some a := fun heq =>
            hnot (Option.some.inj heq ▸ List.mem_append_right front List.mem_cons_self)
          refine dlinked_cons.mpr ⟨?_, ih hrest (Nat.succ.inj hlength) hnodup⟩
          rw [Arena.setValue, Arena.modify_of_ne _ hpa, ha]

/-- The first cell along a list whose value is looked for, by at most so many steps. -/
def Arena.find (m : Arena α) (wanted : α → Bool) : Nat → Option Nat → Option Nat
  | 0, _ => none
  | _ + 1, none => none
  | fuel + 1, some p =>
      match m.cells p with
      | none => none
      | some cell => if wanted cell.value then some p else m.find wanted fuel cell.next

/-- A search that is long enough finds the first of the values that are looked for. -/
theorem DLinked.find (h : DLinked m prev ps xs) (wanted : α → Bool) {fuel : Nat} (hfuel : ps.length < fuel) :
    m.find wanted fuel ps.head? = none ∧ (∀ x ∈ xs, wanted x = false) ∨
      ∃ front p back us x vs, ps = front ++ p :: back ∧ xs = us ++ x :: vs ∧ front.length = us.length ∧
        wanted x = true ∧ m.find wanted fuel ps.head? = some p := by
  induction ps generalizing prev xs fuel with
  | nil =>
      obtain rfl : xs = [] := h
      refine Or.inl ⟨?_, fun x hx => absurd hx List.not_mem_nil⟩
      cases fuel <;> rfl
  | cons p ps ih =>
      obtain ⟨x, rest, rfl, hcell, hrest⟩ := h
      obtain ⟨fuel, rfl⟩ : ∃ k, fuel = k + 1 := ⟨fuel - 1, by omega⟩
      rw [List.head?_cons, Arena.find, hcell]
      dsimp only
      cases hwanted : wanted x with
      | true => exact Or.inr ⟨[], p, ps, [], x, rest, rfl, rfl, rfl, hwanted, if_pos rfl⟩
      | false =>
          rw [if_neg Bool.false_ne_true]
          rcases ih hrest (Nat.lt_of_succ_lt_succ hfuel) with ⟨hnone, hall⟩ | ⟨front, q, back, us, y, vs, hps, hrest,
            hlen, hy, hfound⟩
          · exact Or.inl ⟨hnone, List.forall_mem_cons.mpr ⟨hwanted, hall⟩⟩
          · exact Or.inr ⟨p :: front, q, back, x :: us, y, vs, by rw [hps]; rfl, by rw [hrest]; rfl,
              congrArg (· + 1) hlen, hy, hfound⟩

end DLinked

end QLog.Library
