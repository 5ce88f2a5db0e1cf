import QLog.Cache.LogFile

/-! # The descriptors in the table of caches

A descriptor has at most one cache in the table, if none is given a cache that has one already. What is cached for it is
then what its slot holds, a new cache starts empty, and a descriptor whose cache is freed is not in the table.

No lock is taken for the table. `kfifo_alloc` looks for a slot and then takes it, and `kfifo_free` gives one up and then
clears it, so both are in two parts here, between which another thread may call them. -/

namespace QLog.Capture

open Library Kfifo KfifoTable

/-- A descriptor has at most one slot. -/
def Single (t : KfifoTable) : Prop := ∀ i j, (t i).fd = (t j).fd → (t i).fd ≠ -1 → i = j

/-- A descriptor has a slot. -/
def Uses (t : KfifoTable) (fd : Int) : Prop := ∃ i, (t i).fd = fd

/-- The stores of `kfifo_alloc`, to the slot that it has found. -/
def kfifoTake (t : KfifoTable) (fd : Int) (found : Option (Fin fifoNum)) : KfifoTable :=
  match found with
  | none => t
  | some i => Function.update t i { t i with fd := fd, inPos := 0, outPos := 0 }

/-- The first store of `kfifo_free`. -/
def kfifoGive (t : KfifoTable) (idx : Option (Fin fifoNum)) : KfifoTable :=
  match idx with
  | none => t
  | some i => Function.update t i { t i with fd := -1 }

/-- The other stores of `kfifo_free`. -/
def kfifoClear (t : KfifoTable) (idx : Option (Fin fifoNum)) : KfifoTable :=
  match idx with
  | none => t
  | some i => Function.update t i { t i with inPos := 0, outPos := 0 }

section Slots

variable {t : KfifoTable} {fd : Int} {i : Fin fifoNum} {idx : Option (Fin fifoNum)}

/-- A call of `kfifo_alloc` that nothing comes between. -/
theorem kfifoAlloc_eq_take (t : KfifoTable) (hfd : fd ≠ -1) :
    t.kfifoAlloc fd = (kfifoTake t fd (t.find (-1)), t.find (-1)) := by
  rw [kfifoAlloc, if_neg hfd]
  cases t.find (-1) <;> rfl

/-- A call of `kfifo_free` that nothing comes between. -/
theorem kfifoFree_eq_clear (t : KfifoTable) (idx : Option (Fin fifoNum)) :
    t.kfifoFree idx = kfifoClear (kfifoGive t idx) idx := by
  cases idx with
  | none => rfl
  | some i =>
      rw [kfifoGive, kfifoClear, kfifoFree, Function.update_self]
      exact (Function.update_idem ..).symm

/-- The slot of a descriptor is found. -/
theorem Single.kfifoIdx (h : Single t) (hi : (t i).fd = fd) (hfd : fd ≠ -1) : t.kfifoIdx fd = some i := by
  rw [KfifoTable.kfifoIdx, if_neg hfd]
  cases hfind : t.find fd with
  | none =>
      have hnone := List.find?_eq_none.mp hfind i (List.mem_finRange i)
      exact absurd (decide_eq_true hi) hnone
  | some j =>
      have hj := find_fd hfind
      rw [h j i (hj.trans hi.symm) (hj ▸ hfd)]

theorem kfifoIdx_of_not_uses (h : ¬Uses t fd) : t.kfifoIdx fd = none := by
  cases hidx : t.kfifoIdx fd with
  | none => rfl
  | some i => exact absurd ⟨i, (kfifoIdx_fd hidx).2⟩ h

/-- Nothing is cached for a descriptor without a slot. -/
theorem cached_of_not_uses (h : ¬Uses t fd) : cached t fd = [] := by
  rw [cached, kfifoIdx_of_not_uses h]

@[simp] theorem cached_neg_one : cached t (-1) = [] := by
  rw [cached, KfifoTable.kfifoIdx, if_pos rfl]

/-- What is cached for a descriptor is what its slot holds. -/
theorem Single.cached_eq (h : Single t) (hi : (t i).fd = fd) (hfd : fd ≠ -1) : cached t fd = (t i).pending := by
  rw [cached, h.kfifoIdx hi hfd]

/-- A slot that is taken goes to its descriptor, and the other slots stay as they are. -/
theorem kfifoTake_self (t : KfifoTable) (fd : Int) (i : Fin fifoNum) : (kfifoTake t fd (some i) i).fd = fd := by
  rw [kfifoTake, Function.update_self]

theorem kfifoTake_of_ne {j : Fin fifoNum} (hj : j ≠ i) : kfifoTake t fd (some i) j = t j :=
  Function.update_of_ne hj _ _

/-- A new cache goes to a slot that is free, and the other descriptors keep theirs. -/
theorem Single.take (h : Single t) (hne : fd ≠ -1) (hfd : ¬Uses t fd) (found : Option (Fin fifoNum)) :
    Single (kfifoTake t fd found) ∧ (∀ a, Uses (kfifoTake t fd found) a → Uses t a ∨ a = fd ∧ found.isSome) ∧
      cached (kfifoTake t fd found) fd = [] := by
  cases found with
  | none => exact ⟨h, fun _ ha => Or.inl ha, cached_of_not_uses hfd⟩
  | some i =>
    have hself := kfifoTake_self t fd i
    have hother : ∀ j, j ≠ i → kfifoTake t fd (some i) j = t j := fun j hj => kfifoTake_of_ne hj
    have hsingle : Single (kfifoTake t fd (some i)) := by
      intro j k heq hused
      rcases eq_or_ne j i with hj | hj <;> rcases eq_or_ne k i with hk | hk
      · exact hj.trans hk.symm
      · rw [hj, hself, hother k hk] at heq
        exact absurd ⟨k, heq.symm⟩ hfd
      · rw [hk, hself, hother j hj] at heq
        exact absurd ⟨j, heq⟩ hfd
      · rw [hother j hj, hother k hk] at heq
        rw [hother j hj] at hused
        exact h j k heq hused
    refine ⟨hsingle, ?_, ?_⟩
    · rintro a ⟨j, rfl⟩
      rcases eq_or_ne j i with rfl | hj
      · exact Or.inr ⟨hself, rfl⟩
      · rw [hother j hj]
        exact Or.inl ⟨j, rfl⟩
    · rw [hsingle.cached_eq hself hne, kfifoTake, Function.update_self]
      exact window_self _ 0

/-- A descriptor whose cache is freed has no slot. -/
theorem Single.free (h : Single t) (fd : Int) :
    Single (t.kfifoFree (t.kfifoIdx fd)) ∧
      ∀ a, a ≠ -1 → Uses (t.kfifoFree (t.kfifoIdx fd)) a → Uses t a ∧ a ≠ fd := by
  cases hidx : t.kfifoIdx fd with
  | none =>
      refine ⟨h, fun a ha huses => ⟨huses, ?_⟩⟩
      rintro rfl
      obtain ⟨i, hi⟩ := huses
      exact absurd (hidx.symm.trans (h.kfifoIdx hi ha)).symm (Option.some_ne_none i)
  | some i =>
      obtain ⟨-, hi⟩ := kfifoIdx_fd hidx
      have hself : (t.kfifoFree (some i) i).fd = -1 := by rw [kfifoFree, Function.update_self]
      have hother : ∀ j, j ≠ i → t.kfifoFree (some i) j = t j := fun j hj => Function.update_of_ne hj _ _
      refine ⟨fun j k heq hused => ?_, ?_⟩
      · have hj : j ≠ i := by
          rintro rfl
          exact hused hself
        have hk : k ≠ i := by
          rintro rfl
          exact hused (heq.trans hself)
        rw [hother j hj, hother k hk] at heq
        rw [hother j hj] at hused
        exact h j k heq hused
      · rintro a ha ⟨j, rfl⟩
        have hj : j ≠ i := by
          rintro rfl
          exact ha hself
        rw [hother j hj]
        refine ⟨⟨j, rfl⟩, fun heq => hj ?_⟩
        rw [hother j hj] at ha
        exact h j i (heq.trans hi.symm) ha

/-- The descriptors of files that are closed have no slot. -/
theorem Single.close (h : Single t) (logfd second third : Int) :
    Single (qlogLogfileClose t logfd second third) ∧
      ∀ a, a ≠ -1 → Uses (qlogLogfileClose t logfd second third) a →
        Uses t a ∧ a ≠ logfd ∧ a ≠ second ∧ a ≠ third := by
  obtain ⟨hsingle₁, huses₁⟩ := h.free logfd
  obtain ⟨hsingle₂, huses₂⟩ := hsingle₁.free second
  obtain ⟨hsingle₃, huses₃⟩ := hsingle₂.free third
  refine ⟨hsingle₃, fun a ha huses => ?_⟩
  obtain ⟨huses, hthird⟩ := huses₃ a ha huses
  obtain ⟨huses, hsecond⟩ := huses₂ a ha huses
  obtain ⟨huses, hlog⟩ := huses₁ a ha huses
  exact ⟨huses, hlog, hsecond, hthird⟩

theorem valid_close (ht : t.Valid) (logfd second third : Int) : Valid (qlogLogfileClose t logfd second third) :=
  kfifoFree_valid (kfifoFree_valid (kfifoFree_valid ht _) _) _

theorem valid_save (ht : t.Valid) (fd : Int) (buf : List UInt8) (env : SaveEnv) :
    Valid (qlogLogfileSave t fd buf env).1 := by
  rw [qlogLogfileSave]
  cases t.kfifoIdx fd with
  | none => exact ht
  | some i => exact ht.update i (kfifoWrite_spec (ht i) buf env.cache).1

/-- The descriptors of the table stay as they are. -/
def SameFds (t t' : KfifoTable) : Prop := ∀ i, (t' i).fd = (t i).fd

theorem SameFds.single {t' : KfifoTable} (h : SameFds t t') (hsingle : Single t) : Single t' := by
  intro i j heq hused
  rw [h i, h j] at heq
  rw [h i] at hused
  exact hsingle i j heq hused

theorem SameFds.uses {t' : KfifoTable} (h : SameFds t t') {a : Int} (huses : Uses t' a) : Uses t a := by
  obtain ⟨i, hi⟩ := huses
  exact ⟨i, (h i).symm.trans hi⟩

/-- A write leaves the descriptors as they are. -/
theorem sameFds_write (t : KfifoTable) (i : Fin fifoNum) (buf : List UInt8) (env : WriteEnv) :
    SameFds t (t.write i buf env) := by
  intro j
  rcases eq_or_ne j i with rfl | hj
  · rw [write_self, kfifoWrite_fd]
  · rw [write_of_ne hj]

theorem sameFds_save (t : KfifoTable) (fd : Int) (buf : List UInt8) (env : SaveEnv) :
    SameFds t (qlogLogfileSave t fd buf env).1 := by
  rw [qlogLogfileSave]
  cases t.kfifoIdx fd with
  | none => exact fun _ => rfl
  | some i => exact sameFds_write t i buf env.cache

/-! ## The parts of a call -/

theorem valid_take (ht : t.Valid) (fd : Int) (found : Option (Fin fifoNum)) : Valid (kfifoTake t fd found) := by
  cases found with
  | none => exact ht
  | some i => exact ht.update i (valid_reset (ht i) fd)

theorem valid_give (ht : t.Valid) (idx : Option (Fin fifoNum)) : Valid (kfifoGive t idx) := by
  cases idx with
  | none => exact ht
  | some i =>
      obtain ⟨hle, hin, hsize, hsteps, hblock, hempty⟩ := ht i
      exact ht.update i ⟨hle, hin, hsize, hsteps, hblock, hempty⟩

theorem valid_clear (ht : t.Valid) (idx : Option (Fin fifoNum)) : Valid (kfifoClear t idx) := by
  cases idx with
  | none => exact ht
  | some i => exact ht.update i (valid_reset (ht i) (t i).fd)

/-- A slot that is given up is free before it is cleared. -/
theorem sameFds_give (t : KfifoTable) (idx : Option (Fin fifoNum)) : SameFds (t.kfifoFree idx) (kfifoGive t idx) := by
  intro j
  cases idx with
  | none => rfl
  | some i =>
      rw [kfifoGive, kfifoFree]
      rcases eq_or_ne j i with rfl | hj
      · rw [Function.update_self, Function.update_self]
      · rw [Function.update_of_ne hj, Function.update_of_ne hj]

theorem sameFds_clear (t : KfifoTable) (idx : Option (Fin fifoNum)) : SameFds t (kfifoClear t idx) := by
  intro j
  cases idx with
  | none => rfl
  | some i =>
      rw [kfifoClear]
      rcases eq_or_ne j i with rfl | hj
      · rw [Function.update_self]
      · rw [Function.update_of_ne hj]

/-- What is done to the slots that are free is done to no descriptor. -/
theorem apart_take (hfd : fd ≠ -1) {other : Int} (hne : other ≠ fd) {found : Option (Fin fifoNum)}
    (hfree : ∀ i, found = some i → (t i).fd = -1) : Apart fd t (kfifoTake t other found) := by
  cases found with
  | none => exact Apart.refl fd t
  | some i => exact apart_update t (hfree i rfl ▸ hfd.symm) hne

theorem apart_clear (hfd : fd ≠ -1) (hfree : ∀ i, idx = some i → (t i).fd = -1) :
    Apart fd t (kfifoClear t idx) := by
  cases idx with
  | none => exact Apart.refl fd t
  | some i => exact apart_update t (hfree i rfl ▸ hfd.symm) (hfree i rfl ▸ hfd.symm)

theorem apart_give (hne : ∀ i, idx = some i → (t i).fd ≠ fd) (hfd : fd ≠ -1) : Apart fd t (kfifoGive t idx) := by
  cases idx with
  | none => exact Apart.refl fd t
  | some i => exact apart_update t (hne i rfl) hfd.symm

end Slots

end QLog.Capture
