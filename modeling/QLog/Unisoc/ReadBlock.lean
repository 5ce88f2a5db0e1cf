import QLog.Unisoc.BlueScreen

/-! # The blocks of the blue-screen dump

`checkReadBlock` copies what an answer announces to a buffer of 2048 bytes, and compares the announced size with the
number of received bytes only: neither with the size that was asked for, nor with the two bytes that are taken off it.
An answer that announces between two bytes and two more than the block keeps the dump within its bounds; any other one
that passes the checks does not. -/

namespace QLog.BlueScreen

open Library

/-- `data_size`, as the answer announces it. -/
def announcedSize (buff : List UInt8) : Nat := (buff.getD 1 0).toNat * 256 + (buff.getD 2 0).toNat

/-- The answer passes the three checks of `checkReadBlock`. -/
def Accepted (rid : Nat) (buff : List UInt8) (rc : Nat) : Prop :=
  8 ≤ rc ∧ announcedSize buff + 4 ≤ rc ∧ (buff.getD 4 0).toNat = rid

instance (rid : Nat) (buff : List UInt8) (rc : Nat) : Decidable (Accepted rid buff rc) :=
  inferInstanceAs (Decidable (_ ∧ _))

/-- The size of `dump_save_buff`. -/
def dumpSaveBuffSize : Nat := 2048

/-- What the dump thread does with the bytes it has received: it takes no more of them than it has asked for, and copies
them inside of `dump_save_buff`. -/
def BlockFits (size : Nat) (s : RegionDump) : ThreadStep → Prop
  | .dump _ => ∀ rc answers, s.phase = .received rc answers →
      checkReadBlock s.link.rid s.pbuf rc ≤ blockSize size s ∧
        checkReadBlock s.link.rid s.pbuf rc ≤ dumpSaveBuffSize
  | _ => True

/-- An answer that passes the checks announces the id and the check sum, and no more data than the block. -/
def AnnouncesBlock (size : Nat) (s : RegionDump) : ThreadStep → Prop
  | .dump _ => ∀ rc answers, s.phase = .received rc answers → Accepted s.link.rid s.pbuf rc →
      2 ≤ announcedSize s.pbuf ∧ announcedSize s.pbuf ≤ blockSize size s + 2
  | _ => True

section Check

variable {rid rc : Nat} {buff : List UInt8}

theorem announcedSize_lt (buff : List UInt8) : announcedSize buff < 2 ^ 16 := by
  have hhigh := (buff.getD 1 0).toNat_lt
  have hlow := (buff.getD 2 0).toNat_lt
  rw [announcedSize]
  omega

theorem checkReadBlock_of_accepted (h : Accepted rid buff rc) :
    checkReadBlock rid buff rc = (announcedSize buff + 2 ^ 64 - 2) % 2 ^ 64 := by
  obtain ⟨hlong, hwhole, hid⟩ := h
  rw [announcedSize] at hwhole
  rw [checkReadBlock]
  rw [if_neg (Nat.not_lt.mpr hlong), if_neg (Nat.not_lt.mpr hwhole), if_neg (not_not.mpr hid), announcedSize]

theorem checkReadBlock_of_not_accepted (h : ¬ Accepted rid buff rc) : checkReadBlock rid buff rc = 0 := by
  rw [checkReadBlock]
  split
  · rfl
  · next hlong =>
      split
      · rfl
      · next hwhole =>
          split
          · rfl
          · next hid => exact absurd ⟨Nat.not_lt.mp hlong, Nat.not_lt.mp hwhole, not_not.mp hid⟩ h

/-- Taking two bytes off stays within a block exactly if the announced size is within these bounds. -/
theorem checkReadBlock_le_iff {r : Nat} (hr : r ≤ 2048) :
    checkReadBlock rid buff rc ≤ r ↔
      (Accepted rid buff rc → 2 ≤ announcedSize buff ∧ announcedSize buff ≤ r + 2) := by
  have hlt := announcedSize_lt buff
  by_cases h : Accepted rid buff rc
  · rw [checkReadBlock_of_accepted h]
    constructor
    · intro hle _
      omega
    · intro hbounds
      have hbounds := hbounds h
      omega
  · rw [checkReadBlock_of_not_accepted h]
    exact iff_of_true (Nat.zero_le r) (fun haccepted => absurd haccepted h)

/-- What is copied has been received. -/
theorem checkReadBlock_add_le (hle : checkReadBlock rid buff rc ≤ 2048)
    (hn : checkReadBlock rid buff rc ≠ 0) : 5 + checkReadBlock rid buff rc ≤ rc := by
  by_cases h : Accepted rid buff rc
  · rw [checkReadBlock_of_accepted h] at hle ⊢
    have hlt := announcedSize_lt buff
    have hwhole := h.2.1
    omega
  · exact absurd (checkReadBlock_of_not_accepted h) hn

end Check

/-- A step is within the bounds exactly if the answer announces a block. -/
theorem blockFits_iff (size : Nat) (s : RegionDump) (step : ThreadStep) :
    BlockFits size s step ↔ AnnouncesBlock size s step := by
  cases step with
  | query addr => exact Iff.rfl
  | receive msg => exact Iff.rfl
  | dump sent =>
      have hsmall := (blockSize_le size s).1
      refine forall_congr' fun rc => forall_congr' fun answers => imp_congr_right fun _ => ?_
      rw [← checkReadBlock_le_iff hsmall]
      exact and_iff_left_of_imp fun hle => hle.trans hsmall

/-! ## The length of the file -/

/-- As long as the blocks fit: as many bytes are saved as `saveSize` says, no more than the region has, and no answer is
longer than the buffer. -/
structure LengthInv (size : Nat) (s : RegionDump) (events : List BlueScreenEvent) : Prop where
  length : (savedBytes events).length = s.saveSize
  le : s.saveSize ≤ size
  received : ∀ rc answers, s.phase = .received rc answers → rc ≤ s.pbuf.length
  ended : s.phase = .ended → size ≤ s.saveSize

section Steps

variable {size : Nat} {s : RegionDump} {events : List BlueScreenEvent}

theorem LengthInv.query (h : LengthInv size s events) (addr : Nat) :
    LengthInv size (blueScreenStep size s (.query addr)).1
      (events ++ (blueScreenStep size s (.query addr)).2) := by
  refine ⟨?_, h.le, h.received, h.ended⟩
  rw [savedBytes_append, List.length_append, h.length]
  rfl

theorem LengthInv.receive (h : LengthInv size s events) (msg : Message) :
    LengthInv size (blueScreenStep size s (.receive msg)).1
      (events ++ (blueScreenStep size s (.receive msg)).2) := by
  have hidle : LengthInv size s (events ++ []) := by
    rwa [List.append_nil]
  rw [blueScreenStep, receiveStep]
  cases hphase : s.phase with
  | receiving =>
      dsimp only
      split
      · split
        · exact ⟨hidle.length, h.le, by simp, by simp⟩
        · refine ⟨hidle.length, h.le, fun rc answers hrec => ?_, fun hend => by cases hend⟩
          cases hrec
          rw [overwrite_zero, List.length_append]
          exact Nat.le_add_right _ _
      · refine ⟨?_, h.le, by simp, by simp⟩
        rw [savedBytes_append, List.length_append, h.length]
        rfl
  | head => exact hidle
  | received rc answers => exact hidle
  | ended => exact hidle
  | failed => exact hidle

theorem LengthInv.dump (h : LengthInv size s events) (hsize : size < 2 ^ 32) {sent : Bool}
    (hfits : BlockFits size s (.dump sent)) :
    LengthInv size (blueScreenStep size s (.dump sent)).1
      (events ++ (blueScreenStep size s (.dump sent)).2) := by
  have hidle : LengthInv size s (events ++ []) := by
    rwa [List.append_nil]
  rw [blueScreenStep, dumpStep]
  cases hphase : s.phase with
  | head =>
      dsimp only
      split
      · refine ⟨?_, h.le, fun rc answers hrec => ?_, fun hend => ?_⟩
        · rw [savedBytes_append, List.length_append, h.length]
          rfl
        · cases sent <;> cases hrec
        · cases sent <;> cases hend
      · next hover =>
          rw [List.append_nil]
          exact ⟨h.length, h.le, by simp, fun _ => Nat.not_lt.mp hover⟩
  | received rc answers =>
      dsimp only
      obtain ⟨hblock, hbuff⟩ := hfits rc answers hphase
      split
      · rw [List.append_nil]
        exact ⟨h.length, h.le, by simp, by simp⟩
      · next hn =>
          -- the block ends inside the region and inside the bytes that have come
          have hrest := (blockSize_le size s).2
          have hwindow := (checkReadBlock_add_le hbuff hn).trans (h.received rc answers hphase)
          have hbound := h.le
          have hsum : (s.saveSize + checkReadBlock s.link.rid s.pbuf rc) % 2 ^ 32 =
              s.saveSize + checkReadBlock s.link.rid s.pbuf rc := Nat.mod_eq_of_lt (by omega)
          refine ⟨?_, ?_, by simp, by simp⟩
          · rw [savedBytes_append, List.length_append, h.length, hsum]
            show _ + (window s.pbuf 5 _ ++ []).length = _
            rw [List.append_nil, length_window _ hwindow, Nat.add_sub_cancel_left]
          · show (s.saveSize + checkReadBlock s.link.rid s.pbuf rc) % 2 ^ 32 ≤ size
            omega
  | receiving => exact hidle
  | ended => exact hidle
  | failed => exact hidle

theorem LengthInv.step (hsize : size < 2 ^ 32) (s : RegionDump) (events : List BlueScreenEvent) (step : ThreadStep)
    (h : LengthInv size s events) (hfits : BlockFits size s step) :
    LengthInv size (blueScreenStep size s step).1 (events ++ (blueScreenStep size s step).2) := by
  cases step with
  | query addr => exact h.query addr
  | dump sent => exact h.dump hsize hfits
  | receive msg => exact h.receive msg

end Steps

/-- A run over a region stays within its bounds: every block fits, and when the loop has ended the file is as long as
the region. -/
def StaysInBounds (before : List Request) (pbuf : List UInt8) (base size : Nat) (steps : List ThreadStep) : Prop :=
  Along (blueScreenStep size) (BlockFits size) (blueScreenStart before pbuf base) steps ∧
    ((blueScreenRun before pbuf base size steps).1.phase = .ended →
      (savedBytes (blueScreenRun before pbuf base size steps).2).length = size)

/-- **When a dump stays within its bounds**: in every interleaving with the status queries and for every sequence of
received messages, exactly if each answer that passes the checks announces two bytes more than some of the block. -/
theorem staysInBounds_iff (before : List Request) (pbuf : List UInt8) (base size : Nat) (steps : List ThreadStep)
    (hsize : size < 2 ^ 32) :
    StaysInBounds before pbuf base size steps ↔
      Along (blueScreenStep size) (AnnouncesBlock size) (blueScreenStart before pbuf base) steps := by
  constructor
  · rintro ⟨hfits, -⟩
    exact along_mono _ (fun s step => (blockFits_iff size s step).mp) _ _ hfits
  · intro hannounces
    have hfits := along_mono (blueScreenStep size) (fun s step => (blockFits_iff size s step).mpr)
      (blueScreenStart before pbuf base) steps hannounces
    refine ⟨hfits, fun hended => ?_⟩
    have hstart : LengthInv size (blueScreenStart before pbuf base) [] := by
      refine ⟨rfl, Nat.zero_le size, fun rc answers hrec => ?_, fun hend => ?_⟩
      · cases hrec
      · cases hend
    have hrun := runSteps_history_along (LengthInv.step hsize) steps hstart hfits
    exact hrun.length.trans (Nat.le_antisymm hrun.le (hrun.ended hended))

/-- A region of two bytes, which come in one answer. -/
theorem staysInBounds_iff_two :
    StaysInBounds [] [] 0 2 [.dump true, .receive (.answer 0 [1, 2] 0), .dump true, .dump true] ↔
      Along (blueScreenStep 2) (AnnouncesBlock 2) (blueScreenStart [] [] 0)
        [.dump true, .receive (.answer 0 [1, 2] 0), .dump true, .dump true] :=
  staysInBounds_iff [] [] 0 2 _ (by decide)

/-- Eight bytes that echo the id and announce nothing: `data_size - 2` wraps around. -/
theorem not_staysInBounds :
    ¬ ∀ (before : List Request) (pbuf : List UInt8) (base size : Nat) (steps : List ThreadStep), size < 2 ^ 32 →
      StaysInBounds before pbuf base size steps := by
  intro h
  have hfits := (h [] [] 0 2 [.dump true, .receive (.apLog [0xad, 0, 0, 0xfe, 1, 0, 0, 0]), .dump true]
    (by decide)).1
  have hblock := hfits.2.2.1 8 none rfl
  exact absurd hblock.1 (by decide)

end QLog.BlueScreen
