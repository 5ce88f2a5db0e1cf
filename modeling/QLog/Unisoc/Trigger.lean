import QLog.Library.Pattern
import QLog.Library.Transducer

/-! # The trigger of the blue-screen dump

The capture loop reads into one buffer again and again, and before it saves what has come it looks at the front of the
buffer: does the chip announce a blue screen there? The test does not ask how many bytes have come. The announcement
has 27 bytes for the EC800G and six for the EXX00U, so a shorter read is tested together with what earlier reads have
left behind it. The test for the EC200D, which first asks for ten bytes, shows what is missing. -/

namespace QLog.Trigger

open Library Library.Pattern

/-- `QLOG_BUF_SIZE` -/
def qlogBufSize : Nat := 64 * 1024

/-- The chips with a blue-screen dump: `g_is_unisoc_chip == 4` and `g_is_unisoc_exx00u_chip == 1`. -/
inductive BlueScreenChip
  | ec800g
  | exx00u
deriving DecidableEq

/-- What `unisoc_ec800g_catch_blue_screen` compares; the four bytes behind the first are not looked at. -/
def ec800gPattern : Pattern UInt8 :=
  [some 0x7e, none, none, none, none, some 0x19, some 0x00, some 0x0b, some 0x00, some 0x03, some 0xa0, some 0x11,
    some 0x00, some 0x00, some 0x00, some 0x00, some 0x00, some 0x00, some 0x00, some 0x00,
    some 0x00, some 0x01, some 0x00, some 0x00, some 0x00, some 0x01, some 0x7e]

/-- What the capture loop compares before it calls `unisoc_exx00u_catch_blue_screen`. -/
def captureLoopPattern : Pattern UInt8 := [some 0xad, some 0x00, some 0x03, some 0xff, none, some 0x01]

/-- What `unisoc_exx00u_catch_blue_screen` compares. -/
def exx00uPattern (rid : UInt8) : Pattern UInt8 := [some 0xad, some 0x00, some 0x03, some 0xff, some rid, some 0x01]

/-- The decision of the capture loop: the call of the chip's function comes past its test. -/
def entersBlueScreen (rid : UInt8) (rbuf : List UInt8) : BlueScreenChip → Bool
  | .ec800g => decide (Matches ec800gPattern rbuf)
  | .exx00u => decide (Matches captureLoopPattern rbuf) && decide (Matches (exx00uPattern rid) rbuf)

/-- A read, and the request id when it is tested. -/
structure CaptureRead where
  rid : UInt8
  bytes : List UInt8

/-- `qlog_poll_read_fds` has returned a number that is not an error. -/
def ReadOk (bytes : List UInt8) : Prop := 0 < bytes.length ∧ bytes.length ≤ qlogBufSize

instance (bytes : List UInt8) : Decidable (ReadOk bytes) := inferInstanceAs (Decidable (_ ∧ _))

/-- A round of the capture loop: the read goes to the front of `rbuf`, which is then tested. -/
def captureStep (chip : BlueScreenChip) (rbuf : List UInt8) (read : CaptureRead) : List UInt8 × List Bool :=
  (overwrite rbuf 0 read.bytes, [entersBlueScreen read.rid (overwrite rbuf 0 read.bytes) chip])

/-- The reads of the time before: none of them has ended the loop. -/
def Quiet (chip : BlueScreenChip) (rbuf : List UInt8) (reads : List CaptureRead) : Prop :=
  (∀ read ∈ reads, ReadOk read.bytes) ∧ ∀ entered ∈ (runSteps (captureStep chip) rbuf reads).2, entered = false

instance (chip : BlueScreenChip) (rbuf : List UInt8) (reads : List CaptureRead) : Decidable (Quiet chip rbuf reads) :=
  inferInstanceAs (Decidable (_ ∧ _))

/-- The decision about a read after others. -/
def decision (chip : BlueScreenChip) (rbuf : List UInt8) (before : List CaptureRead) (read : CaptureRead) : Bool :=
  entersBlueScreen read.rid (overwrite (runSteps (captureStep chip) rbuf before).1 0 read.bytes) chip

/-- In two runs, from buffers with any content, the decision about a read is the same whatever reads were before. -/
def DecidesAlike (chip : BlueScreenChip) (rbuf rbuf' : List UInt8) (read : CaptureRead) : Prop :=
  ∀ before before', Quiet chip rbuf before → Quiet chip rbuf' before' →
    decision chip rbuf before read = decision chip rbuf' before' read

/-! ## The pattern of a chip -/

/-- All that is compared. -/
def BlueScreenChip.pattern (rid : UInt8) : BlueScreenChip → Pattern UInt8
  | .ec800g => ec800gPattern
  | .exx00u => exx00uPattern rid

section Decision

variable {chip : BlueScreenChip} {rid : UInt8}

/-- The capture loop compares nothing that the function does not compare. -/
theorem captureLoopPattern_of_exx00uPattern {rbuf : List UInt8} (h : Matches (exx00uPattern rid) rbuf) :
    Matches captureLoopPattern rbuf := by
  rcases rbuf with _ | ⟨b0, _ | ⟨b1, _ | ⟨b2, _ | ⟨b3, _ | ⟨b4, _ | ⟨b5, rbuf⟩⟩⟩⟩⟩⟩
  iterate 6 exact absurd h (by simp [exx00uPattern, Matches])
  obtain ⟨h0, h1, h2, h3, -, h5, -⟩ := h
  exact ⟨h0, h1, h2, h3, fun a ha => by simp at ha, h5, trivial⟩

theorem entersBlueScreen_iff (rbuf : List UInt8) :
    entersBlueScreen rid rbuf chip = true ↔ Matches (chip.pattern rid) rbuf := by
  cases chip with
  | ec800g => exact decide_eq_true_iff
  | exx00u =>
      rw [entersBlueScreen, Bool.and_eq_true, decide_eq_true_iff, decide_eq_true_iff]
      exact and_iff_right_of_imp captureLoopPattern_of_exx00uPattern

theorem decision_iff {rbuf : List UInt8} {before : List CaptureRead} {read : CaptureRead} :
    decision chip rbuf before read = true ↔ Matches (chip.pattern read.rid)
      (read.bytes ++ (runSteps (captureStep chip) rbuf before).1.drop read.bytes.length) := by
  rw [decision, entersBlueScreen_iff, overwrite_zero]

/-- A pattern begins with a byte that is not zero, so that zeros are no announcement ... -/
theorem exists_pattern_eq_cons (chip : BlueScreenChip) (rid : UInt8) :
    ∃ a p, chip.pattern rid = some a :: p ∧ a ≠ 0 := by
  cases chip with
  | ec800g => exact ⟨0x7e, _, rfl, by decide⟩
  | exx00u => exact ⟨0xad, _, rfl, by decide⟩

/-- ... and it ends with one. -/
theorem exists_pattern_eq_concat (chip : BlueScreenChip) (rid : UInt8) :
    ∃ p b, chip.pattern rid = p ++ [some b] ∧ b ≠ 0 := by
  cases chip with
  | ec800g => exact ⟨ec800gPattern.dropLast, 0x7e, rfl, by decide⟩
  | exx00u => exact ⟨(exx00uPattern rid).dropLast, 0x01, rfl, by decide⟩

theorem length_pattern (chip : BlueScreenChip) (rid : UInt8) :
    (chip.pattern rid).length = 27 ∨ (chip.pattern rid).length = 6 := by
  cases chip with
  | ec800g => exact Or.inl rfl
  | exx00u => exact Or.inr rfl

/-- A read that begins with a zero is no announcement. -/
theorem quiet_singleton (rbuf rest : List UInt8) (h : (0 :: rest).length ≤ qlogBufSize) :
    Quiet chip rbuf [⟨rid, 0 :: rest⟩] := by
  obtain ⟨a, p, hp, ha⟩ := exists_pattern_eq_cons chip rid
  refine ⟨fun read hread => ?_, fun entered hentered => ?_⟩
  · rw [List.mem_singleton.mp hread]
    exact ⟨Nat.succ_pos _, h⟩
  · rw [runSteps_singleton] at hentered
    rw [List.mem_singleton.mp hentered, ← Bool.not_eq_true, entersBlueScreen_iff, overwrite_zero, hp]
    exact fun hm => ha.symm (hm.1 a rfl)

/-- The read is short and agrees with the pattern so far: an earlier read has left the rest. -/
theorem decision_after_rest {rbuf bytes : List UInt8} (hpos : 0 < bytes.length)
    (hfront : Matches ((chip.pattern rid).take bytes.length) bytes) :
    decision chip rbuf [⟨rid, 0 :: ((chip.pattern rid).fill 0).drop 1⟩] ⟨rid, bytes⟩ = true := by
  rw [decision_iff, runSteps_singleton, captureStep, overwrite_zero, matches_append]
  refine ⟨hfront, ?_⟩
  obtain ⟨n, hn⟩ := Nat.exists_eq_add_of_lt hpos
  have hlen : bytes.length ≤ (0 :: ((chip.pattern rid).fill 0).drop 1).length ∨
      (chip.pattern rid).length ≤ bytes.length := by
    rw [List.length_cons, List.length_drop, length_fill]
    omega
  rcases hlen with hshort | hlong
  · rw [List.drop_append_of_le_length hshort, hn, Nat.zero_add, List.drop_succ_cons, List.drop_drop,
      Nat.add_comm 1 n, drop_fill]
    exact matches_fill_append _ 0 _
  · rw [List.drop_of_length_le hlong]
    trivial

/-- An earlier read has left zeros behind the read. -/
theorem decision_after_zeros {rbuf bytes : List UInt8} (hshort : bytes.length < (chip.pattern rid).length) :
    decision chip rbuf [⟨rid, List.replicate (chip.pattern rid).length 0⟩] ⟨rid, bytes⟩ = false := by
  obtain ⟨p, b, hp, hb⟩ := exists_pattern_eq_concat chip rid
  rw [← Bool.not_eq_true, decision_iff, runSteps_singleton, captureStep, overwrite_zero, matches_append]
  rintro ⟨-, hrest⟩
  have hlast : some b ∈ (chip.pattern rid).drop bytes.length := by
    rw [hp, List.length_append, List.length_singleton] at hshort
    rw [hp, List.drop_append_of_le_length (by omega)]
    exact List.mem_append_right _ (List.mem_singleton_self _)
  have hzeros : bytes.length ≤ (List.replicate (chip.pattern rid).length (0 : UInt8)).length := by
    rw [List.length_replicate]
    exact hshort.le
  rw [List.drop_append_of_le_length hzeros, List.drop_replicate] at hrest
  exact not_matches_of_mem hlast hb.symm (by rw [List.length_drop]) _ hrest

end Decision

/-- **When the trigger depends only on the current read**: exactly if the read is as long as what is compared, or has a
byte that differs from it. -/
theorem decidesAlike_iff (chip : BlueScreenChip) (rbuf rbuf' : List UInt8) (rid : UInt8) (bytes : List UInt8)
    (hread : ReadOk bytes) :
    DecidesAlike chip rbuf rbuf' ⟨rid, bytes⟩ ↔
      (chip.pattern rid).length ≤ bytes.length ∨ ¬ Matches ((chip.pattern rid).take bytes.length) bytes := by
  constructor
  · intro halike
    by_contra hundecided
    rw [not_or, not_le, not_not] at hundecided
    obtain ⟨hshort, hfront⟩ := hundecided
    have hlen := length_pattern chip rid
    obtain ⟨n, hn⟩ := Nat.exists_eq_add_of_lt (Nat.zero_lt_of_lt hshort)
    have hrest : Quiet chip rbuf [⟨rid, 0 :: ((chip.pattern rid).fill 0).drop 1⟩] := by
      refine quiet_singleton rbuf _ ?_
      rw [List.length_cons, List.length_drop, length_fill, qlogBufSize]
      omega
    have hzeros : Quiet chip rbuf' [⟨rid, List.replicate (chip.pattern rid).length 0⟩] := by
      rw [hn, Nat.zero_add, List.replicate_succ]
      refine quiet_singleton rbuf' _ ?_
      rw [List.length_cons, List.length_replicate, qlogBufSize]
      omega
    have hsame := halike _ _ hrest hzeros
    rw [decision_after_rest hread.1 hfront, decision_after_zeros hshort] at hsame
    cases hsame
  · intro hdecided before before' _ _
    rw [Bool.eq_iff_iff, decision_iff, decision_iff]
    exact matches_congr_of_decided hdecided _ _

/-- A read of six bytes decides alone about an EXX00U. -/
theorem decidesAlike_iff_announcement :
    DecidesAlike .exx00u [] [] ⟨1, [0xad, 0x00, 0x03, 0xff, 0x01, 0x01]⟩ ↔
      6 ≤ 6 ∨ ¬ Matches (exx00uPattern 1) [0xad, 0x00, 0x03, 0xff, 0x01, 0x01] :=
  decidesAlike_iff .exx00u [] [] 1 [0xad, 0x00, 0x03, 0xff, 0x01, 0x01] (by decide)

/-- One byte `ad` is a blue screen or not, by what was read before. -/
theorem not_decidesAlike :
    ¬ ∀ (chip : BlueScreenChip) (rbuf : List UInt8) (read : CaptureRead), rbuf.length = qlogBufSize →
      ReadOk read.bytes → DecidesAlike chip rbuf rbuf read := by
  intro h
  have hsame := h .exx00u (List.replicate qlogBufSize 0) ⟨1, [0xad]⟩ (List.length_replicate ..) (by decide)
    [⟨1, [0x00, 0x00, 0x03, 0xff, 0x01, 0x01]⟩] [] (by decide +kernel) (by decide +kernel)
  exact absurd hsame (by decide +kernel)

end QLog.Trigger
