import QLog.Unisoc.BlueScreen
import QLog.Unisoc.RecvCmdDeal

/-! # A region of the EC800G

`unisoc_ec800g_catch_blue_screen` reads a region in blocks of 1024 bytes, and what is left at the end as one more. The
address moves on by the size that has been asked for, while the file gets what the answer brings: where an answer is
shorter, the file lacks the rest of its block. -/

namespace QLog.Ec800g

open Library BlueScreen

/-! ## Requests -/

/-- What is asked for. -/
inductive Command
  /-- Type 0: a blue screen dump status query. -/
  | query (addr : Nat)
  /-- Type 1. -/
  | readBlock (addr size : Nat)
  /-- Type 2. -/
  | read32 (addr : Nat)
deriving DecidableEq

/-- The bytes of a command between its delimiters. -/
def commandBody (rid : Nat) : Command → List UInt8
  | .query addr =>
      leBytes 4 rid ++ [0x18, 0x00, 0x0b, 0x00, 0x03, 0xa0, 0x10, 0x00, 0x00, 0x00, 0x00, 0x00] ++ leBytes 4 addr ++
        [0x01, 0x00, 0x00, 0x00]
  | .readBlock addr size =>
      leBytes 4 rid ++ [0x18, 0x00, 0x0b, 0x00, 0x03, 0xa0, 0x10, 0x00, 0x00, 0x00, 0x00, 0x00] ++ leBytes 4 addr ++
        leBytes 4 size
  | .read32 addr =>
      leBytes 4 rid ++ [0x18, 0x00, 0x0b, 0x00, 0x03, 0xa0, 0x10, 0x00, 0x20, 0x00, 0x00, 0x00] ++ leBytes 4 addr ++
        [0x01, 0x00, 0x00, 0x00]

/-- A byte as it is sent. -/
def escapeByte (b : UInt8) : List UInt8 :=
  if b = 0x7e then [0x7d, 0x5e] else if b = 0x7d then [0x7d, 0x5d] else [b]

/-- What `unisoc_ec800g_send_cmd_complete` sends. -/
def sendCmdComplete (rid : Nat) (command : Command) : List UInt8 :=
  0x7e :: ((commandBody rid command).flatMap escapeByte ++ [0x7e])

theorem unescape_escapeByte (behind : UInt8) (body : List UInt8) :
    (unescape behind (body.flatMap escapeByte ++ [0x7e])).1 = body ++ [0x7e] := by
  induction body with
  | nil => rfl
  | cons b body ih =>
      obtain ⟨c, rest, hrest⟩ := List.exists_cons_of_ne_nil
        (List.append_ne_nil_of_right_ne_nil (body.flatMap escapeByte) (List.cons_ne_nil (0x7e : UInt8) []))
      rw [List.flatMap_cons, List.append_assoc, escapeByte]
      split
      · next hb => rw [hb]; simpa [unescape, escaped] using ih
      · split
        · next hb => rw [hb]; simpa [unescape, escaped] using ih
        · next hb =>
            rw [hrest] at ih ⊢
            simpa [unescape, hb] using ih

/-- The bytes that are sent are unescaped to those of the command, as those of an answer are. -/
theorem unescape_sendCmdComplete (behind : UInt8) (rid : Nat) (command : Command) :
    (unescape behind (sendCmdComplete rid command)).1 = 0x7e :: (commandBody rid command ++ [0x7e]) := by
  obtain ⟨c, rest, hrest⟩ := List.exists_cons_of_ne_nil (List.append_ne_nil_of_right_ne_nil
    ((commandBody rid command).flatMap escapeByte) (List.cons_ne_nil (0x7e : UInt8) []))
  have hbody := unescape_escapeByte behind (commandBody rid command)
  rw [sendCmdComplete]
  rw [hrest] at hbody ⊢
  simpa [unescape] using hbody

/-! ## The loop over a region -/

/-- `rid_ec800g`, the buffers, `rsize` and `rvalue`. -/
structure Channel where
  rid : Nat
  pbuf : List UInt8
  pbufTmp : List UInt8
  rsize : Nat
  rvalue : Nat

/-- The id of the next request. -/
def Channel.nextRid (ch : Channel) : Nat := (ch.rid + 1) % 2 ^ 32

/-- The channel behind an answer to the next request. -/
def Channel.answered (ch : Channel) (r : RecvResult) : Channel where
  rid := ch.nextRid
  pbuf := r.pbuf
  pbufTmp := r.vars.pbufTmp
  rsize := r.vars.psize
  rvalue := r.vars.pvalue

/-- The answer to the next request. -/
def Channel.recv (ch : Channel) (type : AnswerType) (inputs : List RecvInput) : Option RecvResult :=
  recvCmdDeal ch.nextRid type ch.pbuf ch.pbufTmp ch.rsize ch.rvalue inputs

/-- What the loop meets for a block. -/
structure BlockInput where
  /-- `qlog_exit_requested`, before the request. -/
  exit : Bool
  /-- All bytes of the request have been written. -/
  sent : Bool
  answer : List RecvInput
  /-- `qlog_logfile_save` has saved all bytes. -/
  saved : Bool

/-- `base_tmp` and `size_tmp` in front of a block. -/
structure RegionRead where
  ch : Channel
  baseTmp : Nat
  sizeTmp : Nat

inductive RegionState
  | reading (d : RegionRead)
  /-- In `unisoc_ec800g_recv_cmd_deal`, for ever. -/
  | waiting
  | finished (ch : Channel)
  | failed

inductive RegionEvent
  | sent (bytes : List UInt8)
  /-- `qlog_logfile_save` to the dump file. -/
  | save (data : List UInt8)

/-- The size of the next block. -/
def RegionRead.blockSize (d : RegionRead) : Nat := if 1024 < d.sizeTmp then 0x0400 else d.sizeTmp

/-- The bytes of an answer that are saved. -/
def RecvResult.data (r : RecvResult) : List UInt8 := window r.pbuf 25 (25 + r.vars.psize)

/-- The loop behind a block: the region goes on, or has been read. -/
def RegionRead.next (d : RegionRead) (ch : Channel) : RegionState :=
  if 1024 < d.sizeTmp then .reading ⟨ch, (d.baseTmp + 1024) % 2 ^ 32, d.sizeTmp - 1024⟩ else .finished ch

/-- A block of a region. -/
def regionStep : RegionState → BlockInput → RegionState × List RegionEvent
  | .reading d, inp =>
      -- the last block is asked for without a look at `qlog_exit_requested`
      if inp.exit = true ∧ 1024 < d.sizeTmp then (.failed, [])
      else
        let request := RegionEvent.sent (sendCmdComplete d.ch.nextRid (.readBlock d.baseTmp d.blockSize))
        if inp.sent = false then (.failed, [request])
        else
          match d.ch.recv .readBlock inp.answer with
          | none => (.waiting, [request])
          | some r =>
              (if inp.saved then d.next (d.ch.answered r) else .failed, [request, .save r.data])
  | s, _ => (s, [])

/-- The state in front of the loop. -/
def regionStart (ch : Channel) (base size : Nat) : RegionState :=
  if 0 < size then .reading ⟨ch, base, size⟩ else .finished ch

/-- The bytes of the file. -/
def regionFile (events : List RegionEvent) : List UInt8 :=
  events.flatMap fun
    | .sent _ => []
    | .save data => data

/-- The region has been read. -/
def RegionState.Finished : RegionState → Prop
  | .finished _ => True
  | _ => False

instance : ∀ s : RegionState, Decidable s.Finished
  | .finished _ => isTrue trivial
  | .reading _ => isFalse not_false
  | .waiting => isFalse not_false
  | .failed => isFalse not_false

/-- An answer is accepted that carries the memory from the address asked for on, and no more than has been asked
for; and it is saved. -/
def MemoryAnswer (mem : Nat → UInt8) : RegionState → BlockInput → Prop
  | .reading d, inp =>
      inp.exit = false ∧ inp.sent = true ∧ inp.saved = true ∧
        ∃ r ∈ d.ch.recv .readBlock inp.answer, r.accepted = true ∧ r.vars.psize ≤ d.blockSize ∧
          r.data = memoryRange (memory32 mem) d.baseTmp r.vars.psize
  | _, _ => True

/-- An answer carries all that has been asked for. -/
def FullAnswer : RegionState → BlockInput → Prop
  | .reading d, inp => ∀ r ∈ d.ch.recv .readBlock inp.answer, r.vars.psize = d.blockSize
  | _, _ => True

instance (mem : Nat → UInt8) : ∀ (s : RegionState) (inp : BlockInput), Decidable (MemoryAnswer mem s inp)
  | .reading _, _ => inferInstanceAs (Decidable (_ ∧ _))
  | .waiting, _ => isTrue trivial
  | .finished _, _ => isTrue trivial
  | .failed, _ => isTrue trivial

section Region

variable {mem : Nat → UInt8} {d : RegionRead} {ch : Channel} {inp : BlockInput} {inputs : List BlockInput}

/-- Behind the end of a region nothing is saved. -/
theorem runSteps_finished (ch : Channel) (inputs : List BlockInput) :
    runSteps regionStep (.finished ch) inputs = (.finished ch, []) := by
  induction inputs with
  | nil => rfl
  | cons inp inputs ih =>
      rw [runSteps_cons]
      exact congrArg (prepend []) ih

theorem along_finished {cond : RegionState → BlockInput → Prop} (ch : Channel)
    (hcond : ∀ inp, cond (.finished ch) inp) (inputs : List BlockInput) :
    Along regionStep cond (.finished ch) inputs := by
  induction inputs with
  | nil => trivial
  | cons inp inputs ih => exact ⟨hcond inp, ih⟩

/-- A block that is answered and saved. -/
theorem regionStep_answer (h : MemoryAnswer mem (.reading d) inp) :
    ∃ r, d.ch.recv .readBlock inp.answer = some r ∧ r.vars.psize ≤ d.blockSize ∧
      r.data = memoryRange (memory32 mem) d.baseTmp r.vars.psize ∧
      (regionStep (.reading d) inp).1 = d.next (d.ch.answered r) ∧
      regionFile (regionStep (.reading d) inp).2 = r.data := by
  obtain ⟨hexit, hsent, hsaved, r, hr, -, hle, hdata⟩ := h
  refine ⟨r, hr, hle, hdata, ?_⟩
  have hr' : d.ch.recv .readBlock inp.answer = some r := hr
  simp [regionStep, hexit, hsent, hsaved, hr', regionFile]

theorem regionFile_append (events events' : List RegionEvent) :
    regionFile (events ++ events') = regionFile events ++ regionFile events' := List.flatMap_append

/-- The file is as long as the region at most, and as long only if all answers are full; then it is the region. -/
theorem regionFile_spec (hpos : 0 < d.sizeTmp) (hanswers : Along regionStep (MemoryAnswer mem) (.reading d) inputs)
    (hfinished : (runSteps regionStep (.reading d) inputs).1.Finished) :
    (regionFile (runSteps regionStep (.reading d) inputs).2).length ≤ d.sizeTmp ∧
      ((regionFile (runSteps regionStep (.reading d) inputs).2).length = d.sizeTmp ↔
        Along regionStep FullAnswer (.reading d) inputs) ∧
      (Along regionStep FullAnswer (.reading d) inputs →
        regionFile (runSteps regionStep (.reading d) inputs).2 =
          memoryRange (memory32 mem) d.baseTmp d.sizeTmp) := by
  induction inputs generalizing d with
  | nil => exact hfinished.elim
  | cons inp inputs ih =>
      obtain ⟨r, hr, hle, hdata, hnext, hfile⟩ := regionStep_answer hanswers.1
      have hlength : r.data.length = r.vars.psize := by rw [hdata, length_memoryRange]
      have hfull : FullAnswer (.reading d) inp ↔ r.vars.psize = d.blockSize := by
        rw [FullAnswer, hr]
        simp
      have hrest := hanswers.2
      rw [runSteps_cons, prepend_fst, hnext] at hfinished
      rw [hnext] at hrest
      rw [runSteps_cons, prepend_snd, regionFile_append, hfile, List.length_append, hlength, Along, hfull, hnext]
      rw [RegionRead.blockSize] at hle ⊢
      by_cases hlarge : 1024 < d.sizeTmp
      · rw [RegionRead.next, if_pos hlarge] at hfinished hrest ⊢
        rw [if_pos hlarge] at hle ⊢
        obtain ⟨hle', hiff, hmem⟩ := ih (d := ⟨d.ch.answered r, (d.baseTmp + 1024) % 2 ^ 32, d.sizeTmp - 1024⟩)
          (Nat.sub_pos_of_lt hlarge) hrest hfinished
        dsimp only at hle' hiff hmem
        refine ⟨by omega, ?_, ?_⟩
        · rw [← hiff]
          omega
        · rintro ⟨hsize, hall⟩
          have htotal : 1024 + (d.sizeTmp - 1024) = d.sizeTmp := Nat.add_sub_cancel' hlarge.le
          rw [hmem hall, hdata, hsize, memory32_mod, memoryRange_append, htotal]
      · rw [RegionRead.next, if_neg hlarge] at hfinished hrest ⊢
        rw [if_neg hlarge] at hle ⊢
        rw [runSteps_finished]
        have hall : Along regionStep FullAnswer (.finished (d.ch.answered r)) inputs :=
          along_finished (d.ch.answered r) (fun _ => trivial) inputs
        refine ⟨hle, ?_, ?_⟩
        · simp [hall, regionFile]
        · rintro ⟨hsize, -⟩
          rw [hdata, hsize]
          exact List.append_nil _

end Region

/-- **When the file of a region is the region**: exactly if every answer carries all that has been asked for. -/
theorem regionFile_eq_iff {mem : Nat → UInt8} {ch : Channel} {base size : Nat} {inputs : List BlockInput}
    (hanswers : Along regionStep (MemoryAnswer mem) (regionStart ch base size) inputs)
    (hfinished : (runSteps regionStep (regionStart ch base size) inputs).1.Finished) :
    regionFile (runSteps regionStep (regionStart ch base size) inputs).2 = memoryRange (memory32 mem) base size ↔
      Along regionStep FullAnswer (regionStart ch base size) inputs := by
  rw [regionStart] at hanswers hfinished ⊢
  by_cases hpos : 0 < size
  · rw [if_pos hpos] at hanswers hfinished ⊢
    obtain ⟨-, hiff, hmem⟩ := regionFile_spec hpos hanswers hfinished
    refine ⟨fun hfile => hiff.mp ?_, hmem⟩
    rw [hfile, length_memoryRange]
  · rw [if_neg hpos]
    obtain rfl : size = 0 := Nat.eq_zero_of_not_pos hpos
    rw [runSteps_finished]
    exact iff_of_true rfl (along_finished ch (fun _ => trivial) inputs)

/-- An answer with four bytes, which need no escapes. -/
def fourBytes (rid : Nat) (a b c d : UInt8) : RecvInput where
  read := .bytes ([0x7e, UInt8.ofNat rid, 0x00, 0x00, 0xab, 0x19, 0x00, 0x0b, 0x00, 0x03, 0xa0, 0x14, 0x00, 0x00, 0x00,
    0x00, 0x00, 0x00, 0x00, 0x00, 0x00, 0x00, 0x00, 0x00, 0x00] ++ [a, b, c, d, 0x7e])
    (by rw [List.length_append]; exact Nat.le_of_ble_eq_true rfl)
  stack := fun _ => 0
  exit := false

/-- `rid_ec800g` as the process begins, and buffers with zeros. -/
def channelStart : Channel := ⟨0xab000000, List.replicate qlogBufSize 0, List.replicate (2 * qlogBufSize) 0, 0, 0⟩

/-- A block of four bytes. -/
def fourByteBlock (rid : Nat) (a b c d : UInt8) : BlockInput := ⟨false, true, [fourBytes rid a b c d], true⟩

/-- An answer with 1024 bytes that are all the same, and need no escapes. -/
def wholeBlock (rid : Nat) (b : UInt8) : RecvInput where
  read := .bytes ([0x7e, UInt8.ofNat rid, 0x00, 0x00, 0xab, 0x19, 0x00, 0x0b, 0x00, 0x03, 0xa0, 0x10, 0x04, 0x00, 0x00,
    0x00, 0x00, 0x00, 0x00, 0x00, 0x00, 0x00, 0x00, 0x00, 0x00] ++ (List.replicate 1024 b ++ [0x7e]))
    (by
      rw [List.length_append, List.length_append, List.length_replicate]
      show 25 + (1024 + 1) ≤ 65536
      omega)
  stack := fun _ => 0
  exit := false

/-- Memory that is the same for 1024 bytes from the address 16 on. -/
def twoValues (a : Nat) : UInt8 := if a < 0x410 then 0x11 else 0x22

/-- A region of a block and four bytes, whose answers are full: the file is the region. -/
theorem regionFile_eq_iff_twoBlocks :
    (regionFile (runSteps regionStep (regionStart channelStart 0x10 1028)
        [⟨false, true, [wholeBlock 1 0x11], true⟩, fourByteBlock 2 0x22 0x22 0x22 0x22]).2 =
          memoryRange (memory32 twoValues) 0x10 1028 ↔
        Along regionStep FullAnswer (regionStart channelStart 0x10 1028)
          [⟨false, true, [wholeBlock 1 0x11], true⟩, fourByteBlock 2 0x22 0x22 0x22 0x22]) ∧
      (regionFile (runSteps regionStep (regionStart channelStart 0x10 1028)
        [⟨false, true, [wholeBlock 1 0x11], true⟩, fourByteBlock 2 0x22 0x22 0x22 0x22]).2).length = 1028 :=
  ⟨regionFile_eq_iff (by decide +kernel) (by decide +kernel), by decide +kernel⟩

/-- Four bytes are the answer to a request for 1024; the file goes on with those at the next 1024. -/
theorem not_regionFile_eq :
    ¬ ∀ (mem : Nat → UInt8) (ch : Channel) (base size : Nat) (inputs : List BlockInput),
      Along regionStep (MemoryAnswer mem) (regionStart ch base size) inputs →
      (runSteps regionStep (regionStart ch base size) inputs).1.Finished →
        regionFile (runSteps regionStep (regionStart ch base size) inputs).2 =
          memoryRange (memory32 mem) base size := by
  intro h
  have hfile := h UInt8.ofNat channelStart 0x10 1028
    [fourByteBlock 1 0x10 0x11 0x12 0x13, fourByteBlock 2 0x10 0x11 0x12 0x13] (by decide) trivial
  have hlength := congrArg List.length hfile
  rw [length_memoryRange] at hlength
  revert hlength
  decide

end QLog.Ec800g
