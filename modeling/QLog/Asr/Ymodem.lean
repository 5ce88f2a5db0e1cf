import QLog.Library.ByteBuffer
import QLog.Library.CNumber
import QLog.Library.CString
import QLog.Library.Transducer

/-! # The dump of ASR modems

`asr_catch_dump` receives the files of a dump by YMODEM, as far as it needs it: nothing is checked but the lengths of
the frames. It waits for the header of a file, which has its name and its size, and asks again after a timeout, up to
five times; then it receives blocks until the end of the file is announced. A header without a name ends the dump.

All frames are received into one static buffer. After five timeouts the function goes on with what is in it. -/

namespace QLog.Ymodem

open Library

/-- `SOH`, the tag of a header and of a block of 128 bytes. -/
def soh : UInt8 := 0x01

/-- `STX`, the tag of a block of 1024 bytes. -/
def stx : UInt8 := 0x02

/-- `EOT` -/
def eot : UInt8 := 0x04

/-- `ACK` -/
def ack : UInt8 := 0x06

/-- `CNC` -/
def cnc : UInt8 := 0x43

/-- `sizeof(struct FrameHdr)` -/
def frameSize : Nat := 1029

/-- `ETIMEDOUT` -/
def etimedout : Nat := 110

/-- What `qlog_poll_read` brings: some bytes or none, and `errno` behind it. -/
structure RxResult where
  chunk : List UInt8
  le : chunk.length ≤ frameSize
  errno : Nat

/-- `errno ? -errno : -1` -/
def errorRet (errno : Nat) : Int := if errno ≠ 0 then -(errno : Int) else -1

/-- `ymodem_tx_data`: nothing, or `errno` behind a write that has failed. -/
def txRet : Option Nat → Int
  | none => 0
  | some errno => errorRet errno

/-- `tag`, of what is in the buffer. -/
def tagOf (buff : List UInt8) : UInt8 := buff.getD 0 0

/-- `idx` -/
def idxOf (buff : List UInt8) : UInt8 := buff.getD 1 0

/-- `data`, and what is behind it. -/
def dataOf (buff : List UInt8) : List UInt8 := buff.drop 3

/-- The length that `ymodem_rx_data` asks of a frame. -/
def LengthOk (tag : UInt8) (rc : Nat) : Prop :=
  (tag = soh → rc = 128 + 5) ∧ (tag = stx → rc = 1024 + 5) ∧ (tag = eot → rc = 1)

instance (tag : UInt8) (rc : Nat) : Decidable (LengthOk tag rc) := inferInstanceAs (Decidable (_ ∧ _ ∧ _))

/-- `ymodem_rx_data`, behind the read into the buffer. -/
def rxRet (buff : List UInt8) (rx : RxResult) : Int :=
  if rx.chunk ≠ [] ∧ LengthOk (tagOf buff) rx.chunk.length then 0 else errorRet rx.errno

/-- Where `asr_catch_dump` is. -/
inductive AsrPc
  /-- Before the first `CNC`. -/
  | start
  /-- Before the condition of the outer loop. -/
  | top
  /-- Before the condition of the loop that waits for a header. -/
  | waiting (retry : Nat)
  /-- Behind this loop, with the frame that has ended it. -/
  | header (received : Option (List UInt8))
  /-- Before the condition of the loop that receives blocks. -/
  | block
  | returned (ret : Int)

/-- The variables, static ones among them. -/
structure AsrDump where
  ymodemBuff : List UInt8
  ret : Int
  totalRecvsz : Nat
  currentRecvsz : Nat
  currentFilesz : Nat
  currentFd : Int
  currentFilename : List UInt8
  pc : AsrPc

/-- What a step meets. -/
structure AsrInput where
  /-- `qlog_exit_requested` -/
  exit : Bool
  rx : RxResult
  /-- The second read, after a timeout in the loop that receives blocks. -/
  rxAgain : RxResult
  /-- The write whose result is looked at. -/
  tx : Option Nat
  /-- What `qlog_logfile_create_fullname` returns. -/
  fd : Int

inductive AsrEvent
  | tx (data : UInt8)
  /-- `qlog_logfile_create_fullname`, with the name in the directory of the dump. -/
  | create (name : List UInt8)
  /-- `qlog_logfile_save` to the file. -/
  | save (data : List UInt8)
  | close

/-- What `parser_hdr` stores of a header. -/
def AsrDump.parserHdr (s : AsrDump) : AsrDump :=
  let name := cString ((dataOf s.ymodemBuff).take 127)
  { s with
    currentFilename := name
    currentFilesz := strtoul ((dataOf s.ymodemBuff).drop (name.length + 1))
    currentRecvsz := 0 }

/-- `remain_len < len ? remain_len : len` of `save_data`. -/
def AsrDump.dataLen (s : AsrDump) (len : Nat) : Int :=
  min (toInt32 (((s.currentFilesz : Int) - s.currentRecvsz) % 2 ^ 32).toNat) len

/-- `save_data`, without what it saves. -/
def AsrDump.count (s : AsrDump) (len : Nat) : AsrDump :=
  { s with
    currentRecvsz := ((s.currentRecvsz + s.dataLen len) % 2 ^ 64).toNat
    totalRecvsz := ((s.totalRecvsz + s.dataLen len) % 2 ^ 64).toNat }

theorem AsrDump.count_pc (s : AsrDump) (len : Nat) : (s.count len).pc = s.pc := by rw [AsrDump.count]

/-- `finishup` -/
def AsrDump.finishup (s : AsrDump) : AsrDump :=
  { s with currentRecvsz := 0, currentFilesz := 0, currentFilename := [], currentFd := -1 }

/-- A frame is received. -/
def AsrDump.rxData (s : AsrDump) (rx : RxResult) : AsrDump :=
  { s with ymodemBuff := overwrite s.ymodemBuff 0 rx.chunk, ret := rxRet (overwrite s.ymodemBuff 0 rx.chunk) rx }

/-- `pHdr->tag == STX || pHdr->tag == EOT || (pHdr->tag == SOH && pHdr->idx != 0x00)` -/
def Skipped (buff : List UInt8) : Prop :=
  tagOf buff = stx ∨ tagOf buff = eot ∨ (tagOf buff = soh ∧ idxOf buff ≠ 0)

instance (buff : List UInt8) : Decidable (Skipped buff) := inferInstanceAs (Decidable (_ ∨ _ ∨ _))

/-- `goto QUIT` -/
def AsrDump.quit (s : AsrDump) (ret : Int) : AsrDump := { s with ret := ret, pc := .returned ret }

/-- The loop that waits for a header, at a receive. -/
def AsrDump.waitStep (s : AsrDump) (retry : Nat) (rx : RxResult) : AsrDump × List AsrEvent :=
  let s := s.rxData rx
  if s.ret = 0 then ({ s with pc := .header (some rx.chunk) }, [])
  else if s.ret = -(etimedout : Int) then ({ s with pc := .waiting (retry + 1) }, [.tx cnc])
  else (s.quit s.ret, [])

/-- Behind `parser_hdr`: the header is acknowledged. -/
def AsrDump.acknowledge (s : AsrDump) (tx : Option Nat) : AsrDump × List AsrEvent :=
  if txRet tx ≠ 0 then (s.quit (txRet tx), [.tx ack])
  else if s.currentFilesz = 0 ∧ s.currentFilename = [] then (s.quit 0, [.tx ack, .tx cnc])
  else ({ s with ret := 0, pc := .block }, [.tx ack])

/-- From the header on, up to the loop that receives blocks. -/
def AsrDump.headerStep (s : AsrDump) (tx : Option Nat) (fd : Int) : AsrDump × List AsrEvent :=
  if Skipped s.ymodemBuff then ({ s with pc := .top }, [.tx ack])
  else if s.parserHdr.currentFilename = [] then s.parserHdr.acknowledge tx
  else if fd ≤ 0 then ({ s.parserHdr with currentFd := fd }.quit (-1), [.create (s.parserHdr.currentFilename.take 120)])
  else
    prepend [.create (s.parserHdr.currentFilename.take 120)] ({ s.parserHdr with currentFd := fd }.acknowledge tx)

/-- A block of `len` bytes is acknowledged and then saved. -/
def AsrDump.saveBlock (s : AsrDump) (tx : Option Nat) (len : Nat) : AsrDump × List AsrEvent :=
  if txRet tx ≠ 0 then (s.quit (txRet tx), [.tx ack])
  else
    ({ s.count len with ret := 0 },
      if 0 < s.currentFd then [.tx ack, .save (window s.ymodemBuff 3 (3 + len))] else [.tx ack])

/-- In the loop that receives blocks, behind the receive. -/
def AsrDump.blockReceived (s : AsrDump) (tx : Option Nat) : AsrDump × List AsrEvent :=
  if s.ret ≠ 0 then (s.quit s.ret, [])
  else if tagOf s.ymodemBuff = soh then s.saveBlock tx 128
  else if tagOf s.ymodemBuff = stx then s.saveBlock tx 1024
  else if tagOf s.ymodemBuff = eot then ({ (s.count 0).finishup with pc := .top }, [.tx ack, .close])
  else (s.quit (-1), [])

/-- A round of the loop that receives blocks, after a timeout with a second receive. -/
def AsrDump.blockStep (s : AsrDump) (inp : AsrInput) : AsrDump × List AsrEvent :=
  if (s.rxData inp.rx).ret = -(etimedout : Int) then
    prepend [.tx ack] (((s.rxData inp.rx).rxData inp.rxAgain).blockReceived inp.tx)
  else (s.rxData inp.rx).blockReceived inp.tx

/-- A step of `asr_catch_dump`. -/
def asrStep (s : AsrDump) (inp : AsrInput) : AsrDump × List AsrEvent :=
  match s.pc with
  | .start =>
      if txRet inp.tx ≠ 0 then (s.quit (txRet inp.tx), [.tx cnc])
      else ({ s with ret := 0, totalRecvsz := 0, currentFd := -1, pc := .top }, [.tx cnc])
  | .top =>
      if inp.exit then (s.quit s.ret, [])
      else ({ s with currentRecvsz := 0, pc := .waiting 0 }, [])
  | .waiting retry => if retry < 5 then s.waitStep retry inp.rx else ({ s with pc := .header none }, [])
  | .header _ => s.headerStep inp.tx inp.fd
  | .block =>
      if inp.exit then
        ({ s with currentFd := -1, pc := .top }, if s.currentFd ≠ -1 then [.close] else [])
      else s.blockStep inp
  | .returned _ => (s, [])

/-- The call of `asr_catch_dump`, with any values of the static variables. -/
def asrStart (ymodemBuff : List UInt8) (totalRecvsz currentRecvsz currentFilesz : Nat) (currentFd : Int)
    (currentFilename : List UInt8) : AsrDump :=
  ⟨ymodemBuff, 0, totalRecvsz, currentRecvsz, currentFilesz, currentFd, currentFilename, .start⟩

/-! ## The end of the dump -/

/-- A frame with a header. -/
def HeaderFrame (frame : List UInt8) : Prop := frame.length = 133 ∧ tagOf frame = soh ∧ idxOf frame = 0

/-- The name in the header is empty. -/
def EmptyName (frame : List UInt8) : Prop := cString (dataOf frame) = []

/-- `parser_hdr` is called in the next step. -/
def AsrDump.Parses (s : AsrDump) : Prop := (∃ received, s.pc = .header received) ∧ ¬ Skipped s.ymodemBuff

/-- **Headers are what the device has sent**: `parser_hdr` is only called on a header that has been received in the
iteration, and without an exit request the dump is only reported finished after one with an empty name. -/
structure HeaderSent (s : AsrDump) (inp : AsrInput) : Prop where
  parsed : s.Parses → ∃ frame, s.pc = .header (some frame) ∧ HeaderFrame frame
  finished : inp.exit = false → (∀ ret, s.pc ≠ .returned ret) → (asrStep s inp).1.pc = .returned 0 →
    ∃ frame, s.pc = .header (some frame) ∧ HeaderFrame frame ∧ EmptyName frame

/-- The wait for a header ends with a frame of a known tag, or after five timeouts with a buffer that is not taken for a
header. -/
def WaitEndsWell (s : AsrDump) (_ : AsrInput) : Prop :=
  match s.pc with
  | .header (some frame) => tagOf frame = soh ∨ tagOf frame = stx ∨ tagOf frame = eot
  | .header none => Skipped s.ymodemBuff
  | _ => True

theorem errorRet_ne_zero (errno : Nat) : errorRet errno ≠ 0 := by
  rw [errorRet]
  split <;> omega

/-- What is received stands at the front of the buffer. -/
theorem tagOf_append {frame : List UInt8} (h : frame ≠ []) (old : List UInt8) :
    tagOf (frame ++ old) = tagOf frame := by
  obtain ⟨b, frame, rfl⟩ := List.exists_cons_of_ne_nil h
  rfl

theorem idxOf_append {frame : List UInt8} (h : 2 ≤ frame.length) (old : List UInt8) :
    idxOf (frame ++ old) = idxOf frame := by
  rw [idxOf, idxOf, List.getD_eq_getElem?_getD, List.getElem?_append_left (by omega), List.getD_eq_getElem?_getD]

theorem rxRet_eq_zero_iff {buff : List UInt8} {rx : RxResult} :
    rxRet buff rx = 0 ↔ rx.chunk ≠ [] ∧ LengthOk (tagOf buff) rx.chunk.length := by
  rw [rxRet]
  split
  · next h => exact iff_of_true rfl h
  · next h => exact iff_of_false (errorRet_ne_zero _) h

/-- The frame that has ended the wait is in the buffer, and has the length of its tag. -/
def HeaderInv (s : AsrDump) : Prop :=
  ∀ frame, s.pc = .header (some frame) →
    frame ≠ [] ∧ LengthOk (tagOf frame) frame.length ∧ ∃ old, s.ymodemBuff = frame ++ old

section Steps

variable {s : AsrDump}

/-- Elsewhere there is nothing to say. -/
theorem headerInv_of_ne (h : ∀ frame, s.pc ≠ .header (some frame)) : HeaderInv s :=
  fun frame hframe => absurd hframe (h frame)

theorem acknowledge_pc (s : AsrDump) (tx : Option Nat) :
    (∃ ret, ret ≠ 0 ∧ (s.acknowledge tx).1.pc = .returned ret) ∨
      (s.currentFilename = [] ∧ (s.acknowledge tx).1.pc = .returned 0) ∨ (s.acknowledge tx).1.pc = .block := by
  rw [AsrDump.acknowledge]
  split
  · next htx => exact Or.inl ⟨_, htx, rfl⟩
  · split
    · next hlast => exact Or.inr (Or.inl ⟨hlast.2, rfl⟩)
    · exact Or.inr (Or.inr rfl)

/-- Where a header leads to. -/
theorem headerStep_pc (s : AsrDump) (tx : Option Nat) (fd : Int) :
    (Skipped s.ymodemBuff ∧ (s.headerStep tx fd).1.pc = .top) ∨
      (∃ ret, ret ≠ 0 ∧ (s.headerStep tx fd).1.pc = .returned ret) ∨
      (s.parserHdr.currentFilename = [] ∧ (s.headerStep tx fd).1.pc = .returned 0) ∨
      (s.headerStep tx fd).1.pc = .block := by
  rw [AsrDump.headerStep]
  split
  · next hskipped => exact Or.inl ⟨hskipped, rfl⟩
  · refine Or.inr ?_
    split
    · exact acknowledge_pc s.parserHdr tx
    · split
      · exact Or.inl ⟨-1, by decide, rfl⟩
      · rw [prepend_fst]
        exact acknowledge_pc { s.parserHdr with currentFd := fd } tx

theorem saveBlock_pc (s : AsrDump) (tx : Option Nat) (len : Nat) :
    (∃ ret, ret ≠ 0 ∧ (s.saveBlock tx len).1.pc = .returned ret) ∨ (s.saveBlock tx len).1.pc = s.pc := by
  rw [AsrDump.saveBlock]
  split
  · next htx => exact Or.inl ⟨_, htx, rfl⟩
  · exact Or.inr (s.count_pc len)

/-- Where a frame in the loop that receives blocks leads to. -/
theorem blockReceived_pc (s : AsrDump) (tx : Option Nat) :
    (∃ ret, ret ≠ 0 ∧ (s.blockReceived tx).1.pc = .returned ret) ∨ (s.blockReceived tx).1.pc = s.pc ∨
      (s.blockReceived tx).1.pc = .top := by
  rw [AsrDump.blockReceived]
  split
  · next hret => exact Or.inl ⟨_, hret, rfl⟩
  · split
    · exact (saveBlock_pc s tx 128).imp_right Or.inl
    · split
      · exact (saveBlock_pc s tx 1024).imp_right Or.inl
      · split
        · exact Or.inr (Or.inr rfl)
        · exact Or.inl ⟨-1, by decide, rfl⟩

theorem blockStep_pc (hpc : s.pc = .block) (inp : AsrInput) :
    (∃ ret, ret ≠ 0 ∧ (s.blockStep inp).1.pc = .returned ret) ∨ (s.blockStep inp).1.pc = .block ∨
      (s.blockStep inp).1.pc = .top := by
  rw [AsrDump.blockStep, ← hpc]
  split
  · exact blockReceived_pc ((s.rxData inp.rx).rxData inp.rxAgain) inp.tx
  · exact blockReceived_pc (s.rxData inp.rx) inp.tx

/-- Where the wait for a header leads to. -/
theorem waitStep_pc (s : AsrDump) (retry : Nat) (rx : RxResult) :
    (∃ ret, ret ≠ 0 ∧ (s.waitStep retry rx).1.pc = .returned ret) ∨
      (s.waitStep retry rx).1.pc = .waiting (retry + 1) ∨
      (s.waitStep retry rx).1.pc = .header (some rx.chunk) ∧ rx.chunk ≠ [] ∧
        LengthOk (tagOf rx.chunk) rx.chunk.length ∧ ∃ old, (s.waitStep retry rx).1.ymodemBuff = rx.chunk ++ old := by
  rw [AsrDump.waitStep]
  split
  · next hret =>
      obtain ⟨hne, hlength⟩ := rxRet_eq_zero_iff.mp hret
      rw [overwrite_zero, tagOf_append hne] at hlength
      exact Or.inr (Or.inr ⟨rfl, hne, hlength, _, overwrite_zero s.ymodemBuff rx.chunk⟩)
  · next hret =>
      split
      · exact Or.inr (Or.inl rfl)
      · exact Or.inl ⟨_, hret, rfl⟩

/-- What a step can do: return a result that is not 0, return 0 at a header without a name, return because of an exit
request, receive a frame that ends the wait, or go on elsewhere. -/
inductive StepTo (s : AsrDump) (inp : AsrInput) (s' : AsrDump) : Prop
  | failed (ret : Int) (h : ret ≠ 0) (hpc : s'.pc = .returned ret)
  | finished (hparses : s.Parses) (hname : s.parserHdr.currentFilename = []) (hpc : s'.pc = .returned 0)
  | exit (h : inp.exit = true) (hpc : s'.pc = .returned s.ret)
  | received (frame : List UInt8) (hne : frame ≠ []) (hlength : LengthOk (tagOf frame) frame.length)
      (old : List UInt8) (hbuff : s'.ymodemBuff = frame ++ old) (hpc : s'.pc = .header (some frame))
  | going (hheader : ∀ frame, s'.pc ≠ .header (some frame)) (hreturned : ∀ ret, s'.pc ≠ .returned ret)
  | returned (ret : Int) (h : s.pc = .returned ret) (hsame : s' = s)

/-- A step to somewhere that is neither a header nor the end. -/
theorem StepTo.of_pc {inp : AsrInput} {s' : AsrDump} {pc : AsrPc} (h : s'.pc = pc)
    (hheader : ∀ frame, pc ≠ .header (some frame)) (hreturned : ∀ ret, pc ≠ .returned ret) : StepTo s inp s' :=
  .going (fun frame => h ▸ hheader frame) fun ret => h ▸ hreturned ret

theorem asrStep_to (s : AsrDump) (inp : AsrInput) : StepTo s inp (asrStep s inp).1 := by
  rw [asrStep]
  cases hpc : s.pc with
  | start =>
      dsimp only
      split
      · next htx => exact .failed _ htx rfl
      · exact .of_pc rfl nofun nofun
  | top =>
      dsimp only
      split
      · next hexit => exact .exit hexit rfl
      · exact .of_pc rfl nofun nofun
  | waiting retry =>
      dsimp only
      split
      · rcases waitStep_pc s retry inp.rx with ⟨ret, hret, hpc'⟩ | hpc' | ⟨hpc', hne, hlength, old, hbuff⟩
        · exact .failed ret hret hpc'
        · exact .of_pc hpc' nofun nofun
        · exact .received _ hne hlength old hbuff hpc'
      · exact .of_pc rfl nofun nofun
  | header received =>
      dsimp only
      by_cases hskipped : Skipped s.ymodemBuff
      · have htop : (s.headerStep inp.tx inp.fd).1.pc = .top := by
          rw [AsrDump.headerStep, if_pos hskipped]
        exact .of_pc htop nofun nofun
      · rcases headerStep_pc s inp.tx inp.fd with hskip | ⟨ret, hret, hpc'⟩ | ⟨hname, hpc'⟩ | hpc'
        · exact absurd hskip.1 hskipped
        · exact .failed ret hret hpc'
        · exact .finished ⟨⟨received, hpc⟩, hskipped⟩ hname hpc'
        · exact .of_pc hpc' nofun nofun
  | block =>
      dsimp only
      split
      · exact .of_pc rfl nofun nofun
      · rcases blockStep_pc hpc inp with ⟨ret, hret, hpc'⟩ | hpc' | hpc'
        · exact .failed ret hret hpc'
        · exact .of_pc hpc' nofun nofun
        · exact .of_pc hpc' nofun nofun
  | returned ret => exact .returned ret hpc rfl

/-- Every step keeps the invariant. -/
theorem headerInv_step (s : AsrDump) (inp : AsrInput) (h : HeaderInv s) : HeaderInv (asrStep s inp).1 := by
  cases asrStep_to s inp with
  | failed ret _ hpc => exact headerInv_of_ne fun frame => by rw [hpc]; nofun
  | finished _ _ hpc => exact headerInv_of_ne fun frame => by rw [hpc]; nofun
  | exit _ hpc => exact headerInv_of_ne fun frame => by rw [hpc]; nofun
  | received frame hne hlength old hbuff hpc =>
      intro frame' hframe
      rw [hpc] at hframe
      obtain rfl : frame = frame' := by injection hframe with hsome; exact Option.some.inj hsome
      exact ⟨hne, hlength, old, hbuff⟩
  | going hheader _ => exact headerInv_of_ne hheader
  | returned ret _ hsame => rwa [hsame]

/-- A frame of a known tag that is not skipped is a header. -/
theorem headerFrame_of_not_skipped {frame old : List UInt8} (hne : frame ≠ [])
    (hlength : LengthOk (tagOf frame) frame.length) (htag : tagOf frame = soh ∨ tagOf frame = stx ∨ tagOf frame = eot)
    (hskipped : ¬ Skipped (frame ++ old)) : HeaderFrame frame := by
  rw [Skipped, not_or, not_or, not_and, not_not, tagOf_append hne] at hskipped
  obtain ⟨hstx, heot, hidx⟩ := hskipped
  have hsoh : tagOf frame = soh := by
    rcases htag with htag | htag | htag
    · exact htag
    · exact absurd htag hstx
    · exact absurd htag heot
  have hlen := hlength.1 hsoh
  refine ⟨hlen, hsoh, ?_⟩
  rw [← idxOf_append (by omega) old]
  exact hidx hsoh

/-- The name that is parsed is that of the frame. -/
theorem emptyName_of_parserHdr {frame old : List UInt8} (hlen : frame.length = 133)
    (hbuff : s.ymodemBuff = frame ++ old) (hname : s.parserHdr.currentFilename = []) : EmptyName frame := by
  obtain ⟨b0, b1, b2, b3, rest, rfl⟩ : ∃ b0 b1 b2 b3 rest, frame = b0 :: b1 :: b2 :: b3 :: rest := by
    rcases frame with _ | ⟨b0, _ | ⟨b1, _ | ⟨b2, _ | ⟨b3, rest⟩⟩⟩⟩
    iterate 4 exact absurd hlen (by simp)
    exact ⟨b0, b1, b2, b3, rest, rfl⟩
  have hcut : cString ((dataOf s.ymodemBuff).take 127) = [] := hname
  rw [hbuff] at hcut
  have hzero : b3 = 0 := (cString_eq_nil_iff _).mp hcut
  exact (cString_eq_nil_iff _).mpr hzero

/-- Where the invariant holds, the headers are those of the device exactly if the wait has ended well. -/
theorem headerSent_iff (s : AsrDump) (inp : AsrInput) (h : HeaderInv s) : HeaderSent s inp ↔ WaitEndsWell s inp := by
  have hparses : ∀ {received}, s.pc = .header received → WaitEndsWell s inp → ¬ Skipped s.ymodemBuff →
      ∃ frame, s.pc = .header (some frame) ∧ HeaderFrame frame := by
    intro received hpc hwell hskipped
    rw [WaitEndsWell, hpc] at hwell
    cases received with
    | none => exact absurd hwell hskipped
    | some frame =>
        obtain ⟨hne, hlength, old, hbuff⟩ := h frame hpc
        rw [hbuff] at hskipped
        exact ⟨frame, hpc, headerFrame_of_not_skipped hne hlength hwell hskipped⟩
  constructor
  · intro hsent
    rw [WaitEndsWell]
    split
    · next frame hpc =>
        by_contra htag
        obtain ⟨hne, -, old, hbuff⟩ := h frame hpc
        have hskipped : ¬ Skipped s.ymodemBuff := by
          rw [hbuff, Skipped, tagOf_append hne]
          tauto
        obtain ⟨frame', hpc', hframe⟩ := hsent.parsed ⟨⟨_, hpc⟩, hskipped⟩
        rw [hpc] at hpc'
        obtain rfl : frame = frame' := by injection hpc' with hsome; exact Option.some.inj hsome
        exact htag (Or.inl hframe.2.1)
    · next hpc =>
        by_contra hskipped
        obtain ⟨frame, hpc', -⟩ := hsent.parsed ⟨⟨_, hpc⟩, hskipped⟩
        rw [hpc] at hpc'
        cases hpc'
    · trivial
  · intro hwell
    refine ⟨fun ⟨⟨_, hpc⟩, hskipped⟩ => hparses hpc hwell hskipped, fun hexit hgoing hreturned => ?_⟩
    cases asrStep_to s inp with
    | failed ret hret hpc =>
        rw [hpc] at hreturned
        injection hreturned with hzero
        exact absurd hzero hret
    | finished hcalled hname hpc =>
        obtain ⟨⟨_, hpc'⟩, hskipped⟩ := hcalled
        obtain ⟨frame, hframe, hheader⟩ := hparses hpc' hwell hskipped
        obtain ⟨-, -, old, hbuff⟩ := h frame hframe
        exact ⟨frame, hframe, hheader, emptyName_of_parserHdr hheader.1 hbuff hname⟩
    | exit hexit' _ => exact absurd (hexit.symm.trans hexit') Bool.false_ne_true
    | received frame _ _ _ _ hpc =>
        rw [hpc] at hreturned
        cases hreturned
    | going _ hnot => exact absurd hreturned (hnot 0)
    | returned ret hret _ => exact absurd hret (hgoing ret)

end Steps

/-- **When headers are what the device has sent**: in every run, exactly if no wait for a header ends with a frame of an
unknown tag, or after five timeouts with a buffer that can be taken for a header. -/
theorem asrCatchDump_headerSent_iff (ymodemBuff : List UInt8) (totalRecvsz currentRecvsz currentFilesz : Nat)
    (currentFd : Int) (currentFilename : List UInt8) (inputs : List AsrInput) :
    Along asrStep HeaderSent
        (asrStart ymodemBuff totalRecvsz currentRecvsz currentFilesz currentFd currentFilename) inputs ↔
      Along asrStep WaitEndsWell
        (asrStart ymodemBuff totalRecvsz currentRecvsz currentFilesz currentFd currentFilename) inputs :=
  along_congr asrStep headerInv_step headerSent_iff _ inputs (headerInv_of_ne nofun)

/-- Nothing comes for ten seconds. -/
def timeout : RxResult := ⟨[], Nat.zero_le _, etimedout⟩

/-- Nothing is received, and what is sent goes out. -/
def silentInput : AsrInput := ⟨false, timeout, timeout, none, -1⟩

/-- The device is silent. After five timeouts the dump is reported finished. -/
theorem not_asrCatchDump_headerSent :
    ¬ ∀ (ymodemBuff : List UInt8) (totalRecvsz currentRecvsz currentFilesz : Nat) (currentFd : Int)
      (currentFilename : List UInt8) (inputs : List AsrInput), (∀ inp ∈ inputs, inp.exit = false) →
        Along asrStep HeaderSent
          (asrStart ymodemBuff totalRecvsz currentRecvsz currentFilesz currentFd currentFilename) inputs := by
  intro h
  have hrun := h (List.replicate frameSize 0) 0 0 0 (-1) [] (List.replicate 9 silentInput)
    (fun inp hinp => by rw [List.eq_of_mem_replicate hinp]; rfl)
  obtain ⟨-, -, -, -, -, -, -, -, hlast, -⟩ := hrun
  obtain ⟨frame, hframe, -⟩ := hlast.finished rfl nofun rfl
  cases hframe

end QLog.Ymodem
