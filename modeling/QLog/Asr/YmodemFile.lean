import QLog.Asr.Ymodem

/-! # The files of an ASR dump

A file is sent in blocks of 128 and 1024 bytes, the last of them filled up, behind a header with its name and its size.
The device sends a block again when it is asked to: after a timeout the last acknowledgement is repeated.

`save_data` counts the bytes that belong to the file, and saves all of the block. It does not look at the index, so a
block that comes again is saved again. -/

namespace QLog.Ymodem

open Library

/-! ## A device -/

/-- A block with its check sum. -/
structure YmodemBlock where
  data : List UInt8
  crc : List UInt8
  length_data : data.length = 128 ∨ data.length = 1024
  length_crc : crc.length = 2

/-- The frame of a block with an index. -/
def YmodemBlock.frame (b : YmodemBlock) (idx : Nat) : List UInt8 :=
  [if b.data.length = 128 then soh else stx, UInt8.ofNat idx, 255 - UInt8.ofNat idx] ++ b.data ++ b.crc

/-- How often a block is sent, and before which of its frames there is a timeout. -/
structure Delivery where
  block : YmodemBlock
  first : Bool
  again : List Bool

/-- A block is sent again as often as it has been asked for: how often the device is then still asked for one. -/
def askedAgain : Nat → List Bool → Option Nat
  | asked, [] => some asked
  | asked, late :: again =>
      if asked + late.toNat = 0 then none else askedAgain (asked + late.toNat - 1) again

/-- Each repetition of a block follows a repeated acknowledgement. -/
def Asked : Nat → List Delivery → Prop
  | _, [] => True
  | asked, d :: deliveries => ∃ left ∈ askedAgain (asked + d.first.toNat) d.again, Asked left deliveries

/-- The data of the blocks. -/
def blocksData (deliveries : List Delivery) : List UInt8 := deliveries.flatMap fun d => d.block.data

/-- The header of a file: its name and its size, with something behind them that is no digit. -/
structure FileHeader where
  name : List UInt8
  size : Nat
  rest : List UInt8
  crc : List UInt8
  name_ne : name ≠ []
  zero_not_mem : 0 ∉ name
  rest_head : isDigit ((rest ++ crc).headD 0) = false
  length_data : (name ++ 0 :: (decimalText size ++ rest)).length = 128
  length_crc : crc.length = 2

/-- The data of a header. -/
def FileHeader.data (h : FileHeader) : List UInt8 := h.name ++ 0 :: (decimalText h.size ++ h.rest)

/-- A header is a block with the index 0. -/
def FileHeader.block (h : FileHeader) : YmodemBlock := ⟨h.data, h.crc, Or.inl h.length_data, h.length_crc⟩

/-- What a device sends of a file. -/
structure Transfer where
  header : FileHeader
  /-- How many timeouts there are before the header comes. -/
  wait : Nat
  /-- How often the header is sent again, and before which of its frames there is a timeout. -/
  headerAgain : List Bool
  deliveries : List Delivery
  /-- There is a timeout before the end of the file is announced. -/
  lateEot : Bool
  wait_lt : wait < 5
  asked : ∃ left ∈ askedAgain 0 headerAgain, Asked left deliveries
  enough : header.size ≤ (blocksData deliveries).length
  /-- Only the last block is filled up. -/
  filled : ∀ front, front <+: deliveries → front ≠ deliveries → (blocksData front).length < header.size

/-! ## What the function receives -/

/-- A receive that brings a frame. -/
def rxFrame (frame : List UInt8) (h : frame.length ≤ frameSize) : RxResult := ⟨frame, h, 0⟩

theorem YmodemBlock.length_frame (b : YmodemBlock) (idx : Nat) : (b.frame idx).length = b.data.length + 5 := by
  rw [YmodemBlock.frame, List.length_append, List.length_append, b.length_crc]
  simp only [List.length_cons, List.length_nil]
  omega

/-- A frame of a block, perhaps after a timeout. -/
def blockInput (late : Bool) (rx : RxResult) : AsrInput :=
  { silentInput with rx := if late then timeout else rx, rxAgain := rx }

def YmodemBlock.rx (b : YmodemBlock) (idx : Nat) : RxResult :=
  rxFrame (b.frame idx) (by
    rw [b.length_frame, frameSize]
    have h := b.length_data
    omega)

/-- The end of the file. -/
def rxEot : RxResult := rxFrame [eot] (by decide)

/-- What the loop receives of the blocks from an index on. -/
def deliveryInputs : Nat → List Delivery → List AsrInput
  | _, [] => []
  | idx, d :: deliveries =>
      (d.first :: d.again).map (fun late => blockInput late (d.block.rx idx)) ++ deliveryInputs (idx + 1) deliveries

/-- What the function meets in a transfer, with a file that has been created. -/
def Transfer.inputs (t : Transfer) (fd : Int) : List AsrInput :=
  silentInput :: List.replicate t.wait silentInput ++ [{ silentInput with rx := t.header.block.rx 0 },
    { silentInput with fd := fd }] ++ (t.headerAgain.map fun late => blockInput late (t.header.block.rx 0)) ++
    deliveryInputs 1 t.deliveries ++ [blockInput t.lateEot rxEot]

/-- What is saved. -/
def savedData (events : List AsrEvent) : List UInt8 :=
  events.flatMap fun
    | .save data => data
    | _ => []

/-- **The file is saved**: the function has come to the end of the file, and has saved as many bytes of the blocks as
the header has announced. -/
def SavesFile (s : AsrDump) (t : Transfer) (fd : Int) : Prop :=
  (runSteps asrStep s (t.inputs fd)).1.pc = .top ∧
    savedData (runSteps asrStep s (t.inputs fd)).2 = (blocksData t.deliveries).take t.header.size

/-! ## What is saved of a transfer -/

theorem savedData_append (a b : List AsrEvent) : savedData (a ++ b) = savedData a ++ savedData b :=
  List.flatMap_append

section Frames

variable {s : AsrDump}

/-- A frame that is received, and what it is received over. -/
theorem rxData_frame (s : AsrDump) (rx : RxResult) (hne : rx.chunk ≠ [])
    (hlength : LengthOk (tagOf rx.chunk) rx.chunk.length) :
    (s.rxData rx).ret = 0 ∧ ∃ old, (s.rxData rx).ymodemBuff = rx.chunk ++ old := by
  have hbuff : overwrite s.ymodemBuff 0 rx.chunk = rx.chunk ++ s.ymodemBuff.drop rx.chunk.length := overwrite_zero ..
  refine ⟨?_, _, hbuff⟩
  show rxRet (overwrite s.ymodemBuff 0 rx.chunk) rx = 0
  rw [rxRet_eq_zero_iff, hbuff, tagOf_append hne]
  exact ⟨hne, hlength⟩

theorem rxData_timeout (s : AsrDump) : (s.rxData timeout).ret = -(etimedout : Int) := by
  rw [AsrDump.rxData]
  rfl

/-- A frame in the loop that receives blocks comes to the same after a timeout, but for a repeated acknowledgement. -/
theorem blockStep_blockInput (s : AsrDump) (late : Bool) (rx : RxResult) (hne : rx.chunk ≠ [])
    (hlength : LengthOk (tagOf rx.chunk) rx.chunk.length) :
    ∃ (s' : AsrDump) (before : List AsrEvent), s'.pc = s.pc ∧ s'.currentFd = s.currentFd ∧ s'.ret = 0 ∧
      (∃ old, s'.ymodemBuff = rx.chunk ++ old) ∧ savedData before = [] ∧
      s.blockStep (blockInput late rx) = prepend before (s'.blockReceived none) := by
  cases late with
  | false =>
      obtain ⟨hret, hbuff⟩ := rxData_frame s rx hne hlength
      refine ⟨s.rxData rx, [], rfl, rfl, hret, hbuff, rfl, ?_⟩
      have hnot : (s.rxData (blockInput false rx).rx).ret ≠ -(etimedout : Int) := by
        show (s.rxData rx).ret ≠ _
        rw [hret]
        decide
      rw [AsrDump.blockStep, if_neg hnot]
      rfl
  | true =>
      obtain ⟨hret, hbuff⟩ := rxData_frame (s.rxData timeout) rx hne hlength
      refine ⟨(s.rxData timeout).rxData rx, [.tx ack], rfl, rfl, hret, hbuff, rfl, ?_⟩
      rw [AsrDump.blockStep]
      exact if_pos (rxData_timeout s)

/-- A step of the loop that receives blocks. -/
theorem asrStep_blockInput (hpc : s.pc = .block) (late : Bool) (rx : RxResult) :
    asrStep s (blockInput late rx) = s.blockStep (blockInput late rx) := by
  rw [asrStep, hpc]
  rfl

theorem YmodemBlock.frame_ne_nil (b : YmodemBlock) (idx : Nat) : b.frame idx ≠ [] := by
  rw [YmodemBlock.frame, List.append_assoc]
  exact List.cons_ne_nil _ _

theorem YmodemBlock.lengthOk (b : YmodemBlock) (idx : Nat) : LengthOk (tagOf (b.frame idx)) (b.frame idx).length := by
  have htag : tagOf (b.frame idx) = if b.data.length = 128 then soh else stx := rfl
  rw [htag, b.length_frame]
  rcases b.length_data with hlen | hlen
  · rw [hlen]
    decide
  · rw [hlen]
    decide

/-- A block that has been received is saved. -/
theorem blockReceived_block (hret : s.ret = 0) (hfd : 0 < s.currentFd) (b : YmodemBlock) (idx : Nat)
    (hbuff : ∃ old, s.ymodemBuff = b.frame idx ++ old) :
    (s.blockReceived none).1.pc = s.pc ∧ (s.blockReceived none).1.currentFd = s.currentFd ∧
      savedData (s.blockReceived none).2 = b.data := by
  obtain ⟨old, hbuff⟩ := hbuff
  have htag : tagOf s.ymodemBuff = if b.data.length = 128 then soh else stx := by
    rw [hbuff, tagOf_append (b.frame_ne_nil idx)]
    rfl
  have hdata : window s.ymodemBuff 3 (3 + b.data.length) = b.data := by
    have hmid := window_mid [if b.data.length = 128 then soh else stx, UInt8.ofNat idx, 255 - UInt8.ofNat idx] b.data
      (b.crc ++ old)
    rw [hbuff, YmodemBlock.frame, List.append_assoc]
    exact hmid
  have hsave : (s.saveBlock none b.data.length).1.pc = s.pc ∧
      (s.saveBlock none b.data.length).1.currentFd = s.currentFd ∧
        savedData (s.saveBlock none b.data.length).2 = b.data := by
    rw [AsrDump.saveBlock, if_neg (by decide), if_pos hfd, hdata, AsrDump.count]
    exact ⟨rfl, rfl, List.append_nil _⟩
  rw [AsrDump.blockReceived, if_neg (not_not.mpr hret), htag]
  rcases b.length_data with hlen | hlen
  · rw [hlen] at hsave ⊢
    exact hsave
  · rw [hlen] at hsave ⊢
    exact hsave

/-- A frame of a block, late or not, is saved. -/
theorem asrStep_block (hpc : s.pc = .block) (hfd : 0 < s.currentFd) (late : Bool) (b : YmodemBlock) (idx : Nat) :
    (asrStep s (blockInput late (b.rx idx))).1.pc = .block ∧
      0 < (asrStep s (blockInput late (b.rx idx))).1.currentFd ∧
      savedData (asrStep s (blockInput late (b.rx idx))).2 = b.data := by
  obtain ⟨s', before, hpc', hfd', hret, hbuff, hbefore, hstep⟩ :=
    blockStep_blockInput s late (b.rx idx) (b.frame_ne_nil idx) (b.lengthOk idx)
  obtain ⟨hnext, hnextFd, hsaved⟩ := blockReceived_block hret (by rwa [hfd']) b idx hbuff
  rw [asrStep_blockInput hpc, hstep, prepend_fst, prepend_snd, savedData_append, hbefore, hsaved]
  refine ⟨by rw [hnext, hpc', hpc], by rwa [hnextFd, hfd'], rfl⟩

/-- The end of the file leads back to the outer loop. -/
theorem asrStep_eot (hpc : s.pc = .block) (late : Bool) :
    (asrStep s (blockInput late rxEot)).1.pc = .top ∧ savedData (asrStep s (blockInput late rxEot)).2 = [] := by
  obtain ⟨s', before, -, -, hret, ⟨old, hbuff⟩, hbefore, hstep⟩ :=
    blockStep_blockInput s late rxEot (by decide) (by decide)
  have htag : tagOf s'.ymodemBuff = eot := by
    rw [hbuff]
    rfl
  rw [asrStep_blockInput hpc, hstep, prepend_fst, prepend_snd, savedData_append, hbefore, AsrDump.blockReceived,
    if_neg (not_not.mpr hret), htag, if_neg (by decide), if_neg (by decide), if_pos rfl]
  exact ⟨rfl, rfl⟩

/-- The frames of one block. -/
theorem runSteps_again (hpc : s.pc = .block) (hfd : 0 < s.currentFd) (b : YmodemBlock) (idx : Nat) (lates : List Bool) :
    (runSteps asrStep s (lates.map fun late => blockInput late (b.rx idx))).1.pc = .block ∧
      0 < (runSteps asrStep s (lates.map fun late => blockInput late (b.rx idx))).1.currentFd ∧
      savedData (runSteps asrStep s (lates.map fun late => blockInput late (b.rx idx))).2 =
        lates.flatMap fun _ => b.data := by
  induction lates generalizing s with
  | nil => exact ⟨hpc, hfd, rfl⟩
  | cons late lates ih =>
      obtain ⟨hpc', hfd', hsaved⟩ := asrStep_block hpc hfd late b idx
      obtain ⟨hend, hendFd, hrest⟩ := ih hpc' hfd'
      rw [List.map_cons, runSteps_cons, prepend_fst, prepend_snd, savedData_append, hsaved, hrest]
      exact ⟨hend, hendFd, rfl⟩

/-- What is saved of a block. -/
def Delivery.saved (d : Delivery) : List UInt8 := (d.first :: d.again).flatMap fun _ => d.block.data

/-- The frames of all blocks. -/
theorem runSteps_deliveries (hpc : s.pc = .block) (hfd : 0 < s.currentFd) (idx : Nat) (deliveries : List Delivery) :
    (runSteps asrStep s (deliveryInputs idx deliveries)).1.pc = .block ∧
      0 < (runSteps asrStep s (deliveryInputs idx deliveries)).1.currentFd ∧
      savedData (runSteps asrStep s (deliveryInputs idx deliveries)).2 = deliveries.flatMap Delivery.saved := by
  induction deliveries generalizing s idx with
  | nil => exact ⟨hpc, hfd, rfl⟩
  | cons d deliveries ih =>
      obtain ⟨hpc', hfd', hsaved⟩ := runSteps_again hpc hfd d.block idx (d.first :: d.again)
      obtain ⟨hend, hendFd, hrest⟩ := ih hpc' hfd' (idx + 1)
      rw [deliveryInputs, runSteps_append, prepend_fst, prepend_snd, savedData_append, hsaved, hrest]
      exact ⟨hend, hendFd, rfl⟩

theorem FileHeader.tagOf_frame (h : FileHeader) : tagOf (h.block.frame 0) = soh := if_pos h.length_data

/-- `parser_hdr` finds what the device has announced. -/
theorem parserHdr_header (h : FileHeader) {old : List UInt8} (hbuff : s.ymodemBuff = h.block.frame 0 ++ old) :
    s.parserHdr.currentFilename = h.name ∧ (h.size < 2 ^ 64 → s.parserHdr.currentFilesz = h.size) := by
  have hdata : dataOf s.ymodemBuff = h.name ++ 0 :: (decimalText h.size ++ (h.rest ++ h.crc ++ old)) := by
    rw [hbuff, YmodemBlock.frame]
    simp [dataOf, FileHeader.block, FileHeader.data]
  have hname : cString ((dataOf s.ymodemBuff).take 127) = h.name := by
    have hlength := h.length_data
    have hdigits := List.length_pos_iff.mpr (decimalText_ne_nil h.size)
    rw [List.length_append, List.length_cons, List.length_append] at hlength
    obtain ⟨n, hn⟩ := Nat.exists_eq_add_of_lt (show h.name.length < 127 by omega)
    rw [hdata, List.take_append, List.take_of_length_le (by omega), hn,
      show h.name.length + n + 1 - h.name.length = n + 1 by omega, List.take_succ_cons,
      cString_append_of_not_mem h.zero_not_mem, cString_zero_cons, List.append_nil]
  refine ⟨hname, fun hsize => ?_⟩
  show strtoul ((dataOf s.ymodemBuff).drop ((cString ((dataOf s.ymodemBuff).take 127)).length + 1)) = h.size
  rw [hname, hdata, ← List.singleton_append, ← List.append_assoc,
    List.drop_left' (by rw [List.length_append, List.length_singleton])]
  refine strtoul_decimalText hsize ?_
  obtain ⟨c, cs, hcrc⟩ := List.exists_cons_of_ne_nil (List.ne_nil_of_length_eq_add_one h.length_crc)
  have hhead := h.rest_head
  cases hrest : h.rest with
  | nil =>
      rw [hrest, hcrc] at hhead
      rw [hcrc]
      exact hhead
  | cons r rest =>
      rw [hrest] at hhead
      exact hhead

/-- The header of a file leads to its blocks. -/
theorem asrStep_header {frame : Option (List UInt8)} (hpc : s.pc = .header frame) (h : FileHeader) {old : List UInt8}
    (hbuff : s.ymodemBuff = h.block.frame 0 ++ old) {fd : Int} (hfd : 0 < fd) :
    (asrStep s { silentInput with fd := fd }).1.pc = .block ∧
      0 < (asrStep s { silentInput with fd := fd }).1.currentFd ∧
      savedData (asrStep s { silentInput with fd := fd }).2 = [] := by
  have hskipped : ¬ Skipped s.ymodemBuff := by
    rw [hbuff, Skipped, tagOf_append (h.block.frame_ne_nil 0), h.tagOf_frame]
    rintro (hstx | heot | ⟨-, hidx⟩)
    · exact absurd hstx (by decide)
    · exact absurd heot (by decide)
    · exact hidx rfl
  have hname : s.parserHdr.currentFilename ≠ [] := by
    rw [(parserHdr_header h hbuff).1]
    exact h.name_ne
  have hstep : asrStep s { silentInput with fd := fd } = s.headerStep none fd := by
    rw [asrStep, hpc]
    rfl
  rw [hstep, AsrDump.headerStep, if_neg hskipped, if_neg hname, if_neg (not_le.mpr hfd), prepend_fst, prepend_snd,
    AsrDump.acknowledge, if_neg (by decide), if_neg fun hlast => hname hlast.2]
  exact ⟨rfl, hfd, rfl⟩

/-- The header comes before the fifth timeout. -/
theorem asrStep_waiting {retry : Nat} (hpc : s.pc = .waiting retry) (hretry : retry < 5) (h : FileHeader) :
    (asrStep s { silentInput with rx := h.block.rx 0 }).1.pc = .header (some (h.block.frame 0)) ∧
      (∃ old, (asrStep s { silentInput with rx := h.block.rx 0 }).1.ymodemBuff = h.block.frame 0 ++ old) ∧
      savedData (asrStep s { silentInput with rx := h.block.rx 0 }).2 = [] := by
  obtain ⟨hret, hbuff⟩ := rxData_frame s (h.block.rx 0) (h.block.frame_ne_nil 0) (h.block.lengthOk 0)
  have hstep : asrStep s { silentInput with rx := h.block.rx 0 } = s.waitStep retry (h.block.rx 0) := by
    rw [asrStep, hpc]
    exact if_pos hretry
  rw [hstep, AsrDump.waitStep, if_pos hret]
  exact ⟨rfl, hbuff, rfl⟩

theorem waitStep_timeout (s : AsrDump) (retry : Nat) :
    s.waitStep retry timeout = ({ s.rxData timeout with pc := .waiting (retry + 1) }, [.tx cnc]) := by
  have hret := rxData_timeout s
  have hne : (s.rxData timeout).ret ≠ 0 := by
    rw [hret]
    decide
  rw [AsrDump.waitStep, if_neg hne, if_pos hret]

/-- Some timeouts before the header. -/
theorem runSteps_wait {retry : Nat} (hpc : s.pc = .waiting retry) {n : Nat} (hle : retry + n ≤ 5) :
    (runSteps asrStep s (List.replicate n silentInput)).1.pc = .waiting (retry + n) ∧
      savedData (runSteps asrStep s (List.replicate n silentInput)).2 = [] := by
  induction n generalizing s retry with
  | zero => exact ⟨hpc, rfl⟩
  | succ n ih =>
      have hstep : asrStep s silentInput =
          ({ s.rxData timeout with pc := .waiting (retry + 1) }, [.tx cnc]) := by
        rw [asrStep, hpc]
        exact (if_pos (by omega)).trans (waitStep_timeout s retry)
      have hnext : (asrStep s silentInput).1.pc = .waiting (retry + 1) := by rw [hstep]
      obtain ⟨hend, hsaved⟩ := ih hnext (by omega)
      rw [List.replicate_succ, runSteps_cons, prepend_fst, prepend_snd, savedData_append, hsaved, hend, hstep]
      exact ⟨by rw [Nat.add_assoc, Nat.add_comm 1], rfl⟩

/-- **What a transfer saves**: all of each block, as often as it is sent, and of the header, each time it is sent
again. -/
theorem savedData_transfer (hpc : s.pc = .top) (t : Transfer) {fd : Int} (hfd : 0 < fd) :
    (runSteps asrStep s (t.inputs fd)).1.pc = .top ∧
      savedData (runSteps asrStep s (t.inputs fd)).2 =
        (t.headerAgain.flatMap fun _ => t.header.data) ++ t.deliveries.flatMap Delivery.saved := by
  have htop : asrStep s silentInput = ({ s with currentRecvsz := 0, pc := .waiting 0 }, []) := by
    rw [asrStep, hpc]
    rfl
  have hwaiting : (asrStep s silentInput).1.pc = .waiting 0 := by rw [htop]
  have hlt := t.wait_lt
  obtain ⟨hwait, hwaitSaved⟩ := runSteps_wait hwaiting (n := t.wait) (by omega)
  obtain ⟨hheader, ⟨old, hbuff⟩, hheaderSaved⟩ := asrStep_waiting hwait (by omega) t.header
  obtain ⟨hblock, hblockFd, hblockSaved⟩ := asrStep_header hheader t.header hbuff hfd
  obtain ⟨hagain, hagainFd, hagainSaved⟩ := runSteps_again hblock hblockFd t.header.block 0 t.headerAgain
  obtain ⟨hend, -, hsaved⟩ := runSteps_deliveries hagain hagainFd 1 t.deliveries
  obtain ⟨heot, heotSaved⟩ := asrStep_eot hend t.lateEot
  have htopSaved : savedData (asrStep s silentInput).2 = [] := by
    rw [htop]
    rfl
  rw [Transfer.inputs, runSteps_append, runSteps_append, runSteps_append, List.cons_append, runSteps_cons,
    runSteps_append, runSteps_cons, runSteps_singleton, runSteps_singleton]
  simp only [prepend_fst, prepend_snd, savedData_append]
  refine ⟨heot, ?_⟩
  rw [htopSaved, hwaitSaved, hheaderSaved, hblockSaved, hagainSaved, hsaved, heotSaved]
  simp only [List.nil_append, List.append_nil]
  rfl

end Frames

/-! ## When this is the file -/

theorem YmodemBlock.data_pos (b : YmodemBlock) : 0 < b.data.length := by
  have h := b.length_data
  omega

theorem Delivery.length_saved (d : Delivery) : d.saved.length = (d.again.length + 1) * d.block.data.length := by
  rw [Delivery.saved, List.length_flatMap, List.map_const', List.sum_replicate_nat, List.length_cons]

/-- A block that is sent once is saved once. -/
theorem Delivery.saved_of_once {d : Delivery} (h : d.again = []) : d.saved = d.block.data := by
  rw [Delivery.saved, h]
  exact List.append_nil _

theorem length_blocksData_le (deliveries : List Delivery) :
    (blocksData deliveries).length ≤ (deliveries.flatMap Delivery.saved).length ∧
      ((deliveries.flatMap Delivery.saved).length ≤ (blocksData deliveries).length →
        ∀ d ∈ deliveries, d.again = []) := by
  induction deliveries with
  | nil => exact ⟨Nat.le_refl _, fun _ d hd => absurd hd List.not_mem_nil⟩
  | cons d deliveries ih =>
      obtain ⟨hle, honce⟩ := ih
      have hpos := d.block.data_pos
      have hsaved := d.length_saved
      rw [blocksData] at hle honce ⊢
      rw [List.flatMap_cons, List.flatMap_cons, List.length_append, List.length_append, hsaved, Nat.add_mul,
        Nat.one_mul]
      refine ⟨by omega, fun h => List.forall_mem_cons.mpr ⟨?_, honce (by omega)⟩⟩
      have hzero : d.again.length * d.block.data.length = 0 := by omega
      exact List.length_eq_zero_iff.mp ((Nat.mul_eq_zero.mp hzero).resolve_right (by omega))

/-- What a transfer saves is the file exactly if nothing is filled up and nothing sent twice. -/
theorem Transfer.saved_eq_take_iff (t : Transfer) :
    (t.headerAgain.flatMap fun _ => t.header.data) ++ t.deliveries.flatMap Delivery.saved =
        (blocksData t.deliveries).take t.header.size ↔
      t.header.size = (blocksData t.deliveries).length ∧ t.headerAgain = [] ∧ ∀ d ∈ t.deliveries, d.again = [] := by
  have hsize := t.enough
  constructor
  · intro heq
    have hlength := congrArg List.length heq
    rw [List.length_take, Nat.min_eq_left hsize, List.length_append, List.length_flatMap, List.map_const',
      List.sum_replicate_nat] at hlength
    obtain ⟨hle, honce⟩ := length_blocksData_le t.deliveries
    have hheader : t.header.data.length = 128 := t.header.length_data
    rw [hheader] at hlength
    exact ⟨by omega, List.length_eq_zero_iff.mp (by omega), honce (by omega)⟩
  · rintro ⟨hall, hheader, honce⟩
    rw [hall, hheader, List.take_length, List.flatMap_nil, List.nil_append, blocksData]
    exact List.flatMap_congr fun d hd => d.saved_of_once (honce d hd)

/-- **When a transfer saves the file**: exactly if the blocks need not be filled up, and neither they nor the header are
sent again. -/
theorem savesFile_iff (s : AsrDump) (hpc : s.pc = .top) (t : Transfer) (fd : Int) (hfd : 0 < fd) :
    SavesFile s t fd ↔
      t.header.size = (blocksData t.deliveries).length ∧ t.headerAgain = [] ∧ ∀ d ∈ t.deliveries, d.again = [] := by
  obtain ⟨hend, hsaved⟩ := savedData_transfer hpc t hfd
  rw [SavesFile, hsaved, ← t.saved_eq_take_iff]
  exact and_iff_right hend

/-- The zeros behind the size fill the header up. -/
theorem length_smallHeader {size : Nat} (hlt : size < 10000) :
    ([0x61] ++ 0 :: (decimalText size ++ List.replicate (126 - (decimalText size).length) 0)).length = 128 := by
  have hdigits : (decimalText size).length ≤ 4 := by
    rw [decimalText, List.length_map]
    exact (Nat.length_toDigits_le_iff (by decide) (by decide)).mpr (by omega)
  simp only [List.length_append, List.length_cons, List.length_nil, List.length_replicate]
  omega

theorem isDigit_zeros (n : Nat) : isDigit ((List.replicate n (0 : UInt8) ++ [0, 0]).headD 0) = false := by
  cases n <;> rfl

/-- The header of a file with the name `a`. -/
def smallHeader (size : Nat) (hlt : size < 10000) : FileHeader where
  name := [0x61]
  size := size
  rest := List.replicate (126 - (decimalText size).length) 0
  crc := [0, 0]
  name_ne := List.cons_ne_nil _ _
  zero_not_mem := List.not_mem_cons_of_ne_of_not_mem (by decide) List.not_mem_nil
  rest_head := isDigit_zeros _
  length_data := length_smallHeader hlt
  length_crc := rfl

/-- A block of 1024 bytes. -/
def largeBlock : YmodemBlock := ⟨List.replicate 1024 0x41, [0, 0], Or.inr List.length_replicate, rfl⟩

/-- A block of 128 bytes. -/
def smallBlock : YmodemBlock := ⟨List.replicate 128 0x42, [0, 0], Or.inl List.length_replicate, rfl⟩

/-- The blocks of a file: the first one comes after a timeout, and comes again where the device takes the repeated
acknowledgement as a request for it. -/
def twoBlocks (again : Bool) : List Delivery :=
  [⟨largeBlock, true, if again then [false] else []⟩, ⟨smallBlock, false, []⟩]

theorem length_blocksData_twoBlocks (again : Bool) : (blocksData (twoBlocks again)).length = 1152 := by
  rw [twoBlocks, blocksData, List.flatMap_cons, List.flatMap_singleton, List.length_append, largeBlock, smallBlock,
    List.length_replicate, List.length_replicate]

/-- Without the second block most of the file has come at most. -/
theorem length_blocksData_lt {again : Bool} {front : List Delivery} (hfront : front <+: twoBlocks again)
    (hne : front ≠ twoBlocks again) : (blocksData front).length ≤ 1024 := by
  rcases List.prefix_cons_iff.mp hfront with rfl | ⟨front₁, rfl, hfront₁⟩
  · exact Nat.zero_le _
  rcases List.prefix_cons_iff.mp hfront₁ with rfl | ⟨front₂, rfl, hfront₂⟩
  · rw [blocksData, List.flatMap_singleton, largeBlock, List.length_replicate]
  · rw [List.prefix_nil.mp hfront₂] at hne
    exact absurd rfl hne

/-- A file of 1025 to 1152 bytes, whose header comes after two timeouts. -/
def twoBlockFile (size : Nat) (hlow : 1024 < size) (hhigh : size ≤ 1152) (again : Bool) : Transfer where
  header := smallHeader size (by omega)
  wait := 2
  headerAgain := []
  deliveries := twoBlocks again
  lateEot := true
  wait_lt := by decide
  asked := by
    cases again with
    | false => exact ⟨0, rfl, 1, rfl, 1, rfl, trivial⟩
    | true => exact ⟨0, rfl, 0, rfl, 0, rfl, trivial⟩
  enough := hhigh.trans_eq (length_blocksData_twoBlocks again).symm
  filled := fun _ hfront hne => Nat.lt_of_le_of_lt (length_blocksData_lt hfront hne) hlow

/-- The function before its outer loop. -/
def topState : AsrDump := { asrStart (List.replicate frameSize 0) 0 0 0 (-1) [] with pc := .top }

/-- A file of 1152 bytes is saved though its header, its first block and its end are late, but not where the block
comes again. -/
theorem savesFile_iff_twoBlocks :
    SavesFile topState (twoBlockFile 1152 (by decide) (by decide) false) 3 ∧
      ¬ SavesFile topState (twoBlockFile 1152 (by decide) (by decide) true) 3 := by
  constructor
  · refine (savesFile_iff topState rfl _ 3 (by decide)).mpr ⟨(length_blocksData_twoBlocks false).symm, rfl, ?_⟩
    exact List.forall_mem_cons.mpr ⟨rfl, List.forall_mem_singleton.mpr rfl⟩
  · intro h
    have honce := ((savesFile_iff topState rfl _ 3 (by decide)).mp h).2.2
    exact absurd (honce _ List.mem_cons_self) (by decide)

/-- A file of 1025 bytes, of which 1152 are saved. -/
theorem not_savesFile :
    ¬ ∀ (s : AsrDump) (t : Transfer) (fd : Int), s.pc = .top → 0 < fd → SavesFile s t fd := by
  intro h
  obtain ⟨-, hfile⟩ := h topState (twoBlockFile 1025 (by decide) (by decide) false) 3 rfl (by decide)
  rw [(savedData_transfer rfl (twoBlockFile 1025 (by decide) (by decide) false) (by decide)).2] at hfile
  have hall := (Transfer.saved_eq_take_iff _).mp hfile
  have hsize : 1025 = (blocksData (twoBlocks false)).length := hall.1
  rw [length_blocksData_twoBlocks] at hsize
  exact absurd hsize (by decide)

end QLog.Ymodem
