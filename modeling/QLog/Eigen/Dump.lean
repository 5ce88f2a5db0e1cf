import QLog.Library.ByteBuffer
import QLog.Library.CNumber
import QLog.Library.History
import QLog.Library.LittleEndian

/-! # The RAM dump of the Eigen chips

`GetDumpDataUsb` asks for a memory cell block by block and appends what comes to the dump file; between two cells
`PaddingDumpFile` appends zeros. Every block is asked for until an answer with a matching check sum comes.

A request asks for `dwUsbMaxDataLen` bytes as long as at least so many remain, but also at first, when nobody has
looked at the size of the cell. And the answer is put together in a buffer that keeps the bytes of the answers
before it, so that its announced length may be an old one as long as fewer than eight bytes have come. -/

namespace QLog.Eigen

open Library

/-- `MAX_CMD_DATALEN` -/
def maxCmdDatalen : Nat := 512

/-- `MAX_RETRY_TIME` -/
def maxRetryTime : Nat := 32

/-- `dwUsbMaxDataLen` -/
def dwUsbMaxDataLen : Nat := maxCmdDatalen * 20

/-- `nRspHeaderCount` -/
def nRspHeaderCount : Nat := 8

/-! ## The check sum -/

/-- `wCRCTalbeAbs` -/
def wCRCTalbeAbs : List UInt16 :=
  [0x0000, 0xCC01, 0xD801, 0x1400, 0xF001, 0x3C00, 0x2800, 0xE401, 0xA001, 0x6C00, 0x7800, 0xB401, 0x5000, 0x9C01,
    0x8801, 0x4400]

/-- The round of `CRC16` for one half of a byte. -/
def crcHalf (wCRC : UInt16) (half : UInt8) : UInt16 :=
  wCRCTalbeAbs.getD ((half.toUInt16 ^^^ wCRC) &&& 15).toNat 0 ^^^ (wCRC >>> 4)

/-- `CRC16` -/
def crc16 (wCRC : UInt16) (pchMsg : List UInt8) (wDataLen : Nat) : UInt16 :=
  (pchMsg.take (wDataLen % 2 ^ 16)).foldl (fun crc b => crcHalf (crcHalf crc b) (b >>> 4)) wCRC

/-! ## Requests and answers -/

/-- `ReadDataReqCell` -/
structure ReadDataReqCell where
  readDataAddr : Nat
  readLen : Nat
deriving DecidableEq

/-- A command without its check sum: command, sequence number, the two channel ids, and the data with its length. -/
def reqHeader (command : UInt8) (uSeq : Nat) (data : List UInt8) : List UInt8 :=
  [command, UInt8.ofNat uSeq, 0xdc, 0x23] ++ leBytes 4 data.length ++ data

/-- The `data` of a `GetDataCmd`. -/
def getDataReq (uSeq : Nat) (c : ReadDataReqCell) : List UInt8 :=
  reqHeader 0x20 uSeq (leBytes 4 c.readDataAddr ++ leBytes 4 c.readLen)

/-- What is sent for the command `data`. -/
def sentBytes (data : List UInt8) : List UInt8 :=
  data ++ leBytes 4 (crc16 0xFFFF data data.length).toNat

/-- The cell that a `GetDataCmd` asks for. -/
def requestedCell (data : List UInt8) : ReadDataReqCell :=
  ⟨ofLeBytes (window data 8 12), ofLeBytes (window data 12 16)⟩

/-- `dataRsp->Length` -/
def rspLength (message : List UInt8) : Nat := ofLeBytes (window message 6 8)

/-- The comparison of the computed check sum with the low half of the received one. -/
def FcsMatches (message : List UInt8) : Prop :=
  (crc16 0xFFFF message (rspLength message + nRspHeaderCount)).toNat =
    ofLeBytes (window message (nRspHeaderCount + rspLength message) (nRspHeaderCount + rspLength message + 4)) % 2 ^ 16

instance (message : List UInt8) : Decidable (FcsMatches message) :=
  inferInstanceAs (Decidable (_ = _))

/-! ## The loops

The input of a step is what one `qlog_poll_read` has read; nothing has come where it is empty. -/

/-- The state while `GetDumpDataUsb` waits for an answer, for the cell `cell` with the cells `rest` behind it. -/
structure Dumping where
  cell : ReadDataReqCell
  rest : List ReadDataReqCell
  nReadLen : Nat
  nReadTime : Nat
  uSeq : Nat
  newReadData : ReadDataReqCell
  data : List UInt8
  message : List UInt8
  nPktIndex : Nat
  nRetry : Nat
  /-- `err_code == UE_OK` -/
  ok : Bool

inductive DumpState
  | run (d : Dumping)
  /-- `enigen_catch_dump` has returned. -/
  | returned (ret : Int)

inductive DumpEvent
  | sent (bytes : List UInt8)
  /-- `WriteData` -/
  | write (data : List UInt8)

/-- `PaddingDumpFile` -/
def paddingDumpFile (nLen : Int) : List DumpEvent :=
  if 0 < nLen then
    if maxCmdDatalen < nLen then
      .write (List.replicate maxCmdDatalen 0) :: paddingDumpFile (nLen - maxCmdDatalen)
    else [.write (List.replicate nLen.toNat 0)]
  else []
termination_by nLen.toNat
decreasing_by
  rw [maxCmdDatalen] at *
  omega

/-- What follows the loop of `GetDumpDataUsb` for a cell: the finish command behind the last one, else zeros up to
the next one. -/
def afterCell (uSeq : Nat) (c : ReadDataReqCell) : List ReadDataReqCell → List DumpEvent
  | [] => [.sent (sentBytes (reqHeader 0x25 uSeq []))]
  | next :: _ => paddingDumpFile (toInt32 (sub32 next.readDataAddr ((c.readLen + c.readDataAddr) % 2 ^ 32)))

/-- `GetDumpDataUsb` as it sends its first request. -/
def firstRequest (c : ReadDataReqCell) (rest : List ReadDataReqCell) : Dumping where
  cell := c
  rest := rest
  nReadLen := 0
  nReadTime := 0
  uSeq := 1
  newReadData := ⟨c.readDataAddr, dwUsbMaxDataLen⟩
  data := getDataReq 1 ⟨c.readDataAddr, dwUsbMaxDataLen⟩
  message := List.replicate 65535 0
  nPktIndex := 0
  nRetry := 0
  ok := true

/-- The loop of `enigen_catch_dump` from a cell on; a cell without bytes is passed over. -/
def dumpCells : List ReadDataReqCell → DumpState × List DumpEvent
  | [] => (.returned 1, [])
  | c :: rest =>
      if 0 < c.readLen then (.run (firstRequest c rest), [.sent (sentBytes (firstRequest c rest).data)])
      else prepend (afterCell 1 c rest) (dumpCells rest)

/-- The loop of `GetDumpDataUsb` goes on with a request, or the function returns. -/
def nextRequest (d : Dumping) : DumpState × List DumpEvent :=
  -- every retry sends the same request once more
  if d.nReadLen < d.cell.readLen ∧ 0 < d.cell.readLen ∧ d.nReadTime < maxRetryTime / 2 then
    let data := getDataReq d.uSeq d.newReadData
    (.run { d with data := data, nPktIndex := 0, nRetry := 0, ok := true }, [.sent (sentBytes data)])
  else if maxRetryTime / 2 ≤ d.nReadTime then (.returned (-1), [])
  else prepend (afterCell d.uSeq d.cell d.rest) (dumpCells d.rest)

/-- The state behind an answer with a matching check sum. -/
def accepted (d : Dumping) : Dumping :=
  -- `u32` arithmetic throughout
  let nReadLen := (d.nReadLen + rspLength d.message) % 2 ^ 32
  let remaining := sub32 d.cell.readLen nReadLen
  { d with
    nReadLen := nReadLen
    uSeq := d.uSeq + 1
    newReadData :=
      ⟨(d.newReadData.readDataAddr + rspLength d.message) % 2 ^ 32,
        -- the size only ever gets smaller: nobody has compared it with the size of the cell at first
        if remaining < dwUsbMaxDataLen then remaining else d.newReadData.readLen⟩
    nReadTime := 0 }

/-- The check of an answer. -/
def checkAnswer (d : Dumping) : DumpState × List DumpEvent :=
  if FcsMatches d.message then
    prepend [.write (window d.message nRspHeaderCount (nRspHeaderCount + rspLength d.message))]
      (nextRequest (accepted d))
  -- the check sum does not match: one more of `MAX_RETRY_TIME / 2` tries
  else nextRequest { d with nReadTime := d.nReadTime + 1 }

/-- The body of the receive loop. -/
def receive (d : Dumping) (chunk : List UInt8) : Dumping :=
  if chunk = [] then { d with nRetry := d.nRetry + 1, ok := false }
  else
    -- `message` is not cleared between two answers
    { d with
      message := overwrite d.message d.nPktIndex chunk
      nPktIndex := d.nPktIndex + chunk.length
      ok := true }

/-- The receive loop is left after `chunk`, by the break in its body or by its condition. -/
def Leaves (d : Dumping) (chunk : List UInt8) : Prop :=
  (chunk ≠ [] ∧ d.newReadData.readLen < rspLength d.message) ∨
    ¬ (d.nPktIndex < d.newReadData.readLen + 12 ∧ d.nRetry < maxRetryTime / 4)

instance (d : Dumping) (chunk : List UInt8) : Decidable (Leaves d chunk) :=
  inferInstanceAs (Decidable (_ ∨ _))

/-- One read of the loops. -/
def dumpStep : DumpState → List UInt8 → DumpState × List DumpEvent
  | .returned ret, _ => (.returned ret, [])
  | .run d, chunk =>
      let d := receive d chunk
      if Leaves d chunk then
        -- no answer has come in time, and `nReadTime` does not count that
        if d.ok = false ∨ maxRetryTime / 4 ≤ d.nRetry then nextRequest d else checkAnswer d
      else (.run d, [])

/-- The loop of `enigen_catch_dump` over the cells of the table, with the results of the reads. -/
def enigenCatchDump (table : List ReadDataReqCell) (reads : List (List UInt8)) : DumpState × List DumpEvent :=
  prepend (dumpCells table).2 (runSteps dumpStep (dumpCells table).1 reads)

/-- The bytes of the dump file. -/
def dumpFile (events : List DumpEvent) : List UInt8 :=
  events.flatMap fun
    | .sent _ => []
    | .write data => data

/-! ## The device and the image -/

/-- An answer with data and its check sum; nobody looks at the first six bytes. -/
def dataRsp (header : Block 6) (data : List UInt8) : List UInt8 :=
  let message := header.1 ++ leBytes 2 data.length ++ data
  message ++ leBytes 4 (crc16 0xFFFF message message.length).toNat

/-- What the message buffer holds after `reads`. -/
def messageAfter (d : Dumping) (reads : List (List UInt8)) : List UInt8 :=
  overwrite d.message 0 reads.flatten

/-- An answer that comes before the receive loop gives up. -/
structure InTime (reads : List (List UInt8)) : Prop where
  retries : reads.count [] < maxRetryTime / 4
  last : reads.getLast? ≠ some []

/-- What the reads after a request bring of the answer to it. -/
inductive Answer (mem : Nat → UInt8) (d : Dumping) (reads : List (List UInt8)) : Prop
  /-- The bytes asked for. -/
  | data (header : Block 6)
      (bytes : reads.flatten = dataRsp header
        (memoryRange mem (requestedCell d.data).readDataAddr (requestedCell d.data).readLen))
      (inTime : InTime reads)
  /-- An answer of the same size whose check sum does not match. -/
  | corrupted (size : reads.flatten.length = (requestedCell d.data).readLen + 12)
      (fcs : ¬ FcsMatches (messageAfter d reads)) (inTime : InTime reads)
  /-- A part of an answer at most. -/
  | lost (size : reads.flatten.length < (requestedCell d.data).readLen + 12)
      (retries : reads.count [] = maxRetryTime / 4) (last : reads.getLast? = some [])

def DeviceAnswers (mem : Nat → UInt8) : DumpState → List (List UInt8) → Prop
  | .run d, reads => Answer mem d reads
  | .returned _, _ => True

/-- At no read before the last one of an answer does the length in the message buffer, of which some bytes may be
older, exceed the length asked for. -/
def Settled : DumpState → List (List UInt8) → Prop
  | .run d, reads => ∀ front, front <+: reads → front ≠ reads → front.flatten ≠ [] →
      rspLength (messageAfter d front) ≤ d.newReadData.readLen
  | .returned _, _ => True

/-- The reads of one answer. -/
def exchange (s : DumpState) (reads : List (List UInt8)) : DumpState × List DumpEvent := runSteps dumpStep s reads

/-- A cell lies in the 32-bit address space and is not empty. -/
structure ReadDataReqCell.InMemory (c : ReadDataReqCell) : Prop where
  pos : 0 < c.readLen
  lt : c.readLen < 2 ^ 32
  le : c.readDataAddr + c.readLen ≤ 2 ^ 32

/-- The next cell lies behind this one, by a gap of less than 2 GiB. -/
def ReadDataReqCell.Before (c next : ReadDataReqCell) : Prop :=
  c.readDataAddr + c.readLen ≤ next.readDataAddr ∧ next.readDataAddr - (c.readDataAddr + c.readLen) < 2 ^ 31

/-- A table of ascending cells that do not overlap. -/
structure CellTable (table : List ReadDataReqCell) : Prop where
  inMemory : ∀ c ∈ table, c.InMemory
  ascending : table.IsChain ReadDataReqCell.Before

/-- Where the last cell ends. -/
def lastEnd : List ReadDataReqCell → Nat
  | [] => 0
  | [c] => c.readDataAddr + c.readLen
  | _ :: rest => lastEnd rest

/-- The memory from the first cell to the end of the last one, with zeros between the cells. -/
def image (mem : Nat → UInt8) : List ReadDataReqCell → List UInt8
  | [] => []
  | c :: rest =>
      -- an address of a cell holds its byte, any other one a zero
      (List.range' c.readDataAddr (lastEnd (c :: rest) - c.readDataAddr)).map fun x =>
        if ∃ c' ∈ c :: rest, c'.readDataAddr ≤ x ∧ x < c'.readDataAddr + c'.readLen then mem x else 0

/-! ## Receiving -/

/-- The state after `reads` have been received, with the last `err_code`. -/
def received (d : Dumping) (reads : List (List UInt8)) (ok : Bool) : Dumping :=
  { d with
    message := messageAfter d reads
    nPktIndex := reads.flatten.length
    nRetry := reads.count []
    ok := ok }

section Receive

variable {d : Dumping} {reads : List (List UInt8)}

theorem receive_received (ok : Bool) (chunk : List UInt8) :
    receive (received d reads ok) chunk = received d (reads ++ [chunk]) (decide (chunk ≠ [])) := by
  by_cases hchunk : chunk = []
  · subst hchunk
    simp [receive, received, messageAfter]
  · have hcount : (reads ++ [chunk]).count [] = reads.count [] := by
      simp [List.count_append, hchunk]
    simp [receive, received, messageAfter, hchunk, hcount, overwrite_overwrite, -List.length_flatten]

theorem runSteps_received_snoc {front : List (List UInt8)} {chunk : List UInt8} {ok : Bool}
    (hrun : runSteps dumpStep (.run d) front = (.run (received d front ok), [])) :
    runSteps dumpStep (.run d) (front ++ [chunk]) =
      let d' := received d (front ++ [chunk]) (decide (chunk ≠ []))
      if Leaves d' chunk then
        if d'.ok = false ∨ maxRetryTime / 4 ≤ d'.nRetry then nextRequest d' else checkAnswer d'
      else (.run d', []) := by
  rw [runSteps_append, hrun, prepend, runSteps_singleton, dumpStep, receive_received, List.nil_append]

/-- As long as bytes are missing, there is time, and the length seen is not too large, the loop goes on. -/
theorem receiving (hidx : d.nPktIndex = 0) (hretry : d.nRetry = 0) (reads : List (List UInt8))
    (hlen : reads.flatten.length < d.newReadData.readLen + 12) (hcount : reads.count [] < maxRetryTime / 4)
    (hsettled : ∀ front, front <+: reads → front.flatten ≠ [] →
      rspLength (messageAfter d front) ≤ d.newReadData.readLen) :
    ∃ ok, runSteps dumpStep (.run d) reads = (.run (received d reads ok), []) := by
  induction reads using List.reverseRecOn with
  | nil =>
      refine ⟨d.ok, ?_⟩
      have hself : received d [] d.ok = d := by
        cases d
        simp only at hidx hretry
        simp [received, messageAfter, overwrite_zero, hidx, hretry]
      rw [hself, runSteps_nil]
  | append_singleton front chunk ih =>
      have hfront : front.flatten.length ≤ (front ++ [chunk]).flatten.length := by
        rw [List.flatten_append, List.length_append]
        exact Nat.le_add_right _ _
      have hfrontCount : front.count [] ≤ (front ++ [chunk]).count [] := by
        rw [List.count_append]
        exact Nat.le_add_right _ _
      obtain ⟨ok, hrun⟩ := ih (by omega) (by omega) fun front' hpre =>
        hsettled front' (hpre.trans (List.prefix_append front [chunk]))
      have hstays : ¬ Leaves (received d (front ++ [chunk]) (decide (chunk ≠ []))) chunk := by
        rintro (⟨hchunk, hlarge⟩ | hover)
        · have hne : (front ++ [chunk]).flatten ≠ [] := by
            simp [hchunk]
          exact Nat.not_lt.mpr (hsettled _ (List.prefix_refl _) hne) hlarge
        · exact hover ⟨hlen, hcount⟩
      refine ⟨decide (chunk ≠ []), ?_⟩
      rw [runSteps_received_snoc hrun, if_neg hstays]

/-- The state before the last read of an answer. -/
theorem receiving_front {front : List (List UInt8)} {chunk : List UInt8} (hidx : d.nPktIndex = 0)
    (hretry : d.nRetry = 0) (hlen : front.flatten.length < d.newReadData.readLen + 12)
    (hcount : front.count [] < maxRetryTime / 4) (hsettled : Settled (.run d) (front ++ [chunk])) :
    ∃ ok, runSteps dumpStep (.run d) front = (.run (received d front ok), []) := by
  refine receiving hidx hretry front hlen hcount fun front' hpre hne => ?_
  refine hsettled front' (hpre.trans (List.prefix_append front [chunk])) ?_ hne
  rintro rfl
  have hle := hpre.length_le
  rw [List.length_append, List.length_singleton] at hle
  omega

/-- An answer that has come whole and in time is checked. -/
theorem exchange_whole (hidx : d.nPktIndex = 0) (hretry : d.nRetry = 0)
    (hsize : reads.flatten.length = d.newReadData.readLen + 12) (htime : InTime reads)
    (hsettled : Settled (.run d) reads) : exchange (.run d) reads = checkAnswer (received d reads true) := by
  rcases List.eq_nil_or_concat reads with rfl | ⟨front, chunk, rfl⟩
  · simp at hsize
  rw [List.concat_eq_append] at *
  have hchunk : chunk ≠ [] := by
    rintro rfl
    exact htime.last (by simp)
  have hpos := List.length_pos_iff.mpr hchunk
  have hcount : front.count [] = (front ++ [chunk]).count [] := by
    simp [List.count_append, hchunk]
  have hretries := htime.retries
  have hflat : (front ++ [chunk]).flatten.length = front.flatten.length + chunk.length := by
    rw [List.flatten_append, List.length_append, List.flatten_singleton]
  obtain ⟨ok, hrun⟩ := receiving_front hidx hretry (by omega) (by omega) hsettled
  have hleaves : Leaves (received d (front ++ [chunk]) true) chunk := by
    refine Or.inr fun h => ?_
    have hlt : (front ++ [chunk]).flatten.length < d.newReadData.readLen + 12 := h.1
    omega
  have hgood : ¬ (true = false ∨ maxRetryTime / 4 ≤ (front ++ [chunk]).count []) := by
    simp only [Bool.true_eq_false, false_or]
    omega
  rw [exchange, runSteps_received_snoc hrun, decide_eq_true hchunk]
  dsimp only
  rw [if_pos hleaves]
  exact if_neg hgood

/-- An answer that stops too early is asked for again. -/
theorem exchange_lost (hidx : d.nPktIndex = 0) (hretry : d.nRetry = 0)
    (hsize : reads.flatten.length < d.newReadData.readLen + 12) (hcount : reads.count [] = maxRetryTime / 4)
    (hlast : reads.getLast? = some []) (hsettled : Settled (.run d) reads) :
    exchange (.run d) reads = nextRequest (received d reads false) := by
  rcases List.eq_nil_or_concat reads with rfl | ⟨front, chunk, rfl⟩
  · simp at hlast
  rw [List.concat_eq_append] at *
  obtain rfl : chunk = [] := by
    simpa using hlast
  have hfront : front.count [] + 1 = maxRetryTime / 4 := by
    rw [← hcount, List.count_append, List.count_singleton_self]
  have hflat : (front ++ [[]]).flatten.length = front.flatten.length := by
    rw [List.flatten_append, List.length_append, List.flatten_singleton, List.length_nil, Nat.add_zero]
  obtain ⟨ok, hrun⟩ := receiving_front hidx hretry (by omega) (by omega) hsettled
  have hleaves : Leaves (received d (front ++ [[]]) false) [] :=
    Or.inr fun h => Nat.lt_irrefl _ (Nat.lt_of_lt_of_eq h.2 hcount.symm)
  have hnone : decide (([] : List UInt8) ≠ []) = false := rfl
  rw [exchange, runSteps_received_snoc hrun, hnone]
  dsimp only
  rw [if_pos hleaves]
  exact if_pos (Or.inl rfl)

end Receive

/-! ## What requests and answers carry -/

/-- The device reads from a request what the client put into it. -/
theorem requestedCell_getDataReq (uSeq : Nat) {c : ReadDataReqCell} (haddr : c.readDataAddr < 2 ^ 32)
    (hlen : c.readLen < 2 ^ 32) : requestedCell (getDataReq uSeq c) = c := by
  set front := [(0x20 : UInt8), UInt8.ofNat uSeq, 0xdc, 0x23] ++ leBytes 4 8 with hfrontDef
  have hfront : front.length = 8 := by
    rw [hfrontDef, List.length_append, length_leBytes]
    rfl
  have hdata : getDataReq uSeq c = front ++ leBytes 4 c.readDataAddr ++ leBytes 4 c.readLen := by
    rw [getDataReq, reqHeader, List.length_append, length_leBytes, length_leBytes, List.append_assoc front]
  have haddr' : window (getDataReq uSeq c) 8 12 = leBytes 4 c.readDataAddr := by
    have h := window_mid front (leBytes 4 c.readDataAddr) (leBytes 4 c.readLen)
    rwa [← hdata, hfront, length_leBytes] at h
  have hlen' : window (getDataReq uSeq c) 12 16 = leBytes 4 c.readLen := by
    have h := window_mid (front ++ leBytes 4 c.readDataAddr) (leBytes 4 c.readLen) []
    rwa [List.append_nil, ← hdata, List.length_append, hfront, length_leBytes, length_leBytes] at h
  rw [requestedCell, haddr', hlen', ofLeBytes_leBytes 4 _ haddr, ofLeBytes_leBytes 4 _ hlen]

section DataRsp

variable {header : Block 6} {data : List UInt8}

theorem length_dataRsp : (dataRsp header data).length = data.length + 12 := by
  have hheader := header.2
  simp only [dataRsp, List.length_append, length_leBytes]
  omega

theorem rspLength_dataRsp (hdata : data.length < 2 ^ 16) (more : List UInt8) :
    rspLength (dataRsp header data ++ more) = data.length := by
  have hwindow : window (dataRsp header data ++ more) 6 8 = leBytes 2 data.length := by
    have h := window_mid header.1 (leBytes 2 data.length)
      (data ++ (leBytes 4 (crc16 0xFFFF (header.1 ++ leBytes 2 data.length ++ data)
        (header.1 ++ leBytes 2 data.length ++ data).length).toNat ++ more))
    rw [header.2, length_leBytes] at h
    rw [dataRsp, List.append_assoc, List.append_assoc]
    exact h
  rw [rspLength, hwindow, ofLeBytes_leBytes 2 _ hdata]

theorem window_dataRsp (more : List UInt8) :
    window (dataRsp header data ++ more) nRspHeaderCount (nRspHeaderCount + data.length) = data := by
  have hfront : (header.1 ++ leBytes 2 data.length).length = nRspHeaderCount := by
    rw [List.length_append, header.2, length_leBytes]
    rfl
  have h := window_mid (header.1 ++ leBytes 2 data.length) data
    (leBytes 4 (crc16 0xFFFF (header.1 ++ leBytes 2 data.length ++ data)
      (header.1 ++ leBytes 2 data.length ++ data).length).toNat ++ more)
  rw [hfront] at h
  rw [dataRsp, List.append_assoc]
  exact h

/-- The check sum of an answer with data, as it is computed and as it is received. -/
theorem crc16_dataRsp (hdata : data.length + 8 < 2 ^ 16) (more : List UInt8) :
    (crc16 0xFFFF (dataRsp header data ++ more)
        (rspLength (dataRsp header data ++ more) + nRspHeaderCount)).toNat =
      ofLeBytes (window (dataRsp header data ++ more) (nRspHeaderCount + rspLength (dataRsp header data ++ more))
        (nRspHeaderCount + rspLength (dataRsp header data ++ more) + 4)) := by
  set message := header.1 ++ leBytes 2 data.length ++ data with hmessage
  have hlength : message.length = nRspHeaderCount + data.length := by
    rw [hmessage, List.length_append, List.length_append, header.2, length_leBytes]
    rfl
  have hsplit : dataRsp header data ++ more =
      message ++ leBytes 4 (crc16 0xFFFF message message.length).toNat ++ more := rfl
  have hcrc : crc16 0xFFFF (dataRsp header data ++ more) (data.length + nRspHeaderCount) =
      crc16 0xFFFF message message.length := by
    have hmod : (data.length + nRspHeaderCount) % 2 ^ 16 = message.length := by
      rw [hlength, Nat.add_comm]
      exact Nat.mod_eq_of_lt (by rw [nRspHeaderCount]; omega)
    have hmod' : message.length % 2 ^ 16 = message.length :=
      Nat.mod_eq_of_lt (by rw [hlength, nRspHeaderCount]; omega)
    rw [crc16, crc16, hmod, hmod', hsplit, List.append_assoc, List.take_left, List.take_length]
  have hfcs : window (dataRsp header data ++ more) (nRspHeaderCount + data.length)
      (nRspHeaderCount + data.length + 4) = leBytes 4 (crc16 0xFFFF message message.length).toNat := by
    have h := window_mid message (leBytes 4 (crc16 0xFFFF message message.length).toNat) more
    rw [← hlength]
    rwa [← hsplit, length_leBytes] at h
  have hlt : (crc16 0xFFFF message message.length).toNat < 2 ^ 16 := UInt16.toNat_lt _
  rw [rspLength_dataRsp (by omega), hcrc, hfcs, ofLeBytes_leBytes 4 _ (by omega)]

/-- The check sum of an answer with data matches. -/
theorem fcsMatches_dataRsp (hdata : data.length + 8 < 2 ^ 16) (more : List UInt8) :
    FcsMatches (dataRsp header data ++ more) := by
  rw [FcsMatches, ← crc16_dataRsp hdata more]
  exact (Nat.mod_eq_of_lt (UInt16.toNat_lt _)).symm

end DataRsp

end QLog.Eigen
