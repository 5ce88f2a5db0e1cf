import QLog.Eigen.Dump

/-! # The image in the dump file

A block is at the right place when everything before it has the right length. What the loops write is known for any
table of cells, `written`; it is the image of the memory exactly when no cell is smaller than a block. -/

namespace QLog.Eigen

open Library

/-! ## What is written -/

@[simp] theorem dumpFile_nil : dumpFile [] = [] := rfl

@[simp] theorem dumpFile_append (a b : List DumpEvent) : dumpFile (a ++ b) = dumpFile a ++ dumpFile b :=
  List.flatMap_append

@[simp] theorem dumpFile_sent (bytes : List UInt8) (events : List DumpEvent) :
    dumpFile (.sent bytes :: events) = dumpFile events := rfl

@[simp] theorem dumpFile_write (data : List UInt8) (events : List DumpEvent) :
    dumpFile (.write data :: events) = data ++ dumpFile events := rfl

theorem dumpFile_paddingDumpFile (nLen : Int) :
    dumpFile (paddingDumpFile nLen) = List.replicate nLen.toNat 0 := by
  induction nLen using paddingDumpFile.induct with
  | case1 nLen hpos hlarge ih =>
      have hsplit : nLen.toNat = maxCmdDatalen + (nLen - maxCmdDatalen).toNat := by
        rw [maxCmdDatalen] at *
        omega
      rw [paddingDumpFile, if_pos hpos, if_pos hlarge, dumpFile_write, ih, hsplit, List.replicate_add]
  | case2 nLen hpos hsmall =>
      rw [paddingDumpFile, if_pos hpos, if_neg hsmall, dumpFile_write, dumpFile_nil, List.append_nil]
  | case3 nLen hneg =>
      rw [paddingDumpFile, if_neg hneg, Int.toNat_of_nonpos (Int.not_lt.mp hneg)]
      rfl

/-- The zeros between a cell and the next one. -/
def gapAfter (c : ReadDataReqCell) : List ReadDataReqCell → List UInt8
  | [] => []
  | next :: _ => List.replicate (next.readDataAddr - (c.readDataAddr + c.readLen)) 0

/-- How many bytes are asked for of a cell. -/
def dumpedLen (c : ReadDataReqCell) : Nat := max c.readLen dwUsbMaxDataLen

/-- What is written for a table. -/
def written (mem : Nat → UInt8) : List ReadDataReqCell → List UInt8
  | [] => []
  | c :: rest => memoryRange mem c.readDataAddr (dumpedLen c) ++ gapAfter c rest ++ written mem rest

theorem CellTable.tail {c : ReadDataReqCell} {rest : List ReadDataReqCell} (h : CellTable (c :: rest)) :
    CellTable rest :=
  ⟨fun c' hc' => h.inMemory c' (List.mem_cons_of_mem c hc'), h.ascending.tail⟩

theorem CellTable.head {c : ReadDataReqCell} {rest : List ReadDataReqCell} (h : CellTable (c :: rest)) :
    c.InMemory :=
  h.inMemory c List.mem_cons_self

theorem dumpFile_afterCell (uSeq : Nat) {c : ReadDataReqCell} {rest : List ReadDataReqCell}
    (h : CellTable (c :: rest)) : dumpFile (afterCell uSeq c rest) = gapAfter c rest := by
  cases rest with
  | nil => rfl
  | cons next rest =>
      obtain ⟨hle, hgap⟩ := (List.isChain_cons_cons.mp h.ascending).1
      have hnext := h.tail.head
      have hpos := hnext.pos
      have htop := hnext.le
      have hsub : sub32 next.readDataAddr ((c.readLen + c.readDataAddr) % 2 ^ 32) =
          next.readDataAddr - (c.readDataAddr + c.readLen) := by
        rw [sub32]
        omega
      rw [afterCell, dumpFile_paddingDumpFile, hsub, toInt32, if_pos hgap, gapAfter, Int.toNat_natCast]

/-! ## The invariant of the dump -/

/-- What is known of a cell while it is dumped: the next request goes on where the last one ended, and the file
followed by what is still to come is what is to be written. -/
structure Progress (mem : Nat → UInt8) (table : List ReadDataReqCell) (d : Dumping) (file : List UInt8) :
    Prop where
  cells : CellTable (d.cell :: d.rest)
  request : d.nReadLen < d.cell.readLen →
    d.newReadData =
      ⟨d.cell.readDataAddr + d.nReadLen, min dwUsbMaxDataLen (dumpedLen d.cell - d.nReadLen)⟩
  finished : d.cell.readLen ≤ d.nReadLen → d.nReadLen = dumpedLen d.cell
  file : file ++ memoryRange mem (d.cell.readDataAddr + d.nReadLen) (dumpedLen d.cell - d.nReadLen) ++
    (gapAfter d.cell d.rest ++ written mem d.rest) = written mem table

/-- A request has been sent and no answer has come yet. -/
structure Requested (mem : Nat → UInt8) (table : List ReadDataReqCell) (d : Dumping) (file : List UInt8) : Prop
    extends Progress mem table d file where
  unread : d.nReadLen < d.cell.readLen
  nPktIndex : d.nPktIndex = 0
  nRetry : d.nRetry = 0
  data : requestedCell d.data = d.newReadData

/-- The invariant between two exchanges. -/
def DumpInv (mem : Nat → UInt8) (table : List ReadDataReqCell) : DumpState → List DumpEvent → Prop
  | .run d, events => Requested mem table d (dumpFile events)
  | .returned ret, events => ret = 1 → dumpFile events = written mem table

section Invariant

variable {mem : Nat → UInt8} {table : List ReadDataReqCell} {d : Dumping} {events : List DumpEvent}

theorem newReadData_lt {file : List UInt8} (h : Progress mem table d file) (hunread : d.nReadLen < d.cell.readLen) :
    d.newReadData.readDataAddr < 2 ^ 32 ∧ d.newReadData.readLen ≤ dwUsbMaxDataLen := by
  have hle := h.cells.head.le
  rw [h.request hunread]
  exact ⟨by show d.cell.readDataAddr + d.nReadLen < 2 ^ 32; omega, Nat.min_le_left _ _⟩

theorem dumpCells_inv (cells : List ReadDataReqCell) (hcells : CellTable cells)
    (hfile : dumpFile events ++ written mem cells = written mem table) :
    DumpInv mem table (dumpCells cells).1 (events ++ (dumpCells cells).2) := by
  cases cells with
  | nil =>
      intro
      rw [dumpCells, List.append_nil]
      rwa [written, List.append_nil] at hfile
  | cons c rest =>
      have hmem := hcells.head
      have hpos := hmem.pos
      have htop := hmem.le
      rw [dumpCells, if_pos hpos]
      have haddr : c.readDataAddr < 2 ^ 32 := by omega
      refine ⟨⟨hcells, ?_, ?_, ?_⟩, hpos, rfl, rfl, ?_⟩
      · intro
        have hlen : min dwUsbMaxDataLen (dumpedLen c - 0) = dwUsbMaxDataLen :=
          Nat.min_eq_left (Nat.le_max_right _ _)
        show (⟨c.readDataAddr, dwUsbMaxDataLen⟩ : ReadDataReqCell) =
          ⟨c.readDataAddr + 0, min dwUsbMaxDataLen (dumpedLen c - 0)⟩
        rw [hlen, Nat.add_zero]
      · intro hle
        exact absurd hle (Nat.not_le.mpr hpos)
      · rw [dumpFile_append, dumpFile_sent, dumpFile_nil, List.append_nil, ← hfile, written, List.append_assoc,
          List.append_assoc]
        rfl
      · exact requestedCell_getDataReq 1 haddr (show dwUsbMaxDataLen < 2 ^ 32 by decide)

/-- The loop goes on with the cell, or with the next one when all of it has come. -/
theorem nextRequest_inv (h : Progress mem table d (dumpFile events)) :
    DumpInv mem table (nextRequest d).1 (events ++ (nextRequest d).2) := by
  rw [nextRequest]
  split
  · next hloop =>
      obtain ⟨haddr, hlen⟩ := newReadData_lt h hloop.1
      have hlt : d.newReadData.readLen < 2 ^ 32 := Nat.lt_of_le_of_lt hlen (by decide)
      have hfile : dumpFile (events ++ [.sent (sentBytes (getDataReq d.uSeq d.newReadData))]) = dumpFile events := by
        simp
      exact ⟨⟨h.cells, h.request, h.finished, by rw [hfile]; exact h.file⟩, hloop.1, rfl, rfl,
        requestedCell_getDataReq d.uSeq haddr hlt⟩
  · next hloop =>
      split
      · intro hret
        cases hret
      · next hretries =>
          have hpos := h.cells.head.pos
          -- the retries are not used up, so the cell has been read
          have hle : d.cell.readLen ≤ d.nReadLen := by
            by_contra hlt
            exact hloop ⟨by omega, hpos, by omega⟩
          have hfile := h.file
          rw [h.finished hle, Nat.sub_self, memoryRange_zero, List.append_nil,
            ← List.append_assoc] at hfile
          have hrest : dumpFile (events ++ afterCell d.uSeq d.cell d.rest) ++ written mem d.rest =
              written mem table := by
            rw [dumpFile_append, dumpFile_afterCell d.uSeq h.cells, hfile]
          rw [prepend_fst, prepend_snd, ← List.append_assoc]
          exact dumpCells_inv d.rest h.cells.tail hrest

/-- Behind a block the thread has read on to its end, which lies in what is asked for of the cell. -/
theorem nReadLen_accepted {file : List UInt8} (h : Progress mem table d file) (hunread : d.nReadLen < d.cell.readLen)
    (hlen : rspLength d.message = d.newReadData.readLen) :
    (accepted d).nReadLen = d.nReadLen + d.newReadData.readLen ∧ (accepted d).nReadLen ≤ dumpedLen d.cell := by
  have hlt := h.cells.head.lt
  have hL : dumpedLen d.cell = max d.cell.readLen 10240 := rfl
  have hblock : d.newReadData.readLen = min 10240 (dumpedLen d.cell - d.nReadLen) := by
    rw [h.request hunread]
    rfl
  rw [accepted, hlen]
  dsimp only
  omega

/-- The next request goes on where the block ended. -/
theorem newReadData_accepted {file : List UInt8} (h : Progress mem table d file) (hunread : d.nReadLen < d.cell.readLen)
    (hlen : rspLength d.message = d.newReadData.readLen) (hmore : (accepted d).nReadLen < d.cell.readLen) :
    (accepted d).newReadData = ⟨d.cell.readDataAddr + (accepted d).nReadLen,
      min dwUsbMaxDataLen (dumpedLen d.cell - (accepted d).nReadLen)⟩ := by
  obtain ⟨hread, -⟩ := nReadLen_accepted h hunread hlen
  have hlt := h.cells.head.lt
  have htop := h.cells.head.le
  have hreq := h.request hunread
  have hL : dumpedLen d.cell = max d.cell.readLen 10240 := rfl
  have hmax : dwUsbMaxDataLen = 10240 := rfl
  have hnext : (accepted d).newReadData = ⟨(d.newReadData.readDataAddr + d.newReadData.readLen) % 2 ^ 32,
      if sub32 d.cell.readLen (accepted d).nReadLen < dwUsbMaxDataLen then sub32 d.cell.readLen (accepted d).nReadLen
      else d.newReadData.readLen⟩ := by
    rw [accepted, hlen]
  have hremaining : sub32 d.cell.readLen (accepted d).nReadLen = d.cell.readLen - (accepted d).nReadLen := by
    rw [sub32]
    omega
  have haddr : d.newReadData.readDataAddr = d.cell.readDataAddr + d.nReadLen := by rw [hreq]
  have hblock : d.newReadData.readLen = min dwUsbMaxDataLen (dumpedLen d.cell - d.nReadLen) := by rw [hreq]
  rw [hnext, hremaining, ReadDataReqCell.mk.injEq]
  constructor
  · omega
  · -- a block shorter than the largest is the last one
    split <;> omega

/-- A block of the memory has come. -/
theorem accepted_progress (h : Progress mem table d (dumpFile events)) (hunread : d.nReadLen < d.cell.readLen)
    (hlen : rspLength d.message = d.newReadData.readLen) :
    Progress mem table (accepted d)
      (dumpFile (events ++ [.write (memoryRange mem d.newReadData.readDataAddr d.newReadData.readLen)])) := by
  obtain ⟨hread, hle⟩ := nReadLen_accepted h hunread hlen
  have haddr : d.newReadData.readDataAddr = d.cell.readDataAddr + d.nReadLen := by rw [h.request hunread]
  refine ⟨h.cells, fun hmore => newReadData_accepted h hunread hlen hmore, ?_, ?_⟩
  · intro hall
    have hall' : d.cell.readLen ≤ (accepted d).nReadLen := hall
    have hL : dumpedLen d.cell = max d.cell.readLen 10240 := rfl
    have hblock : d.newReadData.readLen = min 10240 (dumpedLen d.cell - d.nReadLen) := by
      rw [h.request hunread]
      rfl
    show (accepted d).nReadLen = dumpedLen d.cell
    omega
  · have hrest : dumpedLen d.cell - d.nReadLen =
        d.newReadData.readLen + (dumpedLen d.cell - (accepted d).nReadLen) := by omega
    -- what is still to come starts with the block
    have hsplit : memoryRange mem (d.cell.readDataAddr + d.nReadLen) (dumpedLen d.cell - d.nReadLen) =
        memoryRange mem d.newReadData.readDataAddr d.newReadData.readLen ++
          memoryRange mem (d.cell.readDataAddr + (accepted d).nReadLen)
            (dumpedLen d.cell - (accepted d).nReadLen) := by
      rw [hread, ← Nat.add_assoc, ← haddr, memoryRange_append, ← hread, ← hrest]
    have hfile := h.file
    rw [hsplit] at hfile
    show dumpFile _ ++ memoryRange mem (d.cell.readDataAddr + (accepted d).nReadLen)
      (dumpedLen d.cell - (accepted d).nReadLen) ++ (gapAfter d.cell d.rest ++ written mem d.rest) = _
    rw [dumpFile_append, dumpFile_write, dumpFile_nil, List.append_nil, ← hfile]
    simp only [List.append_assoc]

/-- The answer with the bytes `block` is taken as such, and they are written. -/
theorem checkAnswer_dataRsp {header : Block 6} {block : List UInt8}
    {reads : List (List UInt8)} (hbytes : reads.flatten = dataRsp header block) (hsmall : block.length + 8 < 2 ^ 16) :
    rspLength (messageAfter d reads) = block.length ∧
      checkAnswer (received d reads true) =
        prepend [.write block] (nextRequest (accepted (received d reads true))) := by
  have hmessage : messageAfter d reads = dataRsp header block ++ d.message.drop reads.flatten.length := by
    rw [messageAfter, overwrite_zero, hbytes]
  have hrsp : rspLength (messageAfter d reads) = block.length := by
    rw [hmessage, rspLength_dataRsp (by omega)]
  have hfcs : FcsMatches (messageAfter d reads) := by
    rw [hmessage]
    exact fcsMatches_dataRsp hsmall _
  have hdata : window (messageAfter d reads) nRspHeaderCount
      (nRspHeaderCount + rspLength (messageAfter d reads)) = block := by
    rw [hrsp, hmessage]
    exact window_dataRsp _
  refine ⟨hrsp, ?_⟩
  rw [← hdata]
  exact if_pos hfcs

theorem runSteps_returned (ret : Int) (reads : List (List UInt8)) :
    runSteps dumpStep (.returned ret) reads = (.returned ret, []) := by
  induction reads with
  | nil => rfl
  | cons chunk reads ih =>
      rw [runSteps_cons, dumpStep, ih]
      rfl

/-- Whether an answer with data comes, a corrupted one or none, the dump stays on its way. -/
theorem exchange_inv (s : DumpState) (events : List DumpEvent) (reads : List (List UInt8))
    (h : DumpInv mem table s events) (hcond : DeviceAnswers mem s reads ∧ Settled s reads) :
    DumpInv mem table (exchange s reads).1 (events ++ (exchange s reads).2) := by
  obtain ⟨hanswer, hsettled⟩ := hcond
  cases s with
  | returned ret =>
      rw [exchange, runSteps_returned, List.append_nil]
      exact h
  | run d =>
      have hreq : Requested mem table d (dumpFile events) := h
      obtain ⟨-, hmax⟩ := newReadData_lt hreq.toProgress hreq.unread
      have hmax' : dwUsbMaxDataLen = 10240 := rfl
      cases hanswer with
      | data header hbytes htime =>
          rw [hreq.data] at hbytes
          set block := memoryRange mem d.newReadData.readDataAddr d.newReadData.readLen with hblock
          have hlength : block.length = d.newReadData.readLen := length_memoryRange mem _ _
          -- the bytes asked for: they are written, and the next request follows
          obtain ⟨hrsp, hcheck⟩ := checkAnswer_dataRsp (d := d) hbytes (by omega)
          rw [hlength] at hrsp
          have hsize : reads.flatten.length = d.newReadData.readLen + 12 := by
            rw [hbytes, length_dataRsp, hlength]
          have hprogress : Progress mem table (accepted (received d reads true))
              (dumpFile (events ++ [.write block])) :=
            accepted_progress (d := received d reads true) ⟨hreq.cells, hreq.request, hreq.finished, hreq.file⟩
              hreq.unread hrsp
          rw [exchange_whole hreq.nPktIndex hreq.nRetry hsize htime hsettled, hcheck, prepend_fst, prepend_snd,
            ← List.append_assoc]
          exact nextRequest_inv hprogress
      | corrupted hsize hfcs htime =>
          rw [hreq.data] at hsize
          have hcheck : checkAnswer (received d reads true) =
              nextRequest { received d reads true with nReadTime := d.nReadTime + 1 } := if_neg hfcs
          rw [exchange_whole hreq.nPktIndex hreq.nRetry hsize htime hsettled, hcheck]
          exact nextRequest_inv ⟨hreq.cells, hreq.request, hreq.finished, hreq.file⟩
      | lost hsize hcount hlast =>
          rw [hreq.data] at hsize
          rw [exchange_lost hreq.nPktIndex hreq.nRetry hsize hcount hlast hsettled]
          exact nextRequest_inv ⟨hreq.cells, hreq.request, hreq.finished, hreq.file⟩

/-- The reads of a dump, answer by answer. -/
theorem runSteps_exchange (s : DumpState) (answers : List (List (List UInt8))) :
    runSteps exchange s answers = runSteps dumpStep s answers.flatten := by
  have h := runSteps_flatMap dumpStep id s answers
  rwa [List.flatMap_id] at h

theorem enigenCatchDump_fst_flatten (table : List ReadDataReqCell) (answers : List (List (List UInt8))) :
    (enigenCatchDump table answers.flatten).1 = (runSteps exchange (dumpCells table).1 answers).1 := by
  rw [enigenCatchDump, prepend_fst, runSteps_exchange]

/-- A dump that ends well has written what was asked for of every cell, with the gaps. -/
theorem dumpFile_written (hcells : CellTable table) (answers : List (List (List UInt8)))
    (hcond : Along exchange (fun s reads => DeviceAnswers mem s reads ∧ Settled s reads) (dumpCells table).1
      answers)
    (hret : (enigenCatchDump table answers.flatten).1 = .returned 1) :
    dumpFile (enigenCatchDump table answers.flatten).2 = written mem table := by
  have hstart : DumpInv mem table (dumpCells table).1 ([] ++ (dumpCells table).2) :=
    dumpCells_inv table hcells rfl
  have hrun := runSteps_history_along exchange_inv answers hstart hcond
  rw [enigenCatchDump_fst_flatten] at hret
  rw [enigenCatchDump, prepend_snd, ← runSteps_exchange]
  rw [List.nil_append, hret] at hrun
  exact hrun rfl

end Invariant

/-! ## The image -/

section Image

variable {mem : Nat → UInt8}

theorem lastEnd_cons_cons (c next : ReadDataReqCell) (rest : List ReadDataReqCell) :
    lastEnd (c :: next :: rest) = lastEnd (next :: rest) := rfl

theorem le_lastEnd {c : ReadDataReqCell} {rest : List ReadDataReqCell} (h : CellTable (c :: rest)) :
    c.readDataAddr + c.readLen ≤ lastEnd (c :: rest) := by
  induction rest generalizing c with
  | nil => exact Nat.le_refl _
  | cons next rest ih =>
      have hbefore := (List.isChain_cons_cons.mp h.ascending).1.1
      have hnext := ih h.tail
      rw [lastEnd_cons_cons]
      omega

/-- The first cell starts first. -/
theorem start_le {c : ReadDataReqCell} {rest : List ReadDataReqCell} (h : CellTable (c :: rest)) :
    ∀ c' ∈ c :: rest, c.readDataAddr ≤ c'.readDataAddr := by
  induction rest generalizing c with
  | nil =>
      intro c' hc'
      rw [List.mem_singleton.mp hc']
  | cons next rest ih =>
      intro c' hc'
      rcases List.mem_cons.mp hc' with rfl | hc'
      · exact Nat.le_refl _
      · have hbefore := (List.isChain_cons_cons.mp h.ascending).1.1
        have hle := ih h.tail c' hc'
        omega

theorem image_singleton (c : ReadDataReqCell) : image mem [c] = memoryRange mem c.readDataAddr c.readLen := by
  have hlen : lastEnd [c] - c.readDataAddr = c.readLen := Nat.add_sub_cancel_left _ _
  rw [image, hlen, memoryRange]
  refine List.map_congr_left fun x hx => ?_
  exact if_pos ⟨c, List.mem_singleton_self c, List.mem_range'_1.mp hx⟩

/-- The image of a table whose first cell is followed by another one. -/
theorem image_cons_cons {c next : ReadDataReqCell} {rest : List ReadDataReqCell}
    (h : CellTable (c :: next :: rest)) :
    image mem (c :: next :: rest) =
      memoryRange mem c.readDataAddr c.readLen ++ gapAfter c (next :: rest) ++ image mem (next :: rest) := by
  have hbefore := (List.isChain_cons_cons.mp h.ascending).1.1
  have hend := le_lastEnd h.tail
  have hstart := start_le h.tail
  have hlen : lastEnd (c :: next :: rest) - c.readDataAddr =
      c.readLen + (next.readDataAddr - (c.readDataAddr + c.readLen)) +
        (lastEnd (next :: rest) - next.readDataAddr) := by
    rw [lastEnd_cons_cons]
    omega
  have hnext : c.readDataAddr + (c.readLen + (next.readDataAddr - (c.readDataAddr + c.readLen))) =
      next.readDataAddr := by omega
  rw [image, hlen, ← List.range'_append_1, hnext, ← List.range'_append_1, List.map_append, List.map_append, image]
  congr 1
  · congr 1
    · -- the first cell
      refine List.map_congr_left fun x hx => ?_
      exact if_pos ⟨c, List.mem_cons_self, List.mem_range'_1.mp hx⟩
    · -- the gap, which no cell meets
      rw [gapAfter, List.eq_replicate_iff, List.length_map, List.length_range']
      refine ⟨rfl, fun b hb => ?_⟩
      obtain ⟨x, hx, rfl⟩ := List.mem_map.mp hb
      obtain ⟨hlow, hhigh⟩ := List.mem_range'_1.mp hx
      refine if_neg ?_
      rintro ⟨c', hc', hin⟩
      rcases List.mem_cons.mp hc' with rfl | hc'
      · omega
      · have hlow' := hstart c' hc'
        omega
  · -- the other cells; the first one ends before them
    refine List.map_congr_left fun x hx => ?_
    have hlow := (List.mem_range'_1.mp hx).1
    refine if_congr ?_ rfl rfl
    constructor
    · rintro ⟨c', hc', hin⟩
      rcases List.mem_cons.mp hc' with rfl | hc'
      · omega
      · exact ⟨c', hc', hin⟩
    · rintro ⟨c', hc', hin⟩
      exact ⟨c', List.mem_cons_of_mem c hc', hin⟩

/-- Where every cell has a block at least, what is written is the image. -/
theorem written_eq_image {table : List ReadDataReqCell} (hcells : CellTable table)
    (hlarge : ∀ c ∈ table, dwUsbMaxDataLen ≤ c.readLen) : written mem table = image mem table := by
  induction table with
  | nil => rfl
  | cons c rest ih =>
      have hlen : dumpedLen c = c.readLen := Nat.max_eq_left (hlarge c List.mem_cons_self)
      rw [written, hlen, ih hcells.tail fun c' hc' => hlarge c' (List.mem_cons_of_mem c hc')]
      cases rest with
      | nil => rw [image_singleton, gapAfter, image, List.append_nil, List.append_nil]
      | cons next rest => exact (image_cons_cons hcells).symm

/-- What is written is not shorter than the image, and longer where a cell is smaller than a block. -/
theorem length_image_le (mem : Nat → UInt8) {table : List ReadDataReqCell} (hcells : CellTable table) :
    (image mem table).length ≤ (written mem table).length ∧
      ((∃ c ∈ table, c.readLen < dwUsbMaxDataLen) → (image mem table).length < (written mem table).length) := by
  induction table with
  | nil =>
      refine ⟨Nat.le_refl _, ?_⟩
      rintro ⟨c, hc, -⟩
      cases hc
  | cons c rest ih =>
      obtain ⟨hle, hlt⟩ := ih hcells.tail
      have hmax : c.readLen ≤ dumpedLen c := Nat.le_max_left _ _
      have hmax' : dwUsbMaxDataLen ≤ dumpedLen c := Nat.le_max_right _ _
      have himage : (image mem (c :: rest)).length =
          c.readLen + (gapAfter c rest).length + (image mem rest).length := by
        cases rest with
        | nil => rw [image_singleton, length_memoryRange]; rfl
        | cons next rest =>
            rw [image_cons_cons hcells, List.length_append, List.length_append, length_memoryRange]
      rw [himage, written, List.length_append, List.length_append, length_memoryRange]
      refine ⟨by omega, ?_⟩
      rintro ⟨c', hc', hsmall⟩
      rcases List.mem_cons.mp hc' with rfl | hc'
      · omega
      · have hrest := hlt ⟨c', hc', hsmall⟩
        omega

theorem written_eq_image_iff {table : List ReadDataReqCell} (hcells : CellTable table) :
    written mem table = image mem table ↔ ∀ c ∈ table, dwUsbMaxDataLen ≤ c.readLen := by
  constructor
  · intro heq c hc
    by_contra hsmall
    have hlt := (length_image_le mem hcells).2 ⟨c, hc, Nat.not_le.mp hsmall⟩
    rw [heq] at hlt
    exact Nat.lt_irrefl _ hlt
  · exact written_eq_image hcells

end Image

/-- **Which memories are dumped faithfully**: where the device answers every request, with corrupted and lost
answers in between, and no old length misleads the receive loop, a dump that ends well is the image of the memory if
and only if every cell has at least `dwUsbMaxDataLen` bytes. -/
theorem enigenCatchDump_image_iff {mem : Nat → UInt8} {table : List ReadDataReqCell}
    {answers : List (List (List UInt8))} (hcells : CellTable table)
    (hdevice : Along exchange (DeviceAnswers mem) (dumpCells table).1 answers)
    (hsettled : Along exchange Settled (dumpCells table).1 answers)
    (hret : (enigenCatchDump table answers.flatten).1 = .returned 1) :
    dumpFile (enigenCatchDump table answers.flatten).2 = image mem table ↔
      ∀ c ∈ table, dwUsbMaxDataLen ≤ c.readLen := by
  rw [dumpFile_written hcells answers (along_and exchange _ answers hdevice hsettled) hret]
  exact written_eq_image_iff hcells

/-! ## Cells of one block -/

/-- The answer to the first request for a cell. -/
def firstRsp (mem : Nat → UInt8) (c : ReadDataReqCell) : List UInt8 :=
  dataRsp ⟨List.replicate 6 0, rfl⟩ (memoryRange mem c.readDataAddr dwUsbMaxDataLen)

/-- The answer in one read. -/
def firstAnswer (mem : Nat → UInt8) (c : ReadDataReqCell) : List (List UInt8) := [firstRsp mem c]

/-- The answer in two reads, with a pause between them. -/
def cutAnswer (mem : Nat → UInt8) (c : ReadDataReqCell) : List (List UInt8) :=
  [(firstRsp mem c).take 512, [], (firstRsp mem c).drop 512]

/-- An answer of zeros, whose check sum does not match. -/
def zeroAnswer : List (List UInt8) := [List.replicate (dwUsbMaxDataLen + 12) 0]

/-- The thread waits for the answer to the first request for a cell, behind `n` corrupted ones. -/
structure AtFirst (c : ReadDataReqCell) (rest : List ReadDataReqCell) (n : Nat) (d : Dumping) : Prop where
  cell : d.cell = c
  rest : d.rest = rest
  nReadLen : d.nReadLen = 0
  nReadTime : d.nReadTime = n
  newReadData : d.newReadData = ⟨c.readDataAddr, dwUsbMaxDataLen⟩
  data : requestedCell d.data = ⟨c.readDataAddr, dwUsbMaxDataLen⟩
  nPktIndex : d.nPktIndex = 0
  nRetry : d.nRetry = 0

section OneBlock

variable {mem : Nat → UInt8} {c : ReadDataReqCell} {rest : List ReadDataReqCell} {n : Nat} {d : Dumping}

theorem requestedCell_first (uSeq : Nat) (hc : c.InMemory) :
    requestedCell (getDataReq uSeq ⟨c.readDataAddr, dwUsbMaxDataLen⟩) = ⟨c.readDataAddr, dwUsbMaxDataLen⟩ := by
  have hpos := hc.pos
  have hle := hc.le
  exact requestedCell_getDataReq uSeq (show c.readDataAddr < 2 ^ 32 by omega)
    (show dwUsbMaxDataLen < 2 ^ 32 by decide)

theorem atFirst_firstRequest (hc : c.InMemory) (rest : List ReadDataReqCell) :
    AtFirst c rest 0 (firstRequest c rest) :=
  ⟨rfl, rfl, rfl, rfl, rfl, requestedCell_first 1 hc, rfl, rfl⟩

theorem dumpCells_cons (hc : c.InMemory) (rest : List ReadDataReqCell) :
    (dumpCells (c :: rest)).1 = .run (firstRequest c rest) := by
  rw [dumpCells, if_pos hc.pos]

theorem length_firstRsp (mem : Nat → UInt8) (c : ReadDataReqCell) :
    (firstRsp mem c).length = dwUsbMaxDataLen + 12 := by
  rw [firstRsp, length_dataRsp, length_memoryRange]

theorem rspLength_firstRsp (mem : Nat → UInt8) (c : ReadDataReqCell) (more : List UInt8) :
    rspLength (firstRsp mem c ++ more) = dwUsbMaxDataLen := by
  have hlength := length_memoryRange mem c.readDataAddr dwUsbMaxDataLen
  rw [firstRsp, rspLength_dataRsp (by rw [hlength]; decide), hlength]

/-- An answer in one read leaves nothing to be misled by. -/
theorem settled_singleton (d : Dumping) (chunk : List UInt8) : Settled (.run d) [chunk] := by
  intro front hpre hne hbytes
  rcases List.prefix_cons_iff.mp hpre with rfl | ⟨rest, rfl, hrest⟩
  · exact absurd rfl hbytes
  · rw [List.prefix_nil.mp hrest] at hne
    exact absurd rfl hne

theorem inTime_singleton {chunk : List UInt8} (h : chunk ≠ []) : InTime [chunk] := by
  constructor
  · rw [List.count_singleton, if_neg (by simpa using h)]
    decide
  · simpa using h

/-! ### The answer -/

theorem firstAnswer_inTime (mem : Nat → UInt8) (c : ReadDataReqCell) : InTime (firstAnswer mem c) := by
  refine inTime_singleton (List.length_pos_iff.mp ?_)
  rw [length_firstRsp]
  decide

theorem flatten_cutAnswer (mem : Nat → UInt8) (c : ReadDataReqCell) :
    (cutAnswer mem c).flatten = firstRsp mem c := by
  simp [cutAnswer]

theorem cutAnswer_inTime (mem : Nat → UInt8) (c : ReadDataReqCell) : InTime (cutAnswer mem c) := by
  have hlength := length_firstRsp mem c
  have htake : (firstRsp mem c).take 512 ≠ [] := by
    rw [← List.length_pos_iff, List.length_take, hlength]
    decide
  have hdrop : (firstRsp mem c).drop 512 ≠ [] := by
    rw [← List.length_pos_iff, List.length_drop, hlength]
    decide
  constructor
  · rw [cutAnswer, List.count_cons_of_ne (by simpa using htake), List.count_cons_self,
      List.count_cons_of_ne (by simpa using hdrop)]
    decide
  · simpa [cutAnswer] using hdrop

/-- The first read of the answer brings the length already. -/
theorem settled_cutAnswer (h : d.newReadData.readLen = dwUsbMaxDataLen) : Settled (.run d) (cutAnswer mem c) := by
  have htake : rspLength (messageAfter d [(firstRsp mem c).take 512]) = dwUsbMaxDataLen := by
    have hle : 8 ≤ ((firstRsp mem c).take 512).length := by
      rw [List.length_take, length_firstRsp]
      decide
    have hwindow : ∀ more, window ((firstRsp mem c).take 512 ++ more) 6 8 = window (firstRsp mem c) 6 8 := by
      intro more
      rw [window_append_left more hle, ← window_append_left ((firstRsp mem c).drop 512) hle, List.take_append_drop]
    have hrsp := rspLength_firstRsp mem c []
    rw [List.append_nil] at hrsp
    rw [messageAfter, overwrite_zero, List.flatten_singleton, rspLength, hwindow]
    exact hrsp
  intro front hpre hne hbytes
  rw [h]
  rcases List.prefix_cons_iff.mp hpre with rfl | ⟨front₁, rfl, hpre₁⟩
  · exact absurd rfl hbytes
  rcases List.prefix_cons_iff.mp hpre₁ with rfl | ⟨front₂, rfl, hpre₂⟩
  · exact Nat.le_of_eq htake
  rcases List.prefix_cons_iff.mp hpre₂ with rfl | ⟨front₃, rfl, hpre₃⟩
  · exact Nat.le_of_eq htake
  · rw [List.prefix_nil.mp hpre₃] at hne
    exact absurd rfl hne

/-- After the first block of a cell that has no more, the next one is asked for. -/
theorem nextRequest_accepted (hread : d.nReadLen = 0) (hsmall : d.cell.readLen ≤ dwUsbMaxDataLen)
    (hrsp : rspLength d.message = dwUsbMaxDataLen) : (nextRequest (accepted d)).1 = (dumpCells d.rest).1 := by
  have hnext : (accepted d).nReadLen = dwUsbMaxDataLen := by
    have hsum : (accepted d).nReadLen = (d.nReadLen + rspLength d.message) % 2 ^ 32 := rfl
    rw [hsum, hrsp, hread]
    decide
  have hover : ¬ ((accepted d).nReadLen < (accepted d).cell.readLen ∧ 0 < (accepted d).cell.readLen ∧
      (accepted d).nReadTime < maxRetryTime / 2) := by
    rintro ⟨hlt, -⟩
    rw [hnext] at hlt
    exact Nat.not_le.mpr hlt hsmall
  have htries : ¬ maxRetryTime / 2 ≤ (accepted d).nReadTime := show ¬ maxRetryTime / 2 ≤ 0 by decide
  rw [nextRequest, if_neg hover, if_neg htries, prepend_fst]
  rfl

/-- The answer ends the dump of a cell of one block at most. -/
theorem exchange_firstRsp (h : AtFirst c rest n d) (hsmall : c.readLen ≤ dwUsbMaxDataLen)
    {reads : List (List UInt8)} (hbytes : reads.flatten = firstRsp mem c) (htime : InTime reads)
    (hsettled : Settled (.run d) reads) : (exchange (.run d) reads).1 = (dumpCells rest).1 := by
  have hsize : reads.flatten.length = d.newReadData.readLen + 12 := by
    rw [hbytes, length_firstRsp, h.newReadData]
  have hlength := length_memoryRange mem c.readDataAddr dwUsbMaxDataLen
  obtain ⟨hrsp, hcheck⟩ := checkAnswer_dataRsp (d := d) hbytes (by rw [hlength]; decide)
  rw [hlength] at hrsp
  rw [exchange_whole h.nPktIndex h.nRetry hsize htime hsettled, hcheck, prepend_fst, ← h.rest]
  exact nextRequest_accepted (d := received d reads true) h.nReadLen (by rw [← h.cell] at hsmall; exact hsmall) hrsp

theorem answer_firstRsp (h : AtFirst c rest n d) {reads : List (List UInt8)} (hbytes : reads.flatten = firstRsp mem c)
    (htime : InTime reads) : DeviceAnswers mem (.run d) reads := by
  refine .data ⟨List.replicate 6 0, rfl⟩ ?_ htime
  rw [h.data]
  exact hbytes

/-! ### The corrupted answer -/

theorem length_zeroAnswer : zeroAnswer.flatten.length = dwUsbMaxDataLen + 12 := by
  rw [zeroAnswer, List.flatten_singleton, List.length_replicate]

theorem zeroAnswer_inTime : InTime zeroAnswer := by
  refine inTime_singleton (List.length_pos_iff.mp ?_)
  rw [List.length_replicate]
  decide

/-- An answer of zeros announces no bytes, and the check sum of its header is not zero. -/
theorem not_fcsMatches_zeros (more : List UInt8) : ¬ FcsMatches (List.replicate 12 0 ++ more) := by
  have hrsp : rspLength (List.replicate 12 0 ++ more) = 0 := rfl
  have hcrc : crc16 0xFFFF (List.replicate 12 0 ++ more) 8 = crc16 0xFFFF (List.replicate 12 0) 8 := rfl
  have hfcs : window (List.replicate 12 0 ++ more) 8 12 = List.replicate 4 0 := rfl
  rw [FcsMatches, hrsp, nRspHeaderCount, Nat.zero_add, Nat.add_zero, hcrc, hfcs]
  decide +kernel

theorem not_fcsMatches_zeroAnswer (d : Dumping) : ¬ FcsMatches (messageAfter d zeroAnswer) := by
  have hsplit : List.replicate (dwUsbMaxDataLen + 12) (0 : UInt8) =
      List.replicate 12 0 ++ List.replicate dwUsbMaxDataLen 0 := by
    rw [← List.replicate_add, Nat.add_comm]
  rw [messageAfter, overwrite_zero, zeroAnswer, List.flatten_singleton, hsplit, List.append_assoc]
  exact not_fcsMatches_zeros _

theorem answer_zeroAnswer (h : AtFirst c rest n d) : DeviceAnswers mem (.run d) zeroAnswer := by
  refine .corrupted ?_ (not_fcsMatches_zeroAnswer d) zeroAnswer_inTime
  rw [h.data]
  exact length_zeroAnswer

theorem nextRequest_again
    (h : d.nReadLen < d.cell.readLen ∧ 0 < d.cell.readLen ∧ d.nReadTime < maxRetryTime / 2) :
    nextRequest d =
      (.run { d with data := getDataReq d.uSeq d.newReadData, nPktIndex := 0, nRetry := 0, ok := true },
        [.sent (sentBytes (getDataReq d.uSeq d.newReadData))]) :=
  if_pos h

/-- After a corrupted answer the same request is sent once more. -/
theorem exchange_zeroAnswer (hc : c.InMemory) (h : AtFirst c rest n d) (hn : n + 1 < maxRetryTime / 2) :
    ∃ d', (exchange (.run d) zeroAnswer).1 = .run d' ∧ AtFirst c rest (n + 1) d' := by
  have hsize : zeroAnswer.flatten.length = d.newReadData.readLen + 12 := by
    rw [length_zeroAnswer, h.newReadData]
  have hagain : d.nReadLen < d.cell.readLen ∧ 0 < d.cell.readLen ∧ d.nReadTime + 1 < maxRetryTime / 2 := by
    rw [h.nReadLen, h.cell, h.nReadTime]
    exact ⟨hc.pos, hc.pos, hn⟩
  have hcheck : checkAnswer (received d zeroAnswer true) =
      nextRequest { received d zeroAnswer true with nReadTime := d.nReadTime + 1 } :=
    if_neg (not_fcsMatches_zeroAnswer d)
  have hnext := nextRequest_again (d := { received d zeroAnswer true with nReadTime := d.nReadTime + 1 }) hagain
  have hdata : requestedCell (getDataReq d.uSeq d.newReadData) = ⟨c.readDataAddr, dwUsbMaxDataLen⟩ := by
    rw [h.newReadData]
    exact requestedCell_first d.uSeq hc
  rw [exchange_whole h.nPktIndex h.nRetry hsize zeroAnswer_inTime (settled_singleton d _), hcheck, hnext]
  exact ⟨_, rfl, h.cell, h.rest, h.nReadLen, congrArg (· + 1) h.nReadTime, h.newReadData, hdata, rfl, rfl⟩

/-! ### A table of two cells -/

/-- What comes for two cells: a corrupted answer for the first one, then both blocks, each in two reads. -/
def twoAnswers (mem : Nat → UInt8) (c c' : ReadDataReqCell) : List (List (List UInt8)) :=
  [zeroAnswer, cutAnswer mem c, cutAnswer mem c']

variable {c' : ReadDataReqCell}

/-- The device has answered, nothing has misled the thread, and the dump is over. -/
theorem exchange_twoAnswers (mem : Nat → UInt8) (hc : c.InMemory) (hc' : c'.InMemory)
    (hsmall : c.readLen ≤ dwUsbMaxDataLen) (hsmall' : c'.readLen ≤ dwUsbMaxDataLen) :
    Along exchange (DeviceAnswers mem) (dumpCells [c, c']).1 (twoAnswers mem c c') ∧
      Along exchange Settled (dumpCells [c, c']).1 (twoAnswers mem c c') ∧
      (runSteps exchange (dumpCells [c, c']).1 (twoAnswers mem c c')).1 = .returned 1 := by
  have hfirst := atFirst_firstRequest hc [c']
  have hsecond := atFirst_firstRequest hc' []
  obtain ⟨d, hzero, hagain⟩ := exchange_zeroAnswer hc hfirst (by decide)
  have hone : (exchange (.run d) (cutAnswer mem c)).1 = .run (firstRequest c' []) :=
    (exchange_firstRsp hagain hsmall (flatten_cutAnswer mem c) (cutAnswer_inTime mem c)
      (settled_cutAnswer (by rw [hagain.newReadData]))).trans (dumpCells_cons hc' [])
  have htwo : (exchange (.run (firstRequest c' [])) (cutAnswer mem c')).1 = .returned 1 :=
    exchange_firstRsp hsecond hsmall' (flatten_cutAnswer mem c') (cutAnswer_inTime mem c') (settled_cutAnswer rfl)
  rw [dumpCells_cons hc, twoAnswers]
  refine ⟨⟨answer_zeroAnswer hfirst, ?_⟩, ⟨settled_singleton _ _, ?_⟩, ?_⟩
  · rw [hzero]
    refine ⟨answer_firstRsp hagain (flatten_cutAnswer mem c) (cutAnswer_inTime mem c), ?_⟩
    rw [hone]
    exact ⟨answer_firstRsp hsecond (flatten_cutAnswer mem c') (cutAnswer_inTime mem c'), trivial⟩
  · rw [hzero]
    refine ⟨settled_cutAnswer (by rw [hagain.newReadData]), ?_⟩
    rw [hone]
    exact ⟨settled_cutAnswer rfl, trivial⟩
  · rw [runSteps_cons, prepend_fst, hzero, runSteps_cons, prepend_fst, hone, runSteps_singleton, htwo]

end OneBlock

/-- Two cells of 10240 bytes, with a gap of 2 KiB between them. -/
def twoCells : List ReadDataReqCell := [⟨0x1000, 10240⟩, ⟨0x4000, 10240⟩]

theorem cellTable_twoCells : CellTable twoCells := by
  refine ⟨?_, List.isChain_cons_cons.mpr ⟨⟨by decide, by decide⟩, List.isChain_singleton _⟩⟩
  rw [twoCells, List.forall_mem_cons, List.forall_mem_singleton]
  exact ⟨⟨by decide, by decide, by decide⟩, ⟨by decide, by decide, by decide⟩⟩

/-- They are dumped as they are, with the gap, though the first answer is corrupted. -/
theorem enigenCatchDump_image_iff_twoCells :
    dumpFile (enigenCatchDump twoCells (twoAnswers UInt8.ofNat ⟨0x1000, 10240⟩ ⟨0x4000, 10240⟩).flatten).2 =
      image UInt8.ofNat twoCells := by
  obtain ⟨hone, htwo⟩ := List.forall_mem_cons.mp cellTable_twoCells.inMemory
  obtain ⟨hdevice, hsettled, hret⟩ := exchange_twoAnswers UInt8.ofNat hone (htwo _ List.mem_cons_self)
    (Nat.le_refl _) (Nat.le_refl _)
  refine (enigenCatchDump_image_iff cellTable_twoCells hdevice hsettled ?_).mpr (by decide)
  rw [enigenCatchDump_fst_flatten]
  exact hret

/-- The dump of a cell of 256 bytes ends well, but the file holds 10240. -/
theorem not_image_smallCell :
    ¬ ∀ (mem : Nat → UInt8) (table : List ReadDataReqCell) (answers : List (List (List UInt8))), CellTable table →
      Along exchange (DeviceAnswers mem) (dumpCells table).1 answers →
      (enigenCatchDump table answers.flatten).1 = .returned 1 →
        dumpFile (enigenCatchDump table answers.flatten).2 = image mem table := by
  intro h
  have hc : (⟨0x1000, 256⟩ : ReadDataReqCell).InMemory := ⟨by decide, by decide, by decide⟩
  have hcells : CellTable [⟨0x1000, 256⟩] := ⟨List.forall_mem_singleton.mpr hc, List.isChain_singleton _⟩
  have hfirst := atFirst_firstRequest hc []
  have hbytes : (firstAnswer UInt8.ofNat ⟨0x1000, 256⟩).flatten = firstRsp UInt8.ofNat ⟨0x1000, 256⟩ :=
    List.flatten_singleton
  have htime := firstAnswer_inTime UInt8.ofNat ⟨0x1000, 256⟩
  have hdevice : Along exchange (DeviceAnswers UInt8.ofNat) (dumpCells [⟨0x1000, 256⟩]).1
      [firstAnswer UInt8.ofNat ⟨0x1000, 256⟩] := by
    rw [dumpCells_cons hc]
    exact ⟨answer_firstRsp hfirst hbytes htime, trivial⟩
  have hsettled : Along exchange Settled (dumpCells [⟨0x1000, 256⟩]).1 [firstAnswer UInt8.ofNat ⟨0x1000, 256⟩] := by
    rw [dumpCells_cons hc]
    exact ⟨settled_singleton _ _, trivial⟩
  have hret : (enigenCatchDump [⟨0x1000, 256⟩] [firstAnswer UInt8.ofNat ⟨0x1000, 256⟩].flatten).1 =
      .returned 1 := by
    rw [enigenCatchDump_fst_flatten, dumpCells_cons hc, runSteps_singleton]
    exact exchange_firstRsp hfirst (by decide) hbytes htime (settled_singleton _ _)
  have himage := h UInt8.ofNat [⟨0x1000, 256⟩] [firstAnswer UInt8.ofNat ⟨0x1000, 256⟩] hcells hdevice hret
  rw [dumpFile_written hcells _ (along_and exchange _ _ hdevice hsettled) hret] at himage
  have hlarge := (written_eq_image_iff hcells).mp himage ⟨0x1000, 256⟩ List.mem_cons_self
  exact absurd hlarge (by decide)

end QLog.Eigen
