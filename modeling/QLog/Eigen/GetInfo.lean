import QLog.Eigen.Dump

/-! # The table of the cells

`SendGetInfoUsb` asks for the memory cells of the chip, and puts those of the answer into the global table
`RDReqCell`. `RDReqCell_count` counts the entries that have been written since the process began: nobody sets it back
between two dumps, and nobody compares it with the size of the table. -/

namespace QLog.Eigen

open Library

/-- What a try to get the cells meets: the results of its sends and of its reads. -/
structure InfoTry where
  sentData : Bool
  sentFcs : Bool
  reads : Nat → List UInt8

/-- The local variables of `SendGetInfoUsb` while it waits. -/
structure InfoWait where
  messageBuf : List UInt8
  message : List UInt8
  nPktIndex : Nat
  /-- `err_code == UE_OK` -/
  ok : Bool

/-- `strstr((char*)rbuf, "DUMP")` -/
def HasDump (messageBuf : List UInt8) : Prop := [0x44, 0x55, 0x4D, 0x50] <:+: messageBuf.takeWhile (· ≠ 0)

instance (messageBuf : List UInt8) : Decidable (HasDump messageBuf) := inferInstanceAs (Decidable (_ <:+: _))

/-- `WaitRamDumpAckAndData` for `SendRspGetInfo`, and the copy of what it has read. -/
def infoWait (w : InfoWait) (chunk : List UInt8) : InfoWait :=
  if chunk = [] then { w with ok := false }
  else
    let messageBuf := overwrite w.messageBuf 0 chunk
    -- what earlier reads have left behind this one is searched as well
    if HasDump messageBuf then { w with messageBuf := messageBuf, ok := false }
    else
      { messageBuf := messageBuf
        message := overwrite w.message w.nPktIndex chunk
        nPktIndex := w.nPktIndex + chunk.length
        ok := true }

/-- The data and the check sum of the announced length have come. -/
def InfoWait.Complete (w : InfoWait) : Prop := w.ok = true ∧ rspLength w.message + 12 ≤ w.nPktIndex

instance (w : InfoWait) : Decidable w.Complete := inferInstanceAs (Decidable (_ ∧ _))

/-- The inner loop. -/
def infoWaits : InfoWait → List (List UInt8) → InfoWait
  | w, [] => w
  | w, chunk :: reads => if (infoWait w chunk).Complete then infoWait w chunk else infoWaits (infoWait w chunk) reads

/-- The inner loop of a try whose request has been sent. -/
def infoAnswer (w : InfoWait) (t : InfoTry) : InfoWait :=
  infoWaits { w with nPktIndex := 0, ok := true } ((List.range maxRetryTime).map t.reads)

/-- The comparison of the computed check sum with all of the received one. -/
def InfoFcsMatches (message : List UInt8) : Prop :=
  (crc16 0xFFFF message (rspLength message + nRspHeaderCount)).toNat =
    ofLeBytes (window message (nRspHeaderCount + rspLength message) (nRspHeaderCount + rspLength message + 4))

instance (message : List UInt8) : Decidable (InfoFcsMatches message) :=
  inferInstanceAs (Decidable (_ = _))

/-- The outer loop: the answer of the first try that succeeds. -/
def infoTries : InfoWait → List InfoTry → Option (List UInt8)
  | _, [] => none
  | w, t :: ts =>
      if t.sentData && t.sentFcs then
        if (infoAnswer w t).ok = true ∧ InfoFcsMatches (infoAnswer w t).message then some (infoAnswer w t).message
        else infoTries (infoAnswer w t) ts
      else infoTries w ts

/-- What `SendGetInfoUsb` begins with. -/
def infoStart : InfoWait := ⟨List.replicate 65535 0, List.replicate 65535 0, 0, false⟩

/-- The answer that `SendGetInfoUsb` takes, if it succeeds. -/
def infoMessage (tries : Nat → InfoTry) : Option (List UInt8) :=
  infoTries infoStart ((List.range maxRetryTime).map tries)

/-- The globals `RDReqCell` and `RDReqCell_count`. -/
structure CellGlobals where
  rdReqCell : List ReadDataReqCell
  rdReqCellCount : Nat
  length_rdReqCell : rdReqCell.length = 100

/-- A cell of an answer. -/
def cellAt (message : List UInt8) (i : Nat) : ReadDataReqCell :=
  ⟨ofLeBytes (window message (nRspHeaderCount + i * 8) (nRspHeaderCount + i * 8 + 4)),
    ofLeBytes (window message (nRspHeaderCount + i * 8 + 4) (nRspHeaderCount + i * 8 + 8))⟩

/-- The cells of an answer. -/
def answerCells (message : List UInt8) : List ReadDataReqCell :=
  (List.range (rspLength message / 8)).map (cellAt message)

/-- `memmove(&RDReqCell[i], readData, nCellSize)` and `RDReqCell_count++`; behind the table there is other memory. -/
def CellGlobals.put (g : CellGlobals) (i : Nat) (c : ReadDataReqCell) : CellGlobals :=
  ⟨g.rdReqCell.set i c, g.rdReqCellCount + 1, by rw [List.length_set, g.length_rdReqCell]⟩

/-- `SendGetInfoUsb`, as far as the globals are concerned. -/
def sendGetInfoUsb (g : CellGlobals) (tries : Nat → InfoTry) : CellGlobals :=
  match infoMessage tries with
  | none => g
  | some message => (List.range (rspLength message / 8)).foldl (fun g i => g.put i (cellAt message i)) g

/-- The globals when the process begins. -/
def cellsStart : CellGlobals := ⟨List.replicate 100 ⟨0, 0⟩, 0, List.length_replicate⟩

/-- The globals behind some dumps. -/
def infoRun (dumps : List (Nat → InfoTry)) : CellGlobals := dumps.foldl sendGetInfoUsb cellsStart

/-- The table holds the cells of an answer, and nothing else. -/
structure Mirrors (g : CellGlobals) (message : List UInt8) : Prop where
  count : g.rdReqCellCount = (answerCells message).length
  fits : g.rdReqCellCount ≤ 100
  cells : g.rdReqCell.take g.rdReqCellCount = answerCells message

/-- A read that brings bytes, and no sign that the dump is over. -/
theorem infoWait_data {w : InfoWait} {chunk : List UInt8} (hne : chunk ≠ [])
    (hdump : ¬ HasDump (overwrite w.messageBuf 0 chunk)) :
    infoWait w chunk =
      ⟨overwrite w.messageBuf 0 chunk, overwrite w.message w.nPktIndex chunk, w.nPktIndex + chunk.length, true⟩ := by
  rw [infoWait, if_neg hne]
  dsimp only
  rw [if_neg hdump]

/-! ## Filling the table -/

section Fill

variable {g : CellGlobals} {message : List UInt8}

@[simp] theorem length_answerCells (message : List UInt8) : (answerCells message).length = rspLength message / 8 := by
  rw [answerCells, List.length_map, List.length_range]

/-- The loop that fills the table. -/
theorem fill_spec (g : CellGlobals) (message : List UInt8) (n : Nat) :
    ((List.range n).foldl (fun g i => g.put i (cellAt message i)) g).rdReqCellCount = g.rdReqCellCount + n ∧
      (n ≤ 100 → ((List.range n).foldl (fun g i => g.put i (cellAt message i)) g).rdReqCell.take n =
        (List.range n).map (cellAt message)) := by
  induction n with
  | zero => exact ⟨rfl, fun _ => rfl⟩
  | succ n ih =>
      obtain ⟨hcount, hcells⟩ := ih
      rw [List.range_succ, List.foldl_append, List.foldl_cons, List.foldl_nil]
      set filled := (List.range n).foldl (fun g i => g.put i (cellAt message i)) g
      refine ⟨?_, fun hn => ?_⟩
      · show filled.rdReqCellCount + 1 = _
        rw [hcount, Nat.add_assoc]
      · have hlt : n < (filled.rdReqCell.set n (cellAt message n)).length := by
          rw [List.length_set, filled.length_rdReqCell]
          omega
        show (filled.rdReqCell.set n (cellAt message n)).take (n + 1) = _
        rw [List.take_succ_eq_append_getElem hlt, List.getElem_set_self, List.take_set_of_le (Nat.le_refl n),
          hcells (by omega), List.map_append, List.map_singleton]

/-- A successful call adds the cells of the answer to those that have been counted. -/
theorem sendGetInfoUsb_some {tries : Nat → InfoTry} (h : infoMessage tries = some message) :
    (sendGetInfoUsb g tries).rdReqCellCount = g.rdReqCellCount + (answerCells message).length ∧
      ((answerCells message).length ≤ 100 →
        (sendGetInfoUsb g tries).rdReqCell.take (answerCells message).length = answerCells message) := by
  rw [sendGetInfoUsb, h, length_answerCells]
  exact fill_spec g message (rspLength message / 8)

/-- What a dump adds to the count. -/
def cellsAdded (tries : Nat → InfoTry) : Nat :=
  ((infoMessage tries).map fun message => (answerCells message).length).getD 0

theorem count_sendGetInfoUsb (g : CellGlobals) (tries : Nat → InfoTry) :
    (sendGetInfoUsb g tries).rdReqCellCount = g.rdReqCellCount + cellsAdded tries := by
  cases h : infoMessage tries with
  | none => rw [sendGetInfoUsb, cellsAdded, h]; rfl
  | some message => rw [(sendGetInfoUsb_some h).1, cellsAdded, h]; rfl

theorem infoRun_snoc (front : List (Nat → InfoTry)) (tries : Nat → InfoTry) :
    infoRun (front ++ [tries]) = sendGetInfoUsb (infoRun front) tries := by
  rw [infoRun, List.foldl_append]
  rfl

/-- The count is never set back. -/
theorem count_infoRun (dumps : List (Nat → InfoTry)) : (infoRun dumps).rdReqCellCount = (dumps.map cellsAdded).sum := by
  induction dumps using List.reverseRecOn with
  | nil => rfl
  | append_singleton front tries ih =>
      rw [infoRun_snoc, count_sendGetInfoUsb, ih, List.map_append, List.sum_append, List.map_singleton,
        List.sum_singleton]

/-- The table mirrors the answer of a dump exactly if the answer has room in it, and nothing has been counted before. -/
theorem mirrors_iff {tries : Nat → InfoTry} (h : infoMessage tries = some message) :
    Mirrors (sendGetInfoUsb g tries) message ↔ (answerCells message).length ≤ 100 ∧ g.rdReqCellCount = 0 := by
  obtain ⟨hcount, hcells⟩ := sendGetInfoUsb_some (g := g) h
  constructor
  · rintro ⟨hsame, hfits, -⟩
    rw [hcount] at hsame hfits
    omega
  · rintro ⟨hfits, hzero⟩
    rw [hzero, Nat.zero_add] at hcount
    refine ⟨hcount, by rwa [hcount], ?_⟩
    rw [hcount]
    exact hcells hfits

end Fill

/-- **When the table mirrors the last answer**: exactly if every answer has at most 100 cells, and no answer before it
had any. -/
theorem infoRun_mirrors_iff (dumps : List (Nat → InfoTry)) :
    (∀ front tries, front ++ [tries] <+: dumps → ∀ message ∈ infoMessage tries,
        Mirrors (infoRun (front ++ [tries])) message) ↔
      ∀ front tries, front ++ [tries] <+: dumps → ∀ message ∈ infoMessage tries,
        (answerCells message).length ≤ 100 ∧
          ∀ earlier ∈ front, ∀ message' ∈ infoMessage earlier, answerCells message' = [] := by
  have hzero : ∀ front, (infoRun front).rdReqCellCount = 0 ↔
      ∀ earlier ∈ front, ∀ message' ∈ infoMessage earlier, answerCells message' = [] := by
    intro front
    rw [count_infoRun, List.sum_eq_zero_iff_forall_eq_nat, List.forall_mem_map]
    refine forall₂_congr fun earlier _ => ?_
    rw [cellsAdded]
    cases infoMessage earlier with
    | none => simp
    | some message' =>
        simp only [Option.map_some, Option.getD_some, List.length_eq_zero_iff, Option.mem_some_iff, forall_eq']
  refine forall₄_congr fun front tries _ message => forall_congr' fun hmessage => ?_
  rw [infoRun_snoc, mirrors_iff hmessage, hzero]

/-! ## A device that answers at once -/

/-- A read that brings the whole answer. -/
theorem infoMessage_dataRsp {header : Block 6} {data : List UInt8} (hdata : data.length + 8 < 2 ^ 16)
    (hdump : ¬ HasDump (overwrite (List.replicate 65535 0) 0 (dataRsp header data))) :
    infoMessage (fun _ => ⟨true, true, fun _ => dataRsp header data⟩) =
      some (dataRsp header data ++ (List.replicate 65535 0).drop (dataRsp header data).length) := by
  set rsp := dataRsp header data with hrsp
  set more := (List.replicate 65535 (0 : UInt8)).drop rsp.length
  have hmessage : overwrite (List.replicate 65535 0) 0 rsp = rsp ++ more := overwrite_zero _ _
  have hlength : rsp.length = data.length + 12 := length_dataRsp
  have hne : rsp ≠ [] := by
    intro hnil
    rw [hnil, List.length_nil] at hlength
    omega
  have hwait : infoWait { infoStart with nPktIndex := 0, ok := true } rsp =
      ⟨rsp ++ more, rsp ++ more, 0 + rsp.length, true⟩ := by
    rw [infoWait_data hne hdump]
    dsimp only [infoStart]
    rw [hmessage]
  have hcomplete : (infoWait { infoStart with nPktIndex := 0, ok := true } rsp).Complete := by
    rw [hwait]
    refine ⟨rfl, ?_⟩
    dsimp only
    rw [hrsp, rspLength_dataRsp (by omega), ← hrsp, hlength]
    omega
  have hanswer : infoAnswer infoStart ⟨true, true, fun _ => rsp⟩ =
      ⟨rsp ++ more, rsp ++ more, 0 + rsp.length, true⟩ := by
    obtain ⟨reads, hreads⟩ : ∃ reads, (List.range maxRetryTime).map (fun _ => rsp) = rsp :: reads := ⟨_, rfl⟩
    rw [infoAnswer, hreads, infoWaits, if_pos hcomplete, hwait]
  obtain ⟨ts, hts⟩ : ∃ ts, (List.range maxRetryTime).map (fun _ => (⟨true, true, fun _ => rsp⟩ : InfoTry)) =
      ⟨true, true, fun _ => rsp⟩ :: ts := ⟨_, rfl⟩
  rw [infoMessage, hts, infoTries, hanswer]
  have hfcs : InfoFcsMatches (rsp ++ more) := crc16_dataRsp hdata more
  simp [hfcs]

/-- The answer of a device with one cell of 256 bytes. -/
def oneCellTries : Nat → InfoTry :=
  fun _ => ⟨true, true, fun _ => dataRsp ⟨[0x21, 0, 0xdc, 0x23, 0, 0], rfl⟩ (leBytes 4 0x1000 ++ leBytes 4 256)⟩

theorem infoMessage_oneCellTries :
    ∃ message, infoMessage oneCellTries = some message ∧ (answerCells message).length = 1 := by
  refine ⟨_, infoMessage_dataRsp ?_ ?_, ?_⟩
  · rw [List.length_append, length_leBytes, length_leBytes]
    decide
  · rw [HasDump, overwrite_zero, dataRsp]
    simp only [List.append_assoc, List.cons_append]
    rw [List.takeWhile_cons_of_pos (by decide), List.takeWhile_cons_of_neg (by decide)]
    decide
  · rw [length_answerCells, rspLength_dataRsp, List.length_append, length_leBytes, length_leBytes]
    rw [List.length_append, length_leBytes, length_leBytes]
    decide

/-- Behind a second dump with one cell the count is two. -/
theorem not_infoRun_mirrors :
    ¬ ∀ (dumps front : List (Nat → InfoTry)) (tries : Nat → InfoTry), front ++ [tries] <+: dumps →
      ∀ message ∈ infoMessage tries, Mirrors (infoRun (front ++ [tries])) message := by
  intro h
  obtain ⟨message, hmessage, hone⟩ := infoMessage_oneCellTries
  have hmirrors := h [oneCellTries, oneCellTries] [oneCellTries] oneCellTries (List.prefix_refl _) message hmessage
  rw [infoRun_snoc, mirrors_iff hmessage, count_infoRun, List.map_singleton, List.sum_singleton, cellsAdded, hmessage,
    Option.map_some, Option.getD_some, hone] at hmirrors
  exact absurd hmirrors.2 Nat.one_ne_zero

end QLog.Eigen
