import QLog.Diag.Deframer
import QLog.Library.ByteBuffer
import QLog.Library.CString
import QLog.Library.History
import QLog.Library.LittleEndian

/-! # What the handlers of responses read

`mdm_handle_data_for_command_rsp` gets a packet and its size, and passes both on to the handler of the response it waits
for. None of the handlers looks at the size: they read as many entries, names and data as the packet announces. The
handlers are modelled by the bytes they read, one after another, of the memory from `buf` on. -/

namespace QLog

open Library

/-- A read of `len` bytes at the offset `off`. -/
structure Access where
  off : Nat
  len : Nat
deriving DecidableEq

/-- Every byte that is read has an index below the size. -/
def Access.InPacket (size : Nat) (a : Access) : Prop := ∀ x, a.off ≤ x → x < a.off + a.len → x < size

theorem Access.inPacket_iff {size off len : Nat} (h : 0 < len) :
    Access.InPacket size ⟨off, len⟩ ↔ off + len ≤ size := by
  constructor
  · intro hin
    have hlast := hin (off + len - 1) (show off ≤ off + len - 1 by omega) (show off + len - 1 < off + len by omega)
    omega
  · intro hle x _ hx
    exact Nat.lt_of_lt_of_le hx hle

/-- All of the reads are in the packet. -/
def AllInPacket (size : Nat) (reads : List Access) : Prop := ∀ a ∈ reads, a.InPacket size

@[simp] theorem allInPacket_nil (size : Nat) : AllInPacket size [] := List.forall_mem_nil _

theorem allInPacket_cons {size off len : Nat} {reads : List Access} (h : 0 < len) :
    AllInPacket size (⟨off, len⟩ :: reads) ↔ off + len ≤ size ∧ AllInPacket size reads := by
  rw [AllInPacket, List.forall_mem_cons, Access.inPacket_iff h]
  rfl

@[simp] theorem allInPacket_append {size : Nat} {reads reads' : List Access} :
    AllInPacket size (reads ++ reads') ↔ AllInPacket size reads ∧ AllInPacket size reads' :=
  List.forall_mem_append

/-! ## The handlers -/

/-- The memory from `buf` on: the packet, and what stands behind it. -/
def bufMemory (packet : List UInt8) (behind : Nat → UInt8) (x : Nat) : UInt8 := packet.getD x (behind x)

/-- The globals that decide what is read. `diag_verbose` is zero and is never set. -/
structure HandlerState where
  diagIdState : Bool
  diagDisableQtraceState : Bool
  /-- `parser_state` is not `DB_PARSER_STATE_OFF` -/
  parserState : Bool
  diagIdCount : Nat
  /-- `disk_file_fd` is not -1 -/
  diskFileOpen : Bool

section Handlers

variable (mem : Nat → UInt8)

/-- The number in a field. -/
def fieldAt (off len : Nat) : Nat := ofLeBytes (memoryRange mem off len)

/-- How many bytes `strncpy (.., process_name, 30)` reads: up to the zero byte, or 30. -/
def processNameReads (p : Nat) : Nat := min 30 ((cString (memoryRange mem p 30)).length + 1)

/-- `insert_diag_id_entry`, for the entry at the offset `p`. -/
def insertDiagIdEntryReads (diagIdCount p : Nat) : List Access :=
  if 10 ≤ diagIdCount then [] else [⟨p, 1⟩, ⟨p + 2, processNameReads mem (p + 2)⟩]

/-- The loop of `process_diag_id_response` over `n` more entries; each entry says where the next one is. -/
def diagIdLoopReads : Nat → Nat → Nat → List Access
  | 0, _, _ => []
  | n + 1, diagIdCount, p =>
      insertDiagIdEntryReads mem diagIdCount p ++ ⟨p + 1, 1⟩ ::
        diagIdLoopReads n (if 10 ≤ diagIdCount then diagIdCount else diagIdCount + 1) (p + fieldAt mem (p + 1) 1 + 2)

/-- `process_diag_id_response` -/
def processDiagIdResponseReads (diagIdCount : Nat) : List Access :=
  ⟨0, 1⟩ :: (if fieldAt mem 0 1 ≠ 0x4B then []
    else ⟨4, 1⟩ :: (if fieldAt mem 4 1 ≠ 1 then []
      else ⟨5, 1⟩ :: diagIdLoopReads mem (fieldAt mem 5 1) diagIdCount 6))

/-- An entry of a file list: the length, and the guid of a file that is not empty. -/
def fileInfoReads (i : Nat) : List Access :=
  ⟨18 + 20 * i + 16, 4⟩ :: (if fieldAt mem (18 + 20 * i + 16) 4 = 0 then [] else [⟨18 + 20 * i, 16⟩])

/-- `process_qsr4_db_file_list_response` -/
def processQsr4DbFileListResponseReads : List Access :=
  ⟨16, 1⟩ :: (if fieldAt mem 16 1 ≠ 0 then []
    else ⟨17, 1⟩ :: (List.range (fieldAt mem 17 1)).flatMap (fileInfoReads mem))

/-- `process_qsr_db_file_read_delayed_rsp`; the data is passed on to be saved. -/
def processQsrDbFileReadDelayedRspReads (diskFileOpen : Bool) : List Access :=
  ⟨26, 1⟩ :: (if fieldAt mem 26 1 ≠ 0 then []
    else ⟨22, 4⟩ :: (if fieldAt mem 22 4 ≠ 0 ∧ diskFileOpen then [⟨27, fieldAt mem 22 4⟩] else []))

/-- `DIAG_BAD_CMD_F`, `DIAG_BAD_PARM_F`, `DIAG_BAD_LEN_F` -/
def isBad : Bool := [0x13, 0x14, 0x15].contains (fieldAt mem 0 1)

/-- The response says that a command to a subsystem was bad. -/
def isErrorRsp (cmd subsys : Nat) : Bool := isBad mem && fieldAt mem 1 1 == cmd && fieldAt mem 2 1 == subsys

/-- What the comparison with an error response reads. -/
def errorRspReads (cmd : Nat) : List Access :=
  ⟨0, 1⟩ :: (if isBad mem then ⟨1, 1⟩ :: (if fieldAt mem 1 1 = cmd then [⟨2, 1⟩] else []) else [])

/-- The response is one to a command of a subsystem. -/
def isRsp (cmd subsys code : Nat) : Bool :=
  fieldAt mem 0 1 == cmd && fieldAt mem 1 1 == subsys && fieldAt mem 2 2 == code

/-- What the comparison with a response reads. -/
def rspReads (cmd subsys : Nat) : List Access :=
  ⟨0, 1⟩ :: (if fieldAt mem 0 1 = cmd then ⟨1, 1⟩ :: (if fieldAt mem 1 1 = subsys then [⟨2, 2⟩] else []) else [])

/-- The branch of `mdm_handle_data_for_command_rsp` for the databases. -/
def parserReads (diskFileOpen : Bool) : List Access :=
  ⟨14, 2⟩ :: ⟨12, 2⟩ :: (if fieldAt mem 12 2 ≠ 1 then []
    else if fieldAt mem 14 2 = 0x00 then processQsr4DbFileListResponseReads mem
    -- the handlers for opening and closing a file are not looked into
    else if fieldAt mem 14 2 = 0x02 then processQsrDbFileReadDelayedRspReads mem diskFileOpen
    else [])

/-- `mdm_handle_data_for_command_rsp` -/
def mdmHandleDataForCommandRspReads (s : HandlerState) : List Access :=
  if s.diagIdState then
    errorRspReads mem 0x4B ++ (if isErrorRsp mem 0x4B 18 then []
      else rspReads mem 0x4B 18 ++
        (if isRsp mem 0x4B 18 0x222 then processDiagIdResponseReads mem s.diagIdCount else []))
  else if s.diagDisableQtraceState then errorRspReads mem 0x4B
  else if s.parserState then
    errorRspReads mem 0x80 ++ (if isErrorRsp mem 0x80 18 then []
      else rspReads mem 0x80 18 ++ (if isRsp mem 0x80 18 0x816 then parserReads mem s.diskFileOpen else []))
  else []

/-! ## Packets that are long enough -/

/-- The entries of a list of diag ids lie in the packet: each with its two bytes and, while the table has room, with its
name. -/
def EntriesFit (size : Nat) : Nat → Nat → Nat → Prop
  | 0, _, _ => True
  | n + 1, diagIdCount, p =>
      p + 2 ≤ size ∧ (diagIdCount < 10 → p + 2 + processNameReads mem (p + 2) ≤ size) ∧
        EntriesFit size n (if 10 ≤ diagIdCount then diagIdCount else diagIdCount + 1) (p + fieldAt mem (p + 1) 1 + 2)

/-- The packet holds the diag ids it announces. -/
def DiagIdsFit (size diagIdCount : Nat) : Prop :=
  5 ≤ size ∧ (fieldAt mem 4 1 = 1 → 6 ≤ size ∧ EntriesFit mem size (fieldAt mem 5 1) diagIdCount 6)

/-- The packet holds the files it announces. -/
def FileListFits (size : Nat) : Prop := 17 ≤ size ∧ (fieldAt mem 16 1 = 0 → 18 + 20 * fieldAt mem 17 1 ≤ size)

/-- The packet holds the data it announces. -/
def FileDataFits (size : Nat) (diskFileOpen : Bool) : Prop :=
  27 ≤ size ∧ (fieldAt mem 26 1 = 0 → diskFileOpen = true → 27 + fieldAt mem 22 4 ≤ size)

/-- The packet holds the response that is waited for, if it is one. -/
def ResponseFits (size : Nat) (s : HandlerState) : Prop :=
  if s.diagIdState then isRsp mem 0x4B 18 0x222 = true → DiagIdsFit mem size s.diagIdCount
  else if s.diagDisableQtraceState then True
  else s.parserState = true → isRsp mem 0x80 18 0x816 = true →
    16 ≤ size ∧ (fieldAt mem 12 2 = 1 →
      (fieldAt mem 14 2 = 0x00 → FileListFits mem size) ∧
        (fieldAt mem 14 2 = 0x02 → FileDataFits mem size s.diskFileOpen))

end Handlers

/-! ## Reads and lengths -/

section Fits

variable {mem : Nat → UInt8} {size : Nat}

theorem allInPacket_errorRspReads (h : 4 ≤ size) (cmd : Nat) : AllInPacket size (errorRspReads mem cmd) := by
  rw [errorRspReads, allInPacket_cons Nat.one_pos]
  refine ⟨by omega, ?_⟩
  split
  · rw [allInPacket_cons Nat.one_pos]
    refine ⟨by omega, ?_⟩
    split
    · rw [allInPacket_cons Nat.one_pos]
      exact ⟨by omega, allInPacket_nil size⟩
    · exact allInPacket_nil size
  · exact allInPacket_nil size

theorem allInPacket_rspReads (h : 4 ≤ size) (cmd subsys : Nat) : AllInPacket size (rspReads mem cmd subsys) := by
  rw [rspReads, allInPacket_cons Nat.one_pos]
  refine ⟨by omega, ?_⟩
  split
  · rw [allInPacket_cons Nat.one_pos]
    refine ⟨by omega, ?_⟩
    split
    · rw [allInPacket_cons Nat.two_pos]
      exact ⟨by omega, allInPacket_nil size⟩
    · exact allInPacket_nil size
  · exact allInPacket_nil size

/-- The entries are read one after another. -/
theorem allInPacket_diagIdLoopReads (n diagIdCount p : Nat) :
    AllInPacket size (diagIdLoopReads mem n diagIdCount p) ↔ EntriesFit mem size n diagIdCount p := by
  induction n generalizing diagIdCount p with
  | zero => exact iff_of_true (allInPacket_nil size) trivial
  | succ n ih =>
      rw [diagIdLoopReads, EntriesFit, allInPacket_append, allInPacket_cons Nat.one_pos, ih, insertDiagIdEntryReads]
      by_cases hfull : 10 ≤ diagIdCount
      · rw [if_pos hfull, if_pos hfull]
        constructor
        · rintro ⟨-, hlen, hrest⟩
          exact ⟨hlen, fun hroom => absurd hroom (Nat.not_lt.mpr hfull), hrest⟩
        · rintro ⟨hlen, -, hrest⟩
          exact ⟨allInPacket_nil size, hlen, hrest⟩
      · have hname : 0 < processNameReads mem (p + 2) := Nat.lt_min.mpr ⟨by decide, Nat.succ_pos _⟩
        rw [if_neg hfull, if_neg hfull, allInPacket_cons Nat.one_pos, allInPacket_cons hname]
        constructor
        · rintro ⟨⟨-, hread, -⟩, hlen, hrest⟩
          exact ⟨hlen, fun _ => hread, hrest⟩
        · rintro ⟨hlen, hread, hrest⟩
          exact ⟨⟨by omega, hread (Nat.not_le.mp hfull), allInPacket_nil size⟩, hlen, hrest⟩

theorem allInPacket_processDiagIdResponseReads (h : 4 ≤ size) (hcmd : fieldAt mem 0 1 = 0x4B) (diagIdCount : Nat) :
    AllInPacket size (processDiagIdResponseReads mem diagIdCount) ↔ DiagIdsFit mem size diagIdCount := by
  rw [processDiagIdResponseReads, DiagIdsFit, allInPacket_cons Nat.one_pos, if_neg (not_not.mpr hcmd),
    allInPacket_cons Nat.one_pos, and_iff_right (by omega : 0 + 1 ≤ size)]
  refine and_congr_right fun _ => ?_
  by_cases hversion : fieldAt mem 4 1 = 1
  · rw [if_neg (not_not.mpr hversion), allInPacket_cons Nat.one_pos, allInPacket_diagIdLoopReads]
    exact ⟨fun hfits _ => hfits, fun hfits => hfits hversion⟩
  · rw [if_pos hversion]
    exact iff_of_true (allInPacket_nil size) (fun h => absurd h hversion)

/-- The entries of a file list are in the packet if their lengths are. -/
theorem allInPacket_fileInfoReads (i : Nat) :
    AllInPacket size (fileInfoReads mem i) ↔ 18 + 20 * (i + 1) ≤ size := by
  rw [fileInfoReads, allInPacket_cons (by decide)]
  split
  · rw [and_iff_left (allInPacket_nil size)]
    omega
  · rw [allInPacket_cons (by decide), and_iff_left (allInPacket_nil size)]
    omega

theorem allInPacket_processQsr4DbFileListResponseReads :
    AllInPacket size (processQsr4DbFileListResponseReads mem) ↔ FileListFits mem size := by
  rw [processQsr4DbFileListResponseReads, FileListFits, allInPacket_cons Nat.one_pos]
  refine and_congr_right fun _ => ?_
  by_cases hstatus : fieldAt mem 16 1 = 0
  · have hentries : AllInPacket size ((List.range (fieldAt mem 17 1)).flatMap (fileInfoReads mem)) ↔
        ∀ i < fieldAt mem 17 1, 18 + 20 * (i + 1) ≤ size := by
      rw [AllInPacket, List.forall_mem_flatMap]
      simp only [List.mem_range]
      exact forall_congr' fun i => imp_congr_right fun _ => allInPacket_fileInfoReads i
    rw [if_neg (not_not.mpr hstatus), allInPacket_cons Nat.one_pos, hentries, forall_prop_of_true hstatus]
    -- it is the last entry that counts
    constructor
    · rintro ⟨hcount, hall⟩
      rcases Nat.eq_zero_or_pos (fieldAt mem 17 1) with hzero | hpos
      · omega
      · have hlast := hall (fieldAt mem 17 1 - 1) (by omega)
        omega
    · intro hle
      exact ⟨by omega, fun i hi => by omega⟩
  · rw [if_pos hstatus]
    exact iff_of_true (allInPacket_nil size) (fun h => absurd h hstatus)

theorem allInPacket_processQsrDbFileReadDelayedRspReads (diskFileOpen : Bool) :
    AllInPacket size (processQsrDbFileReadDelayedRspReads mem diskFileOpen) ↔
      FileDataFits mem size diskFileOpen := by
  rw [processQsrDbFileReadDelayedRspReads, FileDataFits, allInPacket_cons Nat.one_pos]
  refine and_congr_right fun hsize => ?_
  by_cases hstatus : fieldAt mem 26 1 = 0
  · rw [if_neg (not_not.mpr hstatus), allInPacket_cons (by decide), and_iff_right (by omega : 22 + 4 ≤ size),
      forall_prop_of_true hstatus]
    split
    · next hsave =>
        rw [allInPacket_cons (Nat.pos_of_ne_zero hsave.1), and_iff_left (allInPacket_nil size),
          forall_prop_of_true hsave.2]
    · next hsave =>
        refine iff_of_true (allInPacket_nil size) fun hopen => ?_
        have hzero : fieldAt mem 22 4 = 0 := by
          by_contra hne
          exact hsave ⟨hne, hopen⟩
        omega
  · rw [if_pos hstatus]
    exact iff_of_true (allInPacket_nil size) (fun h => absurd h hstatus)

theorem allInPacket_parserReads (diskFileOpen : Bool) :
    AllInPacket size (parserReads mem diskFileOpen) ↔
      16 ≤ size ∧ (fieldAt mem 12 2 = 1 →
        (fieldAt mem 14 2 = 0x00 → FileListFits mem size) ∧
          (fieldAt mem 14 2 = 0x02 → FileDataFits mem size diskFileOpen)) := by
  rw [parserReads, allInPacket_cons Nat.two_pos, allInPacket_cons Nat.two_pos]
  refine and_congr_right fun hsize => ?_
  rw [and_iff_right (by omega : 12 + 2 ≤ size)]
  by_cases hversion : fieldAt mem 12 2 = 1
  · rw [if_neg (not_not.mpr hversion), forall_prop_of_true hversion]
    split
    · next hlist =>
        rw [allInPacket_processQsr4DbFileListResponseReads, forall_prop_of_true hlist, hlist]
        exact (and_iff_left fun h => absurd h (by decide)).symm
    · next hlist =>
        split
        · next hread =>
            rw [allInPacket_processQsrDbFileReadDelayedRspReads, forall_prop_of_true hread]
            exact (and_iff_right fun h => absurd h hlist).symm
        · next hread =>
            exact iff_of_true (allInPacket_nil size) ⟨fun h => absurd h hlist, fun h => absurd h hread⟩
  · rw [if_pos hversion]
    exact iff_of_true (allInPacket_nil size) (fun h => absurd h hversion)

/-- An error response is not one to the command. -/
theorem isRsp_of_isErrorRsp {cmd subsys code : Nat} (h : isErrorRsp mem cmd subsys = true) (hcmd : 0x15 < cmd) :
    isRsp mem cmd subsys code = false := by
  rw [isErrorRsp, Bool.and_eq_true, Bool.and_eq_true, isBad, List.contains_iff_mem] at h
  have hbad := h.1.1
  simp only [List.mem_cons, List.not_mem_nil, or_false] at hbad
  have hne : (fieldAt mem 0 1 == cmd) = false := by
    rw [beq_eq_false_iff_ne]
    omega
  rw [isRsp, hne, Bool.false_and, Bool.false_and]

/-- A branch that first compares the packet with an error response and then with the response that is waited for. -/
theorem allInPacket_branch {cmd subsys code : Nat} {reads : List Access} (h : 4 ≤ size) (hcmd : 0x15 < cmd) :
    AllInPacket size (errorRspReads mem cmd ++ (if isErrorRsp mem cmd subsys then []
        else rspReads mem cmd subsys ++ (if isRsp mem cmd subsys code then reads else []))) ↔
      (isRsp mem cmd subsys code = true → AllInPacket size reads) := by
  rw [allInPacket_append, and_iff_right (allInPacket_errorRspReads h cmd)]
  split
  · next herror =>
      rw [isRsp_of_isErrorRsp herror hcmd]
      exact iff_of_true (allInPacket_nil size) (fun h => by cases h)
  · rw [allInPacket_append, and_iff_right (allInPacket_rspReads h cmd subsys)]
    split
    · next hrsp => exact ⟨fun hreads _ => hreads, fun hreads => hreads hrsp⟩
    · next hrsp => exact iff_of_true (allInPacket_nil size) (fun h => absurd h hrsp)

/-- Of the memory from `buf` on only the packet is read exactly if the packet holds the response. -/
theorem allInPacket_iff_responseFits (h : 4 ≤ size) (s : HandlerState) :
    AllInPacket size (mdmHandleDataForCommandRspReads mem s) ↔ ResponseFits mem size s := by
  rw [mdmHandleDataForCommandRspReads, ResponseFits]
  split
  · rw [allInPacket_branch h (by decide)]
    refine imp_congr_right fun hrsp => ?_
    have hcmd : fieldAt mem 0 1 = 0x4B := by
      rw [isRsp, Bool.and_eq_true, Bool.and_eq_true] at hrsp
      exact beq_iff_eq.mp hrsp.1.1
    exact allInPacket_processDiagIdResponseReads h hcmd s.diagIdCount
  · split
    · exact iff_of_true (allInPacket_errorRspReads h 0x4B) trivial
    · split
      · next hparser =>
          rw [allInPacket_branch h (by decide), forall_prop_of_true hparser]
          exact imp_congr_right fun _ => allInPacket_parserReads s.diskFileOpen
      · next hparser => exact iff_of_true (allInPacket_nil size) (fun h => absurd h hparser)

end Fits

/-! ## Packets of the deframer -/

/-- The decoder of `mdm_init_filter` has given only packets of at least four bytes to the handler. -/
structure MdmDelivers (p : DiagPkt) (trace : List Consumed) : Prop where
  start7e : p.start7e = false
  minPktLen : p.minPktLen = 4
  packets : ∀ packet ∈ packets trace, 4 ≤ packet.length

/-- The bytes that are not a delimiter end no packet. -/
theorem packets_escaped (p : DiagPkt) (b : UInt8) : packets (p.escaped b).2 = [] := by
  rw [DiagPkt.escaped]
  split <;> rfl

theorem packets_plain (p : DiagPkt) (b : UInt8) : packets (p.plain b).2 = [] := by
  rw [DiagPkt.plain]
  split
  · rfl
  · dsimp only
    split <;> rfl

/-- A packet is given to the handler only if it has the minimal length. -/
theorem packets_delimiter (p : DiagPkt) : ∀ packet ∈ packets p.delimiter.2, p.minPktLen ≤ packet.length := by
  rw [DiagPkt.delimiter]
  split
  · next hlong =>
      intro packet hpacket
      rw [List.mem_singleton.mp hpacket]
      exact hlong
  · split
    · exact List.forall_mem_nil _
    · split <;> exact List.forall_mem_nil _

theorem packets_byte (p : DiagPkt) (b : UInt8) : ∀ packet ∈ packets (p.byte b).2, p.minPktLen ≤ packet.length := by
  rw [DiagPkt.byte]
  split
  · rw [packets_escaped]
    exact List.forall_mem_nil _
  · split
    · exact List.forall_mem_nil _
    · split
      · exact packets_delimiter p
      · rw [packets_plain]
        exact List.forall_mem_nil _

theorem MdmDelivers.byte (p : DiagPkt) (trace : List Consumed) (b : UInt8) (h : MdmDelivers p trace) :
    MdmDelivers (p.byte b).1 (trace ++ (p.byte b).2) := by
  have hconfig := DiagPkt.byte_sameConfig p b
  refine ⟨hconfig.start7e.trans h.start7e, hconfig.minPktLen.trans h.minPktLen, ?_⟩
  rw [packets_append, List.forall_mem_append]
  exact ⟨h.packets, h.minPktLen ▸ packets_byte p b⟩

theorem MdmDelivers.input (p : DiagPkt) (trace : List Consumed) (chunk : List UInt8) (h : MdmDelivers p trace) :
    MdmDelivers (diagPktInput p chunk).1 (trace ++ (diagPktInput p chunk).2) := by
  rw [diagPktInput_eq_run p chunk (noIdleEscape_of_start7e_false p chunk h.start7e)]
  exact runSteps_history MdmDelivers.byte chunk h

/-- A packet that the deframer delivers has at least the four bytes that are always read. -/
theorem length_of_mem_feed {chunks : List (List UInt8)} {packet : List UInt8}
    (h : packet ∈ (feed mdmDiagPkt chunks).2) : 4 ≤ packet.length := by
  have hstart : MdmDelivers mdmDiagPkt [] := ⟨rfl, rfl, List.forall_mem_nil _⟩
  have hrun := runSteps_history MdmDelivers.input chunks hstart
  exact hrun.packets packet h

/-- **When the handlers read only the packet**: whatever stands behind it and in every state, exactly if the packet
holds all that the response in it announces. -/
theorem handlers_readOnly_iff (chunks : List (List UInt8)) (packet : List UInt8)
    (h : packet ∈ (feed mdmDiagPkt chunks).2) (behind : Nat → UInt8) (s : HandlerState) :
    AllInPacket packet.length (mdmHandleDataForCommandRspReads (bufMemory packet behind) s) ↔
      ResponseFits (bufMemory packet behind) packet.length s :=
  allInPacket_iff_responseFits (length_of_mem_feed h) s

/-- The state while the list of diag ids is awaited. -/
def diagIdsAwaited : HandlerState := ⟨true, false, false, 0, false⟩

/-- A list with one entry, the id 1 with the name "A". -/
def oneDiagId : List UInt8 := [0x4B, 18, 0x22, 0x02, 1, 1, 1, 2, 0x41, 0x00, 0x00, 0x00, 0x7E]

theorem handlers_readOnly_oneDiagId :
    AllInPacket oneDiagId.length (mdmHandleDataForCommandRspReads (bufMemory oneDiagId fun _ => 0) diagIdsAwaited) ↔
      ResponseFits (bufMemory oneDiagId fun _ => 0) oneDiagId.length diagIdsAwaited :=
  handlers_readOnly_iff [oneDiagId] oneDiagId (by decide) (fun _ => 0) diagIdsAwaited

/-- The same list, ended behind the number of its entries. -/
theorem not_handlers_readOnly :
    ¬ ∀ (chunks : List (List UInt8)) (packet : List UInt8) (behind : Nat → UInt8) (s : HandlerState),
      packet ∈ (feed mdmDiagPkt chunks).2 →
        AllInPacket packet.length (mdmHandleDataForCommandRspReads (bufMemory packet behind) s) := by
  intro h
  have hreads := h [[0x4B, 18, 0x22, 0x02, 1, 1, 0x7E]] [0x4B, 18, 0x22, 0x02, 1, 1, 0x7E] (fun _ => 0) diagIdsAwaited
    (by decide)
  have hlen : (⟨7, 1⟩ : Access) ∈ mdmHandleDataForCommandRspReads
      (bufMemory [0x4B, 18, 0x22, 0x02, 1, 1, 0x7E] fun _ => 0) diagIdsAwaited := by decide
  exact absurd (hreads _ hlen 7 (Nat.le_refl 7) (by decide)) (by decide)

end QLog
