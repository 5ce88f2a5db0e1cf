import QLog.Sahara.Region

/-! # The Sahara client

`sahara_read_dump` as a step function: a step is one pass through the `switch`, or, in `Q_SAHARA_WAIT_EIGHT`, one
pass through one of its loops. The device and the file system answer each step with `SaharaAnswers`, in any way.

The fields of packets are read from `q_rx_buf`, where the bytes of earlier packets remain until they are
overwritten: a packet that is shorter than its command demands is read together with these. -/

namespace QLog

open Library

/-- `q_sahara_state` -/
inductive QSaharaState
  | waitOne | waitTwo | waitThree | waitFour | waitFive | waitSix | waitSeven | waitEight
  deriving DecidableEq

/-- How `sahara_read_dump` ends. -/
inductive SaharaResult
  | returned (success : Bool)
  /-- `exit (0)` where a file cannot be created. -/
  | exited
  deriving DecidableEq

/-- `sahara_data.q_mode` and `kickstart_options.do_reset`, as set by `sahara_catch_dump`. -/
structure SaharaConfig where
  qMode : Nat
  doReset : Bool

/-- `sahara_data` and the local variables of `sahara_read_dump`. -/
structure SaharaClient where
  rxBuf : List UInt8
  state : QSaharaState
  maxRamDumpRead : Nat
  ramDump64bit : Bool
  /-- `q_memory_table_addr`, `q_memory_table_length` -/
  memoryTableAddr : Nat
  memoryTableLength : Nat
  /-- `sahara_memory_table`, the first `num_debug_entries` entries. -/
  memoryTable : List DebugType
  /-- The index of the outer loop, and `cur` while the file of that entry is open. -/
  i : Nat
  cur : Option Nat
  /-- `none` while the function runs. -/
  result : Option SaharaResult

/-! ## Packets -/

/-- `q_sahara_hello_pkt.q_mode` -/
def helloMode (rxBuf : List UInt8) : Nat := ofLeBytes (window rxBuf 20 24)

/-- The table is announced by `Q_SAHARA_SIXTEEN`, with 64-bit fields. -/
def announces64bit (rxBuf : List UInt8) : Bool := qCmd rxBuf == 0x10

/-- `q_memory_table_addr` of the packet. -/
def announcedAddr (rxBuf : List UInt8) : Nat :=
  ofLeBytes (if announces64bit rxBuf then window rxBuf 8 16 else window rxBuf 8 12)

/-- `q_memory_table_length` of the packet. -/
def announcedLength (rxBuf : List UInt8) : Nat :=
  ofLeBytes (if announces64bit rxBuf then window rxBuf 16 24 else window rxBuf 12 16)

/-- The size of a table entry, `q_debug_type_64bit` or `q_debug_type`. -/
def debugTypeSize (is64 : Bool) : Nat := if is64 then 64 else 52

/-- `is_valid_memory_table` -/
def isValidMemoryTable (is64 : Bool) (memoryTableSize : Nat) : Bool := memoryTableSize % debugTypeSize is64 == 0

/-- An entry of a received table. -/
def debugEntry (is64 : Bool) (rxBuf : List UInt8) (k : Nat) : DebugType :=
  let off := k * debugTypeSize is64
  if is64 then
    ⟨ofLeBytes (window rxBuf (off + 8) (off + 16)), ofLeBytes (window rxBuf (off + 16) (off + 24)),
      window rxBuf (off + 44) (off + 64)⟩
  else
    ⟨ofLeBytes (window rxBuf (off + 4) (off + 8)), ofLeBytes (window rxBuf (off + 8) (off + 12)),
      window rxBuf (off + 32) (off + 52)⟩

/-- The entries of a received table. -/
def debugEntries (is64 : Bool) (rxBuf : List UInt8) (length : Nat) : List DebugType :=
  (List.range (length / debugTypeSize is64)).map (debugEntry is64 rxBuf)

/-! ## Steps -/

namespace SaharaClient

def finish (s : SaharaClient) (r : SaharaResult) : SaharaClient := { s with result := some r }

@[simp] theorem finish_result (s : SaharaClient) (r : SaharaResult) : (s.finish r).result = some r := rfl

/-- `send_reset_command`, and the wait for the answer. -/
def sendReset (s : SaharaClient) (a : SaharaAnswers) : SaharaClient × List SaharaEvent :=
  (if a.tx then { s with state := .waitThree } else s.finish (.returned false), [.reset a.tx])

/-- `Q_SAHARA_WAIT_ONE` once a packet is there, with `send_hello_response`. -/
def greet (cfg : SaharaConfig) (s : SaharaClient) (a : SaharaAnswers) : SaharaClient × List SaharaEvent :=
  if qCmd s.rxBuf ≠ 0x01 then s.sendReset a
  else if helloMode s.rxBuf ≠ cfg.qMode then (s.finish (.returned false), [])
  else (if a.tx then { s with state := .waitTwo } else s.finish (.returned false), [.helloResponse a.tx])

/-- `Q_SAHARA_WAIT_ONE` -/
def waitOne (cfg : SaharaConfig) (s : SaharaClient) (a : SaharaAnswers) : SaharaClient × List SaharaEvent :=
  let first := saharaRxPacket s.rxBuf a.rx
  if first.1 then prepend [.kick, .received first.2] (greet cfg { s with rxBuf := first.2 } a)
  else if a.wakeUp = false then ({ s with rxBuf := first.2 }.finish (.returned false), [.kick, .wakeUp])
  else
    let again := saharaRxPacket first.2 a.rxAgain
    if again.1 then prepend [.kick, .wakeUp, .received again.2] (greet cfg { s with rxBuf := again.2 } a)
    else ({ s with rxBuf := again.2 }.finish (.returned false), [.kick, .wakeUp])

/-- `Q_SAHARA_WAIT_TWO` where the packet announces the memory table. -/
def announced (s : SaharaClient) (a : SaharaAnswers) : SaharaClient × List SaharaEvent :=
  let s := { s with
    ramDump64bit := announces64bit s.rxBuf
    memoryTableAddr := announcedAddr s.rxBuf
    memoryTableLength := announcedLength s.rxBuf }
  if isValidMemoryTable s.ramDump64bit s.memoryTableLength = false then s.sendReset a
  else if 0 < s.memoryTableLength then
    (if a.tx = false ∨ qSaharaRawBufSz < s.memoryTableLength then s.finish (.returned false)
      else { s with state := .waitSeven },
      [sendMemoryReadPacket s.ramDump64bit s.memoryTableAddr s.memoryTableLength])
  else ({ s with state := .waitSeven }, [])

/-- `Q_SAHARA_WAIT_TWO` -/
def waitTwo (s : SaharaClient) (a : SaharaAnswers) : SaharaClient × List SaharaEvent :=
  let rx := saharaRxPacket s.rxBuf a.rx
  let s := { s with rxBuf := rx.2 }
  if rx.1 = false then (s.finish (.returned false), [])
  else
    prepend [.received rx.2]
      (if qCmd rx.2 = 0x09 ∨ qCmd rx.2 = 0x10 then s.announced a
        -- one more hello is waited past
        else if qCmd rx.2 = 0x01 then (s, []) else s.sendReset a)

/-- `Q_SAHARA_WAIT_SEVEN` -/
def waitSeven (s : SaharaClient) (a : SaharaAnswers) : SaharaClient × List SaharaEvent :=
  if s.memoryTableLength = 0 then
    ({ s with memoryTable := [], state := .waitEight, i := 0, cur := none }, [.table []])
  else
    match saharaRxData s.memoryTableLength s.rxBuf a.rx with
    | (none, rxBuf) => ({ s with rxBuf := rxBuf }.finish (.returned false), [])
    | (some _, rxBuf) =>
        if s.ramDump64bit = false ∧ qSaharaRawBufSz < s.memoryTableLength / debugTypeSize false * debugTypeSize true
        then ({ s with rxBuf := rxBuf }.finish (.returned false), [])
        else
          let entries := debugEntries s.ramDump64bit rxBuf s.memoryTableLength
          ({ s with rxBuf := rxBuf, memoryTable := entries, state := .waitEight, i := 0, cur := none },
            [.table entries])

/-- `Q_SAHARA_WAIT_EIGHT` -/
def waitEight (cfg : SaharaConfig) (s : SaharaClient) (a : SaharaAnswers) : SaharaClient × List SaharaEvent :=
  match s.memoryTable[s.i]? with
  | none => if cfg.doReset then s.sendReset a else (s.finish (.returned true), [])
  | some e =>
      match s.cur with
      | none =>
          if a.created then ({ s with cur := some 0 }, [.opened s.i e.filename]) else (s.finish .exited, [])
      | some cur =>
          if cur < e.len then
            match regionBody s.i e s.ramDump64bit ⟨s.rxBuf, s.maxRamDumpRead, cur⟩ a with
            | (none, events) => (s.finish (.returned false), events ++ [.closed s.i])
            | (some r, events) =>
                ({ s with rxBuf := r.rxBuf, maxRamDumpRead := r.maxRamDumpRead, cur := some r.cur }, events)
          else ({ s with i := s.i + 1, cur := none }, [.closed s.i])

/-- `Q_SAHARA_WAIT_THREE` -/
def waitThree (s : SaharaClient) (a : SaharaAnswers) : SaharaClient × List SaharaEvent :=
  let rx := saharaRxPacket s.rxBuf a.rx
  let s := { s with rxBuf := rx.2 }
  if rx.1 then
    (if qCmd rx.2 ≠ 0x08 then s else s.finish (.returned true), [.received rx.2])
  -- the command may have come although the packet has not
  else (s.finish (.returned (qCmd rx.2 == 0x08)), [])

/-- One pass through the `switch` of `sahara_read_dump`. -/
def step (cfg : SaharaConfig) (s : SaharaClient) (a : SaharaAnswers) : SaharaClient × List SaharaEvent :=
  match s.result with
  | some _ => (s, [])
  | none =>
      match s.state with
      | .waitOne => waitOne cfg s a
      | .waitTwo => waitTwo s a
      | .waitThree => waitThree s a
      | .waitSeven => waitSeven s a
      | .waitEight => waitEight cfg s a
      | .waitFour | .waitFive | .waitSix => (s.finish (.returned false), [])

/-- The start of `sahara_read_dump`, with what earlier dumps have left behind. -/
def start (rxBuf : List UInt8) (maxRamDumpRead : Nat) (ramDump64bit : Bool) : SaharaClient where
  rxBuf := rxBuf
  state := .waitOne
  maxRamDumpRead := maxRamDumpRead
  ramDump64bit := ramDump64bit
  memoryTableAddr := 0
  memoryTableLength := 0
  memoryTable := []
  i := 0
  cur := none
  result := none

/-- A run of `sahara_read_dump`, as far as the answers go. -/
def run (cfg : SaharaConfig) (s : SaharaClient) (answers : List SaharaAnswers) : SaharaClient × List SaharaEvent :=
  runSteps (step cfg) s answers

end SaharaClient

end QLog
