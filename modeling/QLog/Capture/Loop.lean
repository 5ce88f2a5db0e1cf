import Mathlib.Algebra.Ring.Nat
import Mathlib.Data.List.Basic
import Mathlib.Logic.Function.Basic

/-! # The capture loops

Every kind of module has a loop that reads the ports, makes a log file when none is open, saves what was read, and
closes the file when it is full. The loops differ in the ports they read, in the file each port is saved to, in the
chance of a dump among the reads, and in when a file is full; the functions of `qlog_ops_t` are parameters, as they are
in the source. -/

namespace QLog.Capture

universe u v

/-- The descriptors that are polled: `dmfd`, `generalfd` and `thirdfd`. -/
inductive Port where
  | dm
  | general
  | third
  deriving DecidableEq

/-- `logfile_fd`, `second_logfile` and `third_logfile` -/
inductive File where
  | log
  | second
  | third
  deriving DecidableEq

/-- Where the reads of a port go: to the `logfile_save` of the module or to `qlog_logfile_save`, or nowhere. -/
inductive Sink where
  | ops (file : File)
  | plain (file : File)
  | nowhere
  deriving DecidableEq

/-- The descriptors of the open files, -1 where there is none. -/
structure Opened where
  fd : Int
  second : Int
  third : Int

def Opened.get (opened : Opened) : File → Int
  | .log => opened.fd
  | .second => opened.second
  | .third => opened.third

/-- No file is open. -/
def noFiles : Opened := ⟨-1, -1, -1⟩

/-- `AP_LOG_SIZE` -/
def apLogSize : Nat := 10 * 1024 * 1024

/-- `QLOG_BUF_SIZE` -/
def qlogBufSize : Nat := 64 * 1024

/-- What a loop is set up with: the test for a full file, and the fixed answers of the module. -/
structure Handler where
  logfileSuffix : String
  sink : Port → Sink
  /-- `savelog_size_dm`, `savelog_size_general` and `savelog_size_third` -/
  full : (Port → Nat) → Bool
  hasInit : Bool
  hasCleanFilter : Bool
  /-- The reads are looked at for the start of a dump. -/
  hasDump : Bool
  /-- After a dump `-c` lets the program go on. -/
  dumpContinues : Bool

/-- `qlog_ops_t`, over the state `σ` of everything outside the loop. What a call meets there is in `ε`. -/
structure QlogOps (σ : Type u) (ε : Type v) where
  logfileCreate : ε → σ → Nat → σ × Opened
  logfileInit : σ → Int → Nat → σ
  logfileSave : ε → σ → Port → Int → List UInt8 → σ × Nat
  qlogLogfileSave : ε → σ → Port → Int → List UInt8 → σ × Nat
  logfileClose : σ → Opened → σ
  /-- `m_bVer_Obtained_change`, behind a file that was full -/
  rotated : σ → σ
  cleanFilter : σ → σ

/-- The size that a save is counted in. -/
def Handler.counter (h : Handler) (port : Port) : Port := if h.sink port = .ops .log then .dm else port

/-- `savelog_size_total` -/
def savelogSizeTotal (size : Port → Nat) : Nat := size .dm + size .general + size .third

/-- `savelog_size_total >= logfile_size && g_donot_split_logfile == 0` -/
def totalFull (logfileSize : Nat) (donotSplit : Bool) (size : Port → Nat) : Bool :=
  logfileSize ≤ savelogSizeTotal size && !donotSplit

/-- `savelog_size_general > (AP_LOG_SIZE - rbuf_size) || savelog_size_dm >= logfile_size` -/
def exx00uFull (logfileSize : Nat) (size : Port → Nat) : Bool :=
  decide (apLogSize - qlogBufSize < size .general) || decide (logfileSize ≤ size .dm)

/-! ## The loops -/

section Handlers

/-- The command line and the device, as far as the loops look at them. -/
structure Arguments where
  logfileSize : Nat
  donotSplit : Bool
  isTty2tcp : Bool
  qlogContinue : Bool
  /-- `general_type` is `MDM_QDSS` -/
  qdss : Bool
  /-- `general_type` is `EC200U_AP` -/
  ec200uAp : Bool
  thirdType : Nat

variable (args : Arguments)

/-- Only the DM port is read. -/
def dmOnly (logfileSuffix : String) (hasDump : Bool) : Handler where
  logfileSuffix := logfileSuffix
  sink
    | .dm => .ops .log
    | _ => .nowhere
  full := totalFull args.logfileSize args.donotSplit
  hasInit := !args.isTty2tcp
  hasCleanFilter := !args.isTty2tcp
  hasDump := hasDump
  dumpContinues := args.qlogContinue

/-- `message_handle_asr` -/
def messageHandleAsr : Handler := dmOnly args "sdl" false

/-- `message_handle_eigen` -/
def messageHandleEigen : Handler := dmOnly args "bin" true

/-- `message_handle_mtk` -/
def messageHandleMtk : Handler := dmOnly args "muxraw" false

/-- `message_handle_mdm` -/
def messageHandleMdm (useQmdl2V2 : Bool) : Handler where
  logfileSuffix := if useQmdl2V2 then "qmdl2" else "qmdl"
  sink
    | .dm => .ops .log
    | .general =>
        if args.isTty2tcp && args.qdss then .ops .second
        else if args.qdss then .plain .second
        else .nowhere
    | .third =>
        if args.isTty2tcp && args.thirdType = 1 then .ops .third
        else if args.thirdType = 1 then .plain .third
        else .nowhere
  full := totalFull args.logfileSize args.donotSplit
  hasInit := !args.isTty2tcp
  hasCleanFilter := !args.isTty2tcp
  hasDump := false
  dumpContinues := args.qlogContinue

/-- `message_handle_unisoc`, by `g_is_unisoc_chip`; without one the module is an EXX00U. -/
def messageHandleUnisoc (chip : Option Nat) : Handler where
  logfileSuffix := if chip = none then "tra" else "logel"
  sink
    | .dm => .ops .log
    | .general => if args.ec200uAp then .ops .second else .ops .log
    | .third => if args.thirdType = 2 then .plain .third else .nowhere
  full := if chip = none then exx00uFull args.logfileSize else totalFull args.logfileSize args.donotSplit
  hasInit := !args.isTty2tcp
  hasCleanFilter := !args.isTty2tcp
  hasDump := true
  -- an EC200D is not read on after its dump
  dumpContinues := args.qlogContinue && chip ≠ some 2

end Handlers

/-! ## One loop -/

/-- The statement that comes next. -/
inductive Pc where
  /-- `while (!qlog_exit_requested)` -/
  | testing
  /-- `poll` -/
  | polling
  /-- `read`, and the rest of the round -/
  | reading
  | stopped
  deriving DecidableEq

/-- The variables of a loop. -/
structure Loop where
  pc : Pc
  exitRequested : Bool
  abnormalExit : Bool
  exitAfterUsbDisconnet : Bool
  seq : Nat
  files : Opened
  size : Port → Nat

/-- A loop before its first round; `s_logfile_seq` goes on from the last one. -/
def start (args : Arguments) (seq : Nat) : Loop :=
  ⟨.testing, false, false, args.isTty2tcp, seq, noFiles, fun _ => 0⟩

/-- A read that a loop makes: the port, the bytes, whether they start a dump, and what the functions meet. -/
structure Round (ε : Type v) where
  port : Port
  buf : List UInt8
  dump : Bool
  env : ε

/-- What happens: the signal handler asks for the end, the loop tests for it, `poll` returns, or `read` does. -/
inductive Event (ε : Type v) where
  | exit
  | test
  | poll (ready : Bool)
  | read (round : Round ε)

section Loop

variable {σ : Type u} {ε : Type v} (h : Handler) (ops : QlogOps σ ε)

/-- Behind the loop: the open file is closed, and the filter is cleaned if the end was asked for. -/
def finish (s : Loop) (world : σ) : Loop × σ :=
  let closed := if s.files.fd ≠ -1 then ops.logfileClose world s.files else world
  ({ s with pc := .stopped, files := if s.files.fd ≠ -1 then noFiles else s.files },
    if s.exitRequested && h.hasCleanFilter then ops.cleanFilter closed else closed)

/-- A log file is made when none is open. -/
def openFile (s : Loop) (world : σ) (env : ε) : Loop × σ :=
  if s.files.fd = -1 then
    let created := ops.logfileCreate env world s.seq
    if created.2.fd ≤ 0 then ({ s with files := created.2 }, created.1)
    else if h.hasInit then
      ({ s with files := created.2, seq := (s.seq + 1) % 2 ^ 32 }, ops.logfileInit created.1 created.2.fd s.seq)
    else ({ s with files := created.2 }, created.1)
  else (s, world)

/-- What was read is saved. -/
def save (s : Loop) (world : σ) (round : Round ε) : σ × Nat :=
  match h.sink round.port with
  | .ops file => ops.logfileSave round.env world round.port (s.files.get file) round.buf
  | .plain file => ops.qlogLogfileSave round.env world round.port (s.files.get file) round.buf
  | .nowhere => (world, 0)

/-- Behind a save: a save that fails ends the loop, and a full file is closed. The size of a third port that no test
looks at starts anew as well. -/
def afterSave (s : Loop) (saved : σ × Nat) (round : Round ε) : Loop × σ :=
  let size := Function.update s.size (h.counter round.port) (s.size (h.counter round.port) + saved.2)
  if saved.2 ≠ round.buf.length then
    finish h ops { s with size := size, exitAfterUsbDisconnet := true, exitRequested := true } saved.1
  else if h.full size then
    ({ s with pc := .testing, size := fun _ => 0, files := noFiles },
      ops.rotated (ops.logfileClose saved.1 s.files))
  else ({ s with pc := .testing, size := size }, saved.1)

/-- The rest of a round behind `qlog_poll_read_fds`. -/
def readRound (s : Loop) (world : σ) (round : Round ε) : Loop × σ :=
  if round.buf = [] then
    finish h ops { s with abnormalExit := s.abnormalExit || !s.exitRequested } world
  else if h.hasDump && round.dump then
    finish h ops { s with exitRequested := s.exitRequested || !h.dumpContinues } world
  else
    let opened := openFile h ops s world round.env
    if opened.1.files.fd ≤ 0 then finish h ops opened.1 opened.2
    else afterSave h ops opened.1 (save h ops opened.1 opened.2 round) round

/-- One step of a loop; what cannot happen in a state changes nothing. -/
def captureStep (s : Loop × σ) : Event ε → Loop × σ
  | .exit => ({ s.1 with exitRequested := true }, s.2)
  | .test =>
      if s.1.pc = .testing then
        if s.1.exitRequested then finish h ops s.1 s.2 else ({ s.1 with pc := .polling }, s.2)
      else s
  | .poll ready =>
      if s.1.pc = .polling then
        if ready && !s.1.exitRequested then ({ s.1 with pc := .reading }, s.2)
        else finish h ops { s.1 with abnormalExit := s.1.abnormalExit || !s.1.exitRequested } s.2
      else s
  | .read round => if s.1.pc = .reading then readRound h ops s.1 s.2 round else s

/-- A run of a loop. -/
def captureRun (s : Loop × σ) (events : List (Event ε)) : Loop × σ := events.foldl (captureStep h ops) s

end Loop

end QLog.Capture
