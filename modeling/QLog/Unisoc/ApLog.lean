import QLog.Cache.LogFile
import QLog.Unisoc.CatchBlueScreen
import QLog.Unisoc.Trigger

/-! # The AP log of the EXX00U

The capture loop saves what the general port brings to a second log file, and counts it in `savelog_size_general`.
Where the count leaves no room for one more read below `AP_LOG_SIZE`, both log files are closed, and the next read opens
new ones.

The count does not know of everything, though. A new file begins with a time stamp, and while a blue screen is dumped,
the code that waits for an answer saves to the same file what is none. -/

namespace QLog.ApLog

open Library Library.Pattern BlueScreen Kfifo KfifoTable
open Ec800g (ReadResult Cmd qlogBufSize)

/-- `AP_LOG_SIZE` -/
def apLogSize : Nat := 10 * 1024 * 1024

/-! ## A log file -/

/-- A slot of the table of caches, in its shape. -/
abbrev Slot := { f : Kfifo // f.Valid }

/-- A descriptor, its slot if it has one, and the bytes it has accepted so far. -/
structure LogFile where
  fd : Int
  slot : Option Slot
  bytes : List UInt8

/-- The value -1 of a descriptor. -/
def noLogFile : LogFile := ⟨-1, none, []⟩

/-- `qlog_logfile_save` -/
def LogFile.save (file : LogFile) (buf : List UInt8) (env : SaveEnv) : LogFile × Nat :=
  match file.slot with
  | some f =>
      let w := f.1.kfifoWrite buf env.cache
      (⟨file.fd, some ⟨w.fifo, (kfifoWrite_spec f.2 buf env.cache).1⟩, file.bytes ++ w.sent⟩,
        kfifoWriteRet w buf.length)
  | none => ({ file with bytes := file.bytes ++ buf.take env.poll }, min env.poll buf.length)

/-- `qlog_logfile_save` of `size` bytes where there are not so many: no write accepts them, and they are dropped. -/
def LogFile.saveTooMany (file : LogFile) (size : Nat) (env : SaveEnv) : LogFile × Nat :=
  match file.slot with
  | some f =>
      let d := (f.1.grow size env.cache.malloc).drain env.cache.drain
      (⟨file.fd, some ⟨d.1, (drain_spec (grow_spec f.2 size env.cache.malloc).1 env.cache.drain).1⟩,
        file.bytes ++ d.2.1⟩, if d.2.2 then size else 0)
  | none => (file, 0)

/-- `unisoc_exx00u_logfile_save`. The size is that of a read, which is -1 where the read has failed. -/
def LogFile.exx00uSave (file : LogFile) (buf : List UInt8) (size : Nat) (env : SaveEnv) : LogFile × Nat :=
  if size = 0 ∨ file.fd ≤ 0 then (file, size)
  else if buf.length < size then file.saveTooMany size env
  else file.save (buf.take size) env

/-- The bytes that this has for the file. -/
def LogFile.given (file : LogFile) (buf : List UInt8) (size : Nat) : Nat :=
  if file.fd ≤ 0 ∨ buf.length < size then 0 else size

/-- The bytes the file has, and those that wait in its slot. -/
def LogFile.weight (file : LogFile) : Nat := file.bytes.length + (file.slot.elim 0 fun f => f.1.pending.length)

/-- What the table of caches says of a descriptor. -/
def ofTable (t : KfifoTable) (ht : t.Valid) (fd : Int) (bytes : List UInt8) : LogFile :=
  ⟨fd, (t.kfifoIdx fd).map fun i => ⟨t i, ht i⟩, bytes⟩

section LogFile

variable {file : LogFile} {buf : List UInt8} {size : Nat}

/-- A descriptor sees nothing of the table but its own slot. -/
theorem save_ofTable {t : KfifoTable} (ht : t.Valid) (fd : Int) (bytes buf : List UInt8) (env : SaveEnv)
    (ht' : (qlogLogfileSave t fd buf env).1.Valid) :
    (ofTable t ht fd bytes).save buf env
      = (ofTable (qlogLogfileSave t fd buf env).1 ht' fd (bytes ++ (qlogLogfileSave t fd buf env).2.sent),
        (qlogLogfileSave t fd buf env).2.ret) := by
  cases hidx : t.kfifoIdx fd with
  | none =>
      simp only [qlogLogfileSave, hidx, ofTable, LogFile.save, Option.map_none]
  | some i =>
      simp only [qlogLogfileSave, hidx, ofTable, LogFile.save, Option.map_some, kfifoIdx_write hidx, write_self]

theorem weight_save_le (file : LogFile) (buf : List UInt8) (env : SaveEnv) :
    (file.save buf env).1.weight ≤ file.weight + buf.length := by
  rw [LogFile.save, LogFile.weight, LogFile.weight]
  cases hslot : file.slot with
  | none =>
      simp only [Option.elim_none, List.length_append, List.length_take]
      omega
  | some f =>
      have hlength : (f.1.kfifoWrite buf env.cache).sent.length + (f.1.kfifoWrite buf env.cache).fifo.pending.length
          ≤ f.1.pending.length + buf.length := by
        by_cases href : f.1.Refused buf env.cache
        · rw [kfifoWrite_refused href]
          simp
        · have hkeep := congrArg List.length ((kfifoWrite_spec f.2 buf env.cache).2 href)
          rw [List.length_append, List.length_append, List.length_take] at hkeep
          omega
      simp only [Option.elim_some, List.length_append]
      omega

theorem weight_saveTooMany (file : LogFile) (size : Nat) (env : SaveEnv) :
    (file.saveTooMany size env).1.weight = file.weight := by
  rw [LogFile.saveTooMany, LogFile.weight, LogFile.weight]
  cases hslot : file.slot with
  | none => simp only [hslot]
  | some f =>
      obtain ⟨hgrow, hpending⟩ := grow_spec f.2 size env.cache.malloc
      have hkeep := congrArg List.length (drain_spec hgrow env.cache.drain).2
      rw [List.length_append, hpending] at hkeep
      simp only [Option.elim_some, List.length_append]
      omega

/-- A file has no more than it has been given. -/
theorem weight_exx00uSave_le (file : LogFile) (buf : List UInt8) (size : Nat) (env : SaveEnv) :
    (file.exx00uSave buf size env).1.weight ≤ file.weight + file.given buf size := by
  rw [LogFile.exx00uSave, LogFile.given]
  split
  · exact Nat.le_add_right _ _
  · next hsave =>
      split
      · rw [weight_saveTooMany]
        exact Nat.le_add_right _ _
      · next hlong =>
          have hsaved := weight_save_le file (buf.take size) env
          rw [List.length_take] at hsaved
          rw [if_neg (by omega)]
          omega

theorem given_le (file : LogFile) (buf : List UInt8) (size : Nat) : file.given buf size ≤ size := by
  rw [LogFile.given]
  split <;> omega

/-- A save is to the same descriptor. -/
theorem exx00uSave_fd (file : LogFile) (buf : List UInt8) (size : Nat) (env : SaveEnv) :
    (file.exx00uSave buf size env).1.fd = file.fd := by
  rw [LogFile.exx00uSave]
  split
  · rfl
  · split
    · rw [LogFile.saveTooMany]
      split <;> rfl
    · rw [LogFile.save]
      split <;> rfl

theorem length_bytes_le_weight (file : LogFile) : file.bytes.length ≤ file.weight := Nat.le_add_right _ _

end LogFile

/-! ## The capture loop -/

/-- The port a read comes from. -/
inductive Port
  | dm
  | general
deriving DecidableEq

/-- What `qlog_logfile_create` meets: the descriptors that the two files get, and the time, unless `localtime` fails. -/
structure Created where
  logfd : Int
  secondLogfile : Int
  /-- `kfifo_alloc` may find a slot, which is empty then. -/
  slot : Option Slot
  empty : ∀ f ∈ slot, f.1.outPos = f.1.inPos
  time : Option (Nat × Nat)
  env : SaveEnv

/-- What a round of the capture loop meets. -/
structure CaptureRound where
  /-- The port in `fds[0]`. -/
  port : Port
  read : ReadResult
  created : Created
  env : SaveEnv
  /-- The result of a save to the first log file. -/
  saved : Nat

/-- A step of a capture session. -/
inductive CaptureInput
  | round (r : CaptureRound)
  /-- A step of the dump code, or of what runs beside it. -/
  | thread (step : CatchStep) (env : SaveEnv)

/-- The variables of `message_handle_unisoc`, with `second_logfile`. -/
structure Capture where
  /-- `rbuf` and the variables of `unisoc_exx00u_catch_blue_screen`, which has returned while the loop goes on. -/
  dump : CatchState
  logfileFd : Int
  second : LogFile
  savelogSizeDm : Nat
  savelogSizeGeneral : Nat
  /-- How many bytes the second file has been given that are not counted: no variable of the source. -/
  uncounted : Nat
  /-- The loop has been left. -/
  ended : Bool

/-- `unisoc_exx00u_catch_blue_screen` has not returned yet. -/
def running : CatchPc → Bool
  | .returned _ => false
  | _ => true

/-- `struct unisoc_8910_aplog_timestamp` -/
def timestampBytes (date ms : Nat) : List UInt8 := [0xad, 0x00, 0x08, 0xa2] ++ leBytes 4 date ++ leBytes 4 ms

/-- `qlog_logfile_create`, with `unisoc_8910_ap_file_write_timestap`. -/
def Capture.logfileCreate (s : Capture) (c : Created) : Capture :=
  let second : LogFile := ⟨c.secondLogfile, c.slot, []⟩
  match c.time with
  | none => { s with logfileFd := c.logfd, second := second, uncounted := 0 }
  | some (date, ms) =>
      { s with
          logfileFd := c.logfd
          second := (second.save (timestampBytes date ms) c.env).1
          uncounted := (timestampBytes date ms).length }

/-- `qlog_logfile_close`; what comes out are the bytes of a second file that is closed. -/
def Capture.logfileClose (s : Capture) : Capture × List (List UInt8) :=
  ({ s with logfileFd := -1, second := noLogFile, uncounted := 0 }, if s.second.fd = -1 then [] else [s.second.bytes])

/-- A `break`, and what stands behind the loop. -/
def Capture.breakLoop (s : Capture) : Capture × List (List UInt8) :=
  if s.logfileFd = -1 then ({ s with ended := true }, [])
  else ({ s.logfileClose.1 with ended := true }, s.logfileClose.2)

/-- The save of a read, with its result `wc`. -/
def Capture.save (s : Capture) (r : CaptureRound) : Capture × Nat :=
  match r.port with
  | .dm => ({ s with savelogSizeDm := s.savelogSizeDm + r.saved }, r.saved)
  | .general =>
      let w := s.second.exx00uSave r.read.chunk r.read.chunk.length r.env
      ({ s with second := w.1, savelogSizeGeneral := s.savelogSizeGeneral + w.2 }, w.2)

/-- The end of a round. -/
def Capture.rotate (logfileSize : Nat) (s : Capture) : Capture × List (List UInt8) :=
  if apLogSize - qlogBufSize < s.savelogSizeGeneral ∨ logfileSize ≤ s.savelogSizeDm then
    { s with savelogSizeDm := 0, savelogSizeGeneral := 0 }.logfileClose
  else (s, [])

/-- A round from the save on. -/
def Capture.record (logfileSize : Nat) (s : Capture) (r : CaptureRound) : Capture × List (List UInt8) :=
  if (s.save r).2 ≠ r.read.chunk.length then (s.save r).1.breakLoop else (s.save r).1.rotate logfileSize

/-- The read goes to the front of `rbuf`, and is tested there. -/
def Capture.enter (table : List Cmd) (s : Capture) (r : CaptureRound) : Capture :=
  let rbuf := overwrite s.dump.pbuf 0 r.read.chunk
  { s with
      dump := { s.dump with
        pbuf := rbuf
        rvalue := 0
        pc := if Matches Trigger.captureLoopPattern rbuf ∧ Announces s.dump.link.rid rbuf then .entry table
          else .returned 0 } }

/-- A round of the capture loop, up to where a dump begins. -/
def Capture.round (table : List Cmd) (logfileSize : Nat) (s : Capture) (r : CaptureRound) :
    Capture × List (List UInt8) :=
  -- nothing has come, or the read has failed
  if s.dump.exit ∨ r.read.chunk = [] then s.breakLoop
  else if running (s.enter table r).dump.pc then (s.enter table r, [])
  else if s.logfileFd = -1 then
    let s := (s.enter table r).logfileCreate r.created
    if s.logfileFd ≤ 0 then s.breakLoop else s.record logfileSize r
  else (s.enter table r).record logfileSize r

/-- What the dump code saves to the second log file. -/
def Capture.event (env : SaveEnv) (s : Capture) : CatchEvent → Capture
  | .apLog pbuf rc =>
      { s with
          second := (s.second.exx00uSave pbuf rc env).1
          uncounted := s.uncounted + s.second.given pbuf rc }
  | _ => s

/-- A step of the dump code, or of what runs beside it. A dump returns 1 or -1, and the loop is left. -/
def Capture.thread (s : Capture) (step : CatchStep) (env : SaveEnv) : Capture × List (List UInt8) :=
  let d := catchStep s.dump step
  let s' := d.2.foldl (Capture.event env) { s with dump := d.1 }
  if running s.dump.pc ∧ ¬ running d.1.pc then s'.breakLoop else (s', [])

/-- A step of a capture session. In a dump the loop does nothing. -/
def captureStep (table : List Cmd) (logfileSize : Nat) (s : Capture) : CaptureInput → Capture × List (List UInt8)
  | .round r => if s.ended ∨ running s.dump.pc then (s, []) else s.round table logfileSize r
  | .thread step env => if s.ended then (s, []) else s.thread step env

/-- A capture session begins, after some requests of the thread that asks for the status. -/
def captureStart (before : List Request) (rbuf : List UInt8) : Capture where
  dump := ⟨linkAfter before, rbuf, 0, false, .returned 0⟩
  logfileFd := -1
  second := noLogFile
  savelogSizeDm := 0
  savelogSizeGeneral := 0
  uncounted := 0
  ended := false

/-- A read of the general port is saved to a second file that has been there before. -/
def Capture.Saves (table : List Cmd) (s : Capture) (r : CaptureRound) : Prop :=
  s.ended = false ∧ s.logfileFd ≠ -1 ∧ r.port = .general ∧ s.dump.exit = false ∧ running s.dump.pc = false ∧
    running (s.enter table r).dump.pc = false

instance (table : List Cmd) (s : Capture) (r : CaptureRound) : Decidable (s.Saves table r) :=
  inferInstanceAs (Decidable (_ ∧ _))

/-- What an event of the dump code has for the second file. -/
def LogFile.givenBy (file : LogFile) : CatchEvent → Nat
  | .apLog pbuf rc => file.given pbuf rc
  | _ => 0

/-- How many bytes a step has for the second file. -/
def Capture.given (table : List Cmd) (s : Capture) : CaptureInput → Nat
  | .round r => if s.Saves table r then s.second.given r.read.chunk r.read.chunk.length else 0
  | .thread step _ => if s.ended then 0 else ((catchStep s.dump step).2.map s.second.givenBy).sum

theorem given_of_ended {table : List Cmd} {s : Capture} (h : s.ended = true) (input : CaptureInput) :
    s.given table input = 0 := by
  cases input with
  | round r => exact if_neg fun hsaves => absurd (h.symm.trans hsaves.1) (by decide)
  | thread step env => exact if_pos h

/-- What a step has for the second file finds room below `AP_LOG_SIZE`, behind what is counted and what is not. -/
def WithinLimit (table : List Cmd) (s : Capture) (input : CaptureInput) : Prop :=
  0 < s.given table input → s.uncounted + s.savelogSizeGeneral + s.given table input ≤ apLogSize

instance (table : List Cmd) (s : Capture) (input : CaptureInput) : Decidable (WithinLimit table s input) :=
  inferInstanceAs (Decidable (_ → _))

/-- **What rotation leaves has to do**: a read that takes the count past the threshold, so that the files are closed
behind it, fits with the time stamp and what the dump code has saved into the size of one read; and so does all that
the dump code saves. -/
def WithinMargin (table : List Cmd) (s : Capture) : CaptureInput → Prop
  | .round r =>
      apLogSize - qlogBufSize < s.savelogSizeGeneral + s.given table (.round r) →
        0 < s.given table (.round r) → s.uncounted + s.given table (.round r) ≤ qlogBufSize
  | .thread step env =>
      0 < s.given table (.thread step env) → s.uncounted + s.given table (.thread step env) ≤ qlogBufSize

instance (table : List Cmd) (s : Capture) : (input : CaptureInput) → Decidable (WithinMargin table s input)
  | .round _ => inferInstanceAs (Decidable (_ → _ → _))
  | .thread _ _ => inferInstanceAs (Decidable (_ → _))

/-! ## Every session -/

/-- The file of the general port is within the limit, and as long as the program runs its length is within what is
counted and what is known not to be. -/
structure Bounded (s : Capture) : Prop where
  weight_le : s.second.weight ≤ apLogSize
  counted : s.ended = false → s.second.weight ≤ s.uncounted + s.savelogSizeGeneral
  /-- The count begins with the file. -/
  closed : s.ended = false → s.logfileFd = -1 → s.savelogSizeGeneral = 0

/-- The file is `Bounded` after a step, and no file is too long that the step has closed. -/
def Good (r : Capture × List (List UInt8)) : Prop := Bounded r.1 ∧ ∀ bytes ∈ r.2, bytes.length ≤ apLogSize

section Session

variable {table : List Cmd} {logfileSize : Nat} {s : Capture} {r : CaptureRound}

theorem givenBy_congr {file file' : LogFile} (h : file'.fd = file.fd) : file'.givenBy = file.givenBy := by
  funext e
  cases e with
  | apLog pbuf rc => rw [LogFile.givenBy, LogFile.givenBy, LogFile.given, LogFile.given, h]
  | sent bytes => rfl
  | save data => rfl

theorem good_nil (h : Bounded s) : Good (s, []) := ⟨h, fun _ hbytes => by cases hbytes⟩

/-- A file that is closed is as long as it was. -/
theorem length_le_of_mem_logfileClose (h : s.second.weight ≤ apLogSize) :
    ∀ bytes ∈ s.logfileClose.2, bytes.length ≤ apLogSize := by
  intro bytes hbytes
  rw [Capture.logfileClose] at hbytes
  split at hbytes
  · cases hbytes
  · rw [List.mem_singleton.mp hbytes]
    exact (length_bytes_le_weight s.second).trans h

theorem bounded_of_ended (h : s.second.weight ≤ apLogSize) (hended : s.ended = true) : Bounded s :=
  ⟨h, fun hgoes => absurd (hended.symm.trans hgoes) (by decide),
    fun hgoes => absurd (hended.symm.trans hgoes) (by decide)⟩

theorem good_breakLoop (h : s.second.weight ≤ apLogSize) : Good s.breakLoop := by
  rw [Capture.breakLoop]
  split
  · exact good_nil (bounded_of_ended h rfl)
  · exact ⟨bounded_of_ended (Nat.zero_le apLogSize) rfl, length_le_of_mem_logfileClose h⟩

theorem good_rotate (h : Bounded s) : Good (s.rotate logfileSize) := by
  rw [Capture.rotate]
  split
  · refine ⟨⟨?_, fun _ => ?_, fun _ _ => rfl⟩, length_le_of_mem_logfileClose h.weight_le⟩
    · exact Nat.zero_le apLogSize
    · exact Nat.zero_le _
  · exact good_nil h

/-- A read is saved to files that are open. -/
theorem good_record (h : Bounded s) (hended : s.ended = false) (hopen : s.logfileFd ≠ -1)
    (hroom : r.port = .general → 0 < s.second.given r.read.chunk r.read.chunk.length →
      s.uncounted + s.savelogSizeGeneral + s.second.given r.read.chunk r.read.chunk.length ≤ apLogSize) :
    Good (s.record logfileSize r) := by
  have hcounted := h.counted hended
  have hsecond : (s.save r).1.second.weight ≤ apLogSize ∧
      ((s.save r).2 = r.read.chunk.length →
        (s.save r).1.second.weight ≤ (s.save r).1.uncounted + (s.save r).1.savelogSizeGeneral) := by
    rw [Capture.save]
    cases hport : r.port with
    | dm => exact ⟨h.weight_le, fun _ => hcounted⟩
    | general =>
        have hsaved := weight_exx00uSave_le s.second r.read.chunk r.read.chunk.length r.env
        have hlimit := h.weight_le
        have hgiven := given_le s.second r.read.chunk r.read.chunk.length
        replace hroom := hroom hport
        dsimp only
        refine ⟨?_, fun hfull => ?_⟩
        · rcases Nat.eq_zero_or_pos (s.second.given r.read.chunk r.read.chunk.length) with hnone | hsome
          · omega
          · have hfits := hroom hsome
            omega
        · omega
  have hkeeps : (s.save r).1.logfileFd = s.logfileFd := by
    rw [Capture.save]
    split <;> rfl
  rw [Capture.record]
  split
  · exact good_breakLoop hsecond.1
  · next hfull =>
      rw [not_not] at hfull
      exact good_rotate ⟨hsecond.1, fun _ => hsecond.2 hfull, fun _ hclosed => absurd (hkeeps.symm.trans hclosed) hopen⟩

/-- A new file begins with what is not counted. -/
theorem bounded_logfileCreate (hgeneral : s.savelogSizeGeneral = 0) (hended : s.ended = false) (c : Created) :
    (s.logfileCreate c).second.weight ≤ (s.logfileCreate c).uncounted ∧ (s.logfileCreate c).uncounted ≤ 12 ∧
      (s.logfileCreate c).savelogSizeGeneral = 0 ∧ (s.logfileCreate c).ended = false := by
  have hempty : (⟨c.secondLogfile, c.slot, []⟩ : LogFile).weight = 0 := by
    rw [LogFile.weight]
    cases hslot : c.slot with
    | none => rfl
    | some f =>
        rw [Option.elim_some, pending_eq_nil (c.empty f hslot)]
        rfl
  rw [Capture.logfileCreate]
  cases c.time with
  | none => exact ⟨Nat.le_of_eq hempty, Nat.zero_le 12, hgeneral, hended⟩
  | some time =>
      have hstamp : (timestampBytes time.1 time.2).length = 12 := by
        simp only [timestampBytes, List.length_append, length_leBytes]
        rfl
      have hsaved := weight_save_le ⟨c.secondLogfile, c.slot, []⟩ (timestampBytes time.1 time.2) c.env
      rw [hempty, Nat.zero_add] at hsaved
      exact ⟨hsaved, Nat.le_of_eq hstamp, hgeneral, hended⟩

theorem good_round (h : Bounded s) (hended : s.ended = false) (hrunning : running s.dump.pc = false)
    (hlimit : WithinLimit table s (.round r)) : Good (s.round table logfileSize r) := by
  have henter : Bounded (s.enter table r) := ⟨h.weight_le, h.counted, h.closed⟩
  rw [Capture.round]
  split
  · exact good_breakLoop h.weight_le
  · next hread =>
      rw [not_or, Bool.not_eq_true] at hread
      split
      · exact good_nil henter
      · next hdump =>
          split
          · next hclosed =>
              -- whatever the read is, there is room for it in a new file
              obtain ⟨hweight, hstamp, hgeneral, hgoes⟩ :=
                bounded_logfileCreate (s := s.enter table r) (h.closed hended hclosed) hended r.created
              have hfits : ((s.enter table r).logfileCreate r.created).second.weight ≤ apLogSize := by
                refine (hweight.trans hstamp).trans ?_
                decide
              dsimp only
              split
              · exact good_breakLoop hfits
              · next hfd =>
                  refine good_record ⟨hfits, fun _ => hweight.trans (Nat.le_add_right _ _), fun _ _ => hgeneral⟩ hgoes
                    (by omega) fun _ _ => ?_
                  have hchunk : 12 + r.read.chunk.length ≤ apLogSize :=
                    (Nat.add_le_add_left r.read.length_chunk_le 12).trans (by decide)
                  rw [hgeneral, Nat.add_zero]
                  exact (Nat.add_le_add hstamp (given_le _ _ _)).trans hchunk
          · next hopen =>
              refine good_record henter hended hopen fun hport hgiven => ?_
              have hsaves : s.Saves table r := ⟨hended, hopen, hport, hread.1, hrunning, Bool.not_eq_true _ ▸ hdump⟩
              rw [WithinLimit, Capture.given, if_pos hsaves] at hlimit
              exact hlimit hgiven

/-- What the dump code saves is not counted. -/
theorem foldl_event_spec (env : SaveEnv) (events : List CatchEvent) (s : Capture) :
    (events.foldl (Capture.event env) s).second.weight ≤ s.second.weight + (events.map s.second.givenBy).sum ∧
      (events.foldl (Capture.event env) s).uncounted = s.uncounted + (events.map s.second.givenBy).sum ∧
      (events.foldl (Capture.event env) s).savelogSizeGeneral = s.savelogSizeGeneral ∧
      (events.foldl (Capture.event env) s).logfileFd = s.logfileFd ∧
      (events.foldl (Capture.event env) s).ended = s.ended := by
  induction events generalizing s with
  | nil => exact ⟨Nat.le_refl _, rfl, rfl, rfl, rfl⟩
  | cons e events ih =>
      obtain ⟨hweight, huncounted, hgeneral, hfd, hended⟩ := ih (s.event env e)
      have hone : (s.event env e).second.weight ≤ s.second.weight + s.second.givenBy e ∧
          (s.event env e).uncounted = s.uncounted + s.second.givenBy e ∧
          (s.event env e).savelogSizeGeneral = s.savelogSizeGeneral ∧ (s.event env e).logfileFd = s.logfileFd ∧
          (s.event env e).ended = s.ended ∧ (s.event env e).second.fd = s.second.fd := by
        cases e with
        | apLog pbuf rc =>
            exact ⟨weight_exx00uSave_le s.second pbuf rc env, rfl, rfl, rfl, rfl, exx00uSave_fd s.second pbuf rc env⟩
        | sent bytes => exact ⟨Nat.le_refl _, rfl, rfl, rfl, rfl, rfl⟩
        | save data => exact ⟨Nat.le_refl _, rfl, rfl, rfl, rfl, rfl⟩
      obtain ⟨hweight', huncounted', hgeneral', hfd', hended', hsame⟩ := hone
      -- the later events are for the same descriptor
      rw [givenBy_congr hsame] at hweight huncounted
      rw [List.foldl_cons, List.map_cons, List.sum_cons]
      refine ⟨by omega, by omega, hgeneral.trans hgeneral', hfd.trans hfd', hended.trans hended'⟩

theorem good_thread (h : Bounded s) (hended : s.ended = false) {step : CatchStep} {env : SaveEnv}
    (hlimit : WithinLimit table s (.thread step env)) : Good (s.thread step env) := by
  have hspec := foldl_event_spec env (catchStep s.dump step).2 { s with dump := (catchStep s.dump step).1 }
  obtain ⟨hweight, huncounted, hgeneral, hfd, hgoes⟩ := hspec
  rw [WithinLimit, Capture.given, if_neg (by rw [hended]; decide)] at hlimit
  dsimp only at hweight huncounted hgeneral hfd hgoes
  have hcounted := h.counted hended
  have hfits : ((catchStep s.dump step).2.foldl (Capture.event env)
      { s with dump := (catchStep s.dump step).1 }).second.weight ≤ apLogSize := by
    have hbefore := h.weight_le
    rcases Nat.eq_zero_or_pos ((catchStep s.dump step).2.map s.second.givenBy).sum with hnone | hsome
    · omega
    · have hroom := hlimit hsome
      omega
  rw [Capture.thread]
  split
  · exact good_breakLoop hfits
  · refine good_nil ⟨hfits, fun _ => by omega, fun _ hclosed => ?_⟩
    rw [hgeneral]
    exact h.closed hended (hfd.symm.trans hclosed)

/-- A step that meets the condition keeps the invariant and closes no file that is too long. -/
theorem good_captureStep (h : Bounded s) {input : CaptureInput} (hlimit : WithinLimit table s input) :
    Good (captureStep table logfileSize s input) := by
  cases input with
  | round r =>
      rw [captureStep]
      split
      · exact good_nil h
      · next hgoes =>
          rw [not_or, Bool.not_eq_true, Bool.not_eq_true] at hgoes
          exact good_round h hgoes.1 hgoes.2 hlimit
  | thread step env =>
      rw [captureStep]
      split
      · exact good_nil h
      · next hgoes => exact good_thread h (Bool.not_eq_true _ ▸ hgoes) hlimit

theorem bounded_captureStart (before : List Request) (rbuf : List UInt8) : Bounded (captureStart before rbuf) :=
  ⟨Nat.zero_le _, fun _ => Nat.zero_le _, fun _ _ => rfl⟩

end Session

/-- In a session whose steps find room for what they save, no file that is closed is too long. -/
theorem length_le_of_withinLimit (table : List Cmd) (logfileSize : Nat) (before : List Request) (rbuf : List UInt8)
    (inputs : List CaptureInput)
    (h : Along (captureStep table logfileSize) (WithinLimit table) (captureStart before rbuf) inputs) :
    ∀ bytes ∈ (runSteps (captureStep table logfileSize) (captureStart before rbuf) inputs).2,
      bytes.length ≤ apLogSize := by
  have hstep : ∀ s input, Bounded s → WithinLimit table s input →
      Good (captureStep table logfileSize s input) := fun _ _ hbounded hlimit => good_captureStep hbounded hlimit
  exact forall_mem_runSteps_along _ hstep _ inputs (bounded_captureStart before rbuf) h

/-! ## What rotation does -/

/-- While the loop goes on, the count is at most the threshold, and what is not counted at most the rest. -/
def Rotated (s : Capture) : Prop :=
  s.ended = false → s.savelogSizeGeneral ≤ apLogSize - qlogBufSize ∧ s.uncounted ≤ qlogBufSize

section Rotated

variable {table : List Cmd} {logfileSize : Nat} {s : Capture} {r : CaptureRound}

theorem rotated_of_ended (h : s.ended = true) : Rotated s := fun hgoes => absurd (h.symm.trans hgoes) (by decide)

theorem rotated_breakLoop (s : Capture) : Rotated s.breakLoop.1 := by
  refine rotated_of_ended ?_
  rw [Capture.breakLoop]
  split <;> rfl

/-- Behind a save the count is below the threshold, or it begins again. -/
theorem rotated_record (h : s.uncounted ≤ qlogBufSize) : Rotated (s.record logfileSize r).1 := by
  have hsame : (s.save r).1.uncounted = s.uncounted := by
    rw [Capture.save]
    split <;> rfl
  rw [Capture.record]
  split
  · exact rotated_breakLoop _
  · rw [Capture.rotate]
    split
    · exact fun _ => ⟨Nat.zero_le _, Nat.zero_le _⟩
    · next hbelow =>
        rw [not_or, Nat.not_lt] at hbelow
        exact fun _ => ⟨hbelow.1, hsame ▸ h⟩

theorem rotated_round (h : Rotated s) (hended : s.ended = false) : Rotated (s.round table logfileSize r).1 := by
  obtain ⟨-, hmargin⟩ := h hended
  rw [Capture.round]
  split
  · exact rotated_breakLoop s
  · split
    · exact h
    · split
      · -- the time stamp is not more than a read
        have hstamp : ((s.enter table r).logfileCreate r.created).uncounted ≤ qlogBufSize := by
          rw [Capture.logfileCreate]
          cases r.created.time with
          | none => exact Nat.zero_le _
          | some time =>
              simp only [timestampBytes, List.length_append, length_leBytes]
              decide
        dsimp only
        split
        · exact rotated_breakLoop _
        · exact rotated_record hstamp
      · exact rotated_record hmargin

theorem rotated_thread (h : Rotated s) (hended : s.ended = false) {step : CatchStep} {env : SaveEnv}
    (hroom : WithinMargin table s (.thread step env)) : Rotated (s.thread step env).1 := by
  obtain ⟨hcount, hmargin⟩ := h hended
  have hspec := foldl_event_spec env (catchStep s.dump step).2 { s with dump := (catchStep s.dump step).1 }
  obtain ⟨-, huncounted, hgeneral, -, -⟩ := hspec
  rw [WithinMargin, Capture.given, if_neg (by rw [hended]; decide)] at hroom
  dsimp only at huncounted hgeneral
  rw [Capture.thread]
  split
  · exact rotated_breakLoop _
  · refine fun _ => ⟨hgeneral.trans_le hcount, ?_⟩
    rw [huncounted]
    rcases Nat.eq_zero_or_pos ((catchStep s.dump step).2.map s.second.givenBy).sum with hnone | hsome
    · rw [hnone]
      exact hmargin
    · exact hroom hsome

theorem rotated_captureStep (h : Rotated s) {input : CaptureInput} (hroom : WithinMargin table s input) :
    Rotated (captureStep table logfileSize s input).1 := by
  cases input with
  | round r =>
      rw [captureStep]
      split
      · exact h
      · next hgoes =>
          rw [not_or, Bool.not_eq_true] at hgoes
          exact rotated_round h hgoes.1
  | thread step env =>
      rw [captureStep]
      split
      · exact h
      · next hgoes => exact rotated_thread h (Bool.not_eq_true _ ▸ hgoes) hroom

/-- Where the count is at most the threshold, what rotation leaves is room enough. -/
theorem withinLimit_of_rotated (h : Rotated s) {input : CaptureInput} (hroom : WithinMargin table s input) :
    WithinLimit table s input := by
  have hsum : apLogSize - qlogBufSize + qlogBufSize = apLogSize := rfl
  intro hgiven
  have hgoes : s.ended = false := by
    rw [← Bool.not_eq_true]
    intro hended
    rw [given_of_ended hended] at hgiven
    exact absurd hgiven (Nat.lt_irrefl 0)
  obtain ⟨hcount, hmargin⟩ := h hgoes
  cases input with
  | round r =>
      rcases Nat.lt_or_ge (apLogSize - qlogBufSize) (s.savelogSizeGeneral + s.given table (.round r)) with
        hlast | hmore
      · have hfits := hroom hlast hgiven
        omega
      · omega
  | thread step env =>
      have hfits := hroom hgiven
      omega

end Rotated

/-- **When AP log files stay within 10 MiB**: in every session in which what is saved behind the threshold of the
rotation, with the time stamp and what has been saved in a dump, fits into the size of one read, every second log file
that is closed does. -/
theorem apLog_le_apLogSize_along (table : List Cmd) (logfileSize : Nat) (before : List Request) (rbuf : List UInt8)
    (inputs : List CaptureInput)
    (h : Along (captureStep table logfileSize) (WithinMargin table) (captureStart before rbuf) inputs) :
    ∀ bytes ∈ (runSteps (captureStep table logfileSize) (captureStart before rbuf) inputs).2,
      bytes.length ≤ apLogSize := by
  apply length_le_of_withinLimit
  have hstep : ∀ s input, Rotated s → WithinMargin table s input →
      Rotated (captureStep table logfileSize s input).1 := fun _ _ hs hroom => rotated_captureStep hs hroom
  have hstart : Rotated (captureStart before rbuf) := fun _ => ⟨Nat.zero_le _, Nat.zero_le _⟩
  exact along_mono _ (fun s input hboth => withinLimit_of_rotated hboth.2 hboth.1) _ inputs
    (along_and_invariant _ hstep _ inputs hstart h)

/-- A descriptor that accepts a whole read. -/
def acceptsAll : SaveEnv := ⟨⟨⟨qlogBufSize, 0⟩, none, ⟨0, 0⟩⟩, qlogBufSize⟩

/-- What `kfifo_alloc` finds. -/
def freshSlot : Slot :=
  ⟨⟨4, 0, 0, 0, []⟩, Nat.le_refl _, Nat.le_refl _, Nat.zero_le _, Nat.dvd_zero _, rfl, fun _ => rfl⟩

/-- A round with a read of the general port. -/
def generalRead (bytes : List UInt8) (h : bytes.length ≤ qlogBufSize) : CaptureRound where
  port := .general
  read := .bytes bytes h
  created := ⟨3, 4, some freshSlot, fun _ hf => Option.mem_some_iff.mp hf ▸ rfl, some (0, 0), acceptsAll⟩
  env := acceptsAll
  saved := 0

/-- The table of a region of four bytes. -/
def smallRegion : List Cmd := [.region ⟨"psram".toList, 0x80000000, 4, 0⟩]

/-- A read of three bytes, then a blue screen, then a dump, in which four bytes of the AP log come before the answer. -/
def shortSession : List CaptureInput :=
  [.round (generalRead [1, 2, 3] (by decide)), .round (generalRead [0xad, 0x00, 0x03, 0xff, 0x00, 0x01] (by decide))] ++
    [[], [], [], [], [], [4, 5, 6, 7], answerBytes 1 [8, 9, 10, 11] 0, [], [], []].map fun bytes =>
      .thread (.dump ⟨true, if h : bytes.length ≤ qlogBufSize then .bytes bytes h else .failed, true, true⟩) acceptsAll

/-! ## A read too many -/

/-- A descriptor that accepts so many bytes. -/
def Accepts (env : SaveEnv) (size : Nat) : Prop := size ≤ env.cache.direct.accept ∧ size ≤ env.poll

section TooLong

variable {table : List Cmd} {logfileSize : Nat} {s : Capture} {r : CaptureRound}

theorem save_of_accepts {file : LogFile} (hslot : ∀ f ∈ file.slot, f.1.outPos = f.1.inPos) {buf : List UInt8}
    {env : SaveEnv} (hbuf : 0 < buf.length) (henv : Accepts env buf.length) :
    file.save buf env = ({ file with bytes := file.bytes ++ buf }, buf.length) := by
  obtain ⟨fd, slot, bytes⟩ := file
  cases slot with
  | none =>
      rw [LogFile.save]
      dsimp only
      rw [List.take_of_length_le henv.2, Nat.min_eq_right henv.2]
  | some f =>
      have hdirect : f.1.kfifoWrite buf env.cache = ⟨f.1, buf, 0, true⟩ := by
        rw [kfifoWrite, if_pos (hslot f rfl)]
        dsimp only
        rw [Nat.min_eq_right henv.1, if_pos hbuf, if_pos rfl]
      rw [LogFile.save]
      simp only [hdirect, kfifoWriteRet, if_true]

theorem exx00uSave_of_accepts {file : LogFile} (hfd : 0 < file.fd) (hslot : ∀ f ∈ file.slot, f.1.outPos = f.1.inPos)
    {buf : List UInt8} {env : SaveEnv} (hbuf : 0 < buf.length) (henv : Accepts env buf.length) :
    file.exx00uSave buf buf.length env = ({ file with bytes := file.bytes ++ buf }, buf.length) := by
  rw [LogFile.exx00uSave, if_neg (by omega), if_neg (Nat.lt_irrefl _), List.take_length,
    save_of_accepts hslot hbuf henv]

/-- A file that has all it has been given. -/
structure Complete (s : Capture) : Prop where
  fd : 0 < s.second.fd
  slot : ∀ f ∈ s.second.slot, f.1.outPos = f.1.inPos
  length : s.second.bytes.length = s.uncounted + s.savelogSizeGeneral

/-- A chunk has come to the second file, and is counted. -/
def Capture.take (s : Capture) (chunk : List UInt8) : Capture :=
  { s with
      second := { s.second with bytes := s.second.bytes ++ chunk }
      savelogSizeGeneral := s.savelogSizeGeneral + chunk.length }

theorem Complete.take (hs : Complete s) (chunk : List UInt8) : Complete (s.take chunk) := by
  refine ⟨hs.fd, hs.slot, ?_⟩
  have hlength := hs.length
  rw [Capture.take, List.length_append, hlength, Nat.add_assoc]

theorem rotate_of_full (hfull : apLogSize - qlogBufSize < s.savelogSizeGeneral) (hfd : s.second.fd ≠ -1) :
    (s.rotate logfileSize).2 = [s.second.bytes] := by
  rw [Capture.rotate, if_pos (Or.inl hfull)]
  exact if_neg hfd

/-- What a read does to a complete file. -/
theorem record_of_complete (hs : Complete s) (hport : r.port = .general) (henv : Accepts r.env r.read.chunk.length)
    (hread : 0 < r.read.chunk.length) :
    s.record logfileSize r = (s.take r.read.chunk).rotate logfileSize := by
  have hsave : s.save r = (s.take r.read.chunk, r.read.chunk.length) := by
    rw [Capture.save, hport]
    dsimp only
    rw [exx00uSave_of_accepts hs.fd hs.slot hread henv]
    rfl
  rw [Capture.record, hsave, if_neg (not_not.mpr rfl)]

/-- A round whose read is saved to files that are open. -/
theorem captureStep_of_saves (hsaves : s.Saves table r) (hread : 0 < r.read.chunk.length) :
    captureStep table logfileSize s (.round r) = (s.enter table r).record logfileSize r := by
  obtain ⟨hgoes, hopen, -, hexit, hloop, hquiet⟩ := hsaves
  have hcome : ¬ (s.dump.exit = true ∨ r.read.chunk = []) := by
    rw [hexit]
    rintro (h | h)
    · cases h
    · rw [h] at hread
      exact absurd hread (Nat.lt_irrefl 0)
  rw [captureStep, if_neg (by simp [hgoes, hloop]), Capture.round, if_neg hcome, if_neg (by simp [hquiet]),
    if_neg hopen]

/-- A read that takes the count past the threshold closes the file, which has all it has been given. -/
theorem exists_closed_of_full (logfileSize : Nat) (hs : Complete s) (hsaves : s.Saves table r)
    (henv : Accepts r.env r.read.chunk.length) (hread : 0 < r.read.chunk.length)
    (hfull : apLogSize - qlogBufSize < s.savelogSizeGeneral + r.read.chunk.length) :
    ∃ bytes ∈ (captureStep table logfileSize s (.round r)).2,
      bytes.length = s.uncounted + (s.savelogSizeGeneral + r.read.chunk.length) := by
  have henter : Complete (s.enter table r) := ⟨hs.fd, hs.slot, hs.length⟩
  have hopen : ((s.enter table r).take r.read.chunk).second.fd ≠ -1 := by
    have hfd := hs.fd
    show s.second.fd ≠ -1
    omega
  rw [captureStep_of_saves hsaves hread, record_of_complete henter hsaves.2.2.1 henv hread, rotate_of_full hfull hopen]
  exact ⟨_, List.mem_singleton_self _, (henter.take r.read.chunk).length⟩

/-- **A read that finds no room makes the file too long**, where the file has all it has been given: the round that
saves it closes the file. -/
theorem exists_tooLong_of_not_withinLimit (hs : Complete s) (hstamp : s.uncounted ≤ qlogBufSize)
    (henv : Accepts r.env r.read.chunk.length) (hlimit : ¬ WithinLimit table s (.round r)) :
    ∃ bytes ∈ (captureStep table logfileSize s (.round r)).2, apLogSize < bytes.length := by
  rw [WithinLimit, Classical.not_imp, Capture.given] at hlimit
  obtain ⟨hpos, hover⟩ := hlimit
  split at hpos
  · next hsaves =>
      rw [if_pos hsaves] at hover
      have hgiven := given_le s.second r.read.chunk r.read.chunk.length
      obtain ⟨bytes, hbytes, hlength⟩ := exists_closed_of_full logfileSize hs hsaves henv (by omega)
        (by omega)
      exact ⟨bytes, hbytes, by omega⟩
  · exact absurd hpos (Nat.lt_irrefl 0)

end TooLong

/-- A read of zeros. -/
def zeroRead (n : Nat) (h : n ≤ qlogBufSize) : CaptureRound :=
  generalRead (List.replicate n 0) (List.length_replicate.trans_le h)

/-- A read that fills `rbuf`. -/
def fullRead : CaptureRound := zeroRead qlogBufSize (Nat.le_refl _)

/-- A read that leaves as much room as a time stamp needs. -/
def lastRead : CaptureRound := zeroRead (qlogBufSize - 12) (Nat.sub_le _ _)

/-- After `n` of these reads the file is open, complete and `n` reads long besides the time stamp, and no dump is on
its way. -/
structure Filled (n : Nat) (s : Capture) : Prop where
  complete : Complete s
  goes : s.ended = false
  exit : s.dump.exit = false
  loop : running s.dump.pc = false
  logfileFd : s.logfileFd = 3
  dm : s.savelogSizeDm = 0
  uncounted : s.uncounted = 12
  general : s.savelogSizeGeneral = n * qlogBufSize

section FullRead

variable {s : Capture} {r : CaptureRound}

theorem length_fullRead : fullRead.read.chunk.length = qlogBufSize := List.length_replicate

/-- Zeros announce no blue screen. -/
theorem enter_zeroRead (s : Capture) {n : Nat} (hn : n + 1 ≤ qlogBufSize) :
    (s.enter [] (zeroRead (n + 1) hn)).dump.pc = .returned 0 := by
  have hzeros : (zeroRead (n + 1) hn).read.chunk = 0 :: List.replicate n 0 := rfl
  dsimp only [Capture.enter]
  rw [if_neg]
  rw [overwrite_zero, hzeros, List.cons_append]
  rintro ⟨hpattern, -⟩
  exact absurd (hpattern.1 0xad rfl) (by decide)

theorem enter_fullRead (s : Capture) : (s.enter [] fullRead).dump.pc = .returned 0 := enter_zeroRead s _

theorem enter_lastRead (s : Capture) : (s.enter [] lastRead).dump.pc = .returned 0 := enter_zeroRead s _

/-- A read of the general port that announces no blue screen is saved. -/
theorem Filled.saves {n : Nat} (h : Filled n s) (hport : r.port = .general)
    (hquiet : (s.enter [] r).dump.pc = .returned 0) : s.Saves [] r :=
  ⟨h.goes, by rw [h.logfileFd]; decide, hport, h.exit, h.loop, by rw [hquiet]; rfl⟩

theorem saves_fullRead {n : Nat} (h : Filled n s) : s.Saves [] fullRead := h.saves rfl (enter_fullRead s)

theorem saves_lastRead {n : Nat} (h : Filled n s) : s.Saves [] lastRead := h.saves rfl (enter_lastRead s)

theorem length_lastRead : lastRead.read.chunk.length = qlogBufSize - 12 := List.length_replicate

/-- All of a read that is saved is given to the file. -/
theorem Filled.given {n : Nat} (h : Filled n s) (hsaves : s.Saves [] r) :
    s.given [] (.round r) = r.read.chunk.length := by
  have hfd := h.complete.fd
  rw [Capture.given, if_pos hsaves, LogFile.given, if_neg (by omega)]

theorem Filled.enter {n : Nat} (h : Filled n s) : Filled n (s.enter [] fullRead) :=
  ⟨⟨h.complete.fd, h.complete.slot, h.complete.length⟩, h.goes, h.exit, congrArg running (enter_fullRead s),
    h.logfileFd, h.dm, h.uncounted, h.general⟩

/-- There are 160 reads before the count is too high. -/
theorem Filled.record {n : Nat} (h : Filled n s) (hn : n < 159) :
    Filled (n + 1) (s.record (2 ^ 20) fullRead).1 := by
  have hgeneral := h.general
  have hread := length_fullRead
  have hcount : (s.take fullRead.read.chunk).savelogSizeGeneral = (n + 1) * qlogBufSize := by
    rw [Capture.take, hread, hgeneral, Nat.succ_mul]
  rw [record_of_complete h.complete rfl ⟨Nat.le_of_eq hread, Nat.le_of_eq hread⟩ (by rw [hread]; decide),
    Capture.rotate, if_neg]
  · exact ⟨h.complete.take _, h.goes, h.exit, h.loop, h.logfileFd, h.dm, h.uncounted, hcount⟩
  · rw [hcount, Capture.take, h.dm, apLogSize, qlogBufSize]
    omega

/-- The first read opens the files. -/
theorem filled_one : Filled 1 (captureStep [] (2 ^ 20) (captureStart [] []) (.round fullRead)).1 := by
  set s := (captureStart [] []).enter [] fullRead with hs
  have hquiet : running s.dump.pc = false := congrArg running (enter_fullRead _)
  have hcreated : Filled 0 (s.logfileCreate fullRead.created) :=
    ⟨⟨by decide, fun _ hf => Option.mem_some_iff.mp hf ▸ rfl, rfl⟩, rfl, rfl, hquiet, rfl, rfl, rfl, rfl⟩
  have hcome : ¬ ((captureStart [] []).dump.exit = true ∨ fullRead.read.chunk = []) := by
    rintro (h | h)
    · cases h
    · exact absurd (length_fullRead.symm.trans (congrArg List.length h)) (by decide)
  have hround : captureStep [] (2 ^ 20) (captureStart [] []) (.round fullRead)
      = (s.logfileCreate fullRead.created).record (2 ^ 20) fullRead := by
    rw [captureStep, if_neg (by decide), Capture.round, if_neg hcome, ← hs, if_neg (by simp [hquiet]),
      if_pos (show (captureStart [] []).logfileFd = -1 from rfl)]
    exact if_neg (by decide)
  rw [hround]
  exact hcreated.record (by decide)

theorem filled_replicate {n : Nat} (hn : n < 159) :
    Filled (n + 1) (runSteps (captureStep [] (2 ^ 20)) (captureStart [] [])
      (List.replicate (n + 1) (.round fullRead))).1 := by
  induction n with
  | zero =>
      rw [Nat.zero_add, List.replicate_one, runSteps_singleton]
      exact filled_one
  | succ n ih =>
      have hfilled := ih (by omega)
      rw [List.replicate_succ', runSteps_append, prepend_fst, runSteps_singleton,
        captureStep_of_saves (saves_fullRead hfilled) (by rw [length_fullRead]; decide)]
      exact hfilled.enter.record hn

/-- Of these reads none takes the count past the threshold. -/
theorem along_withinMargin_fullRead {n : Nat} (hn : n < 159) :
    Along (captureStep [] (2 ^ 20)) (WithinMargin []) (captureStart [] [])
      (List.replicate (n + 1) (.round fullRead)) := by
  induction n with
  | zero => exact ⟨fun _ hgiven => absurd hgiven (Nat.lt_irrefl 0), trivial⟩
  | succ n ih =>
      have hfilled := filled_replicate (show n < 159 by omega)
      rw [List.replicate_succ', along_append]
      refine ⟨ih (by omega), fun hlast => ?_, trivial⟩
      rw [hfilled.given (saves_fullRead hfilled), hfilled.general, length_fullRead, apLogSize, qlogBufSize] at hlast
      omega

/-- A session with a dump, whose file is closed with the AP log that came in it, and a session whose file is closed by
the rotation when it has 10 MiB. -/
theorem apLog_le_apLogSize_along_twoSessions :
    ((runSteps (captureStep smallRegion (2 ^ 20)) (captureStart [] []) shortSession).2
        = [timestampBytes 0 0 ++ [1, 2, 3, 4, 5, 6, 7]] ∧
      ∀ bytes ∈ (runSteps (captureStep smallRegion (2 ^ 20)) (captureStart [] []) shortSession).2,
        bytes.length ≤ apLogSize) ∧
    (∃ bytes ∈ (runSteps (captureStep [] (2 ^ 20)) (captureStart [] [])
        (List.replicate 159 (.round fullRead) ++ [.round lastRead])).2, bytes.length = apLogSize) ∧
      ∀ bytes ∈ (runSteps (captureStep [] (2 ^ 20)) (captureStart [] [])
        (List.replicate 159 (.round fullRead) ++ [.round lastRead])).2, bytes.length ≤ apLogSize := by
  have hfilled := filled_replicate (show 158 < 159 by decide)
  have hgiven := hfilled.given (saves_lastRead hfilled)
  have hread := length_lastRead
  refine ⟨⟨by decide, apLog_le_apLogSize_along smallRegion (2 ^ 20) [] [] shortSession (by decide)⟩, ?_,
    apLog_le_apLogSize_along [] (2 ^ 20) [] [] _ ?_⟩
  · -- the last read takes the count past the threshold
    obtain ⟨bytes, hbytes, hlength⟩ := exists_closed_of_full (2 ^ 20) hfilled.complete
      (saves_lastRead hfilled) (by rw [Accepts, hread]; decide) (by rw [hread]; decide)
      (by rw [hfilled.general, hread]; decide)
    rw [hfilled.uncounted, hfilled.general, hread] at hlength
    refine ⟨bytes, ?_, hlength⟩
    rw [runSteps_append, prepend_snd, runSteps_singleton]
    exact List.mem_append_right _ hbytes
  · rw [along_append]
    refine ⟨along_withinMargin_fullRead (show 158 < 159 by decide), fun _ _ => ?_, trivial⟩
    rw [hgiven, hread, hfilled.uncounted]
    decide

/-- 160 reads of 64 KiB make a file of 10 MiB and a time stamp. -/
theorem not_apLog_le_apLogSize :
    ¬ ∀ (table : List Cmd) (logfileSize : Nat) (before : List Request) (rbuf : List UInt8)
      (inputs : List CaptureInput),
      ∀ bytes ∈ (runSteps (captureStep table logfileSize) (captureStart before rbuf) inputs).2,
        bytes.length ≤ apLogSize := by
  intro h
  have hread := length_fullRead
  have hfilled := filled_replicate (show 158 < 159 by decide)
  replace h := h [] (2 ^ 20) [] [] (List.replicate (158 + 1 + 1) (.round fullRead))
  rw [List.replicate_succ', runSteps_append, prepend_snd, runSteps_singleton] at h
  set s := (runSteps (captureStep [] (2 ^ 20)) (captureStart [] []) (List.replicate (158 + 1) (.round fullRead))).1
  have hover : ¬ WithinLimit [] s (.round fullRead) := by
    have hgiven : s.given [] (.round fullRead) = qlogBufSize := by
      have hfd := hfilled.complete.fd
      rw [Capture.given, if_pos (saves_fullRead hfilled), LogFile.given, if_neg (by omega), hread]
    rw [WithinLimit, hgiven, hfilled.uncounted, hfilled.general]
    decide
  obtain ⟨bytes, hbytes, hlong⟩ := exists_tooLong_of_not_withinLimit hfilled.complete
    (by rw [hfilled.uncounted]; decide) ⟨Nat.le_of_eq hread, Nat.le_of_eq hread⟩ hover
  exact Nat.not_le.mpr hlong (h bytes (List.mem_append_right _ hbytes))

end FullRead

end QLog.ApLog
