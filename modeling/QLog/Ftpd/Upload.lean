import Mathlib.Tactic.Ring
import QLog.Ftpd.CommandLine
import QLog.Library.ByteBuffer

/-! # Uploads

`STOR` empties the file, or goes on where `REST` has told it to, and `APPE` goes on at the end. An upload may be cut off
at any byte: the connection fails or is closed, the disk is full, the client sends `ABOR`, or the alarm of the data
connection ends the session, which it does to every upload that takes longer than `tunable_data_connection_timeout`. A
client that asks for the size and sends the rest, as often as it takes, never spoils what has come before, as long as
the size has no more digits than `str_to_longlong` reads. -/

namespace QLog.Ftpd

open Library

/-- A reply: its code and its text. -/
structure Reply where
  code : Nat
  text : List UInt8
  deriving DecidableEq

/-- A reply and its terminator fit into the array of `ftp_relply`. -/
def Reply.fits (r : Reply) : Bool := (decimalText r.code).length + r.text.length + 4 ≤ 1024

/-- The alarm that is set, by `start_cmdio_alarm` or by `start_data_alarm`. -/
inductive Alarm where
  | cmdio
  | data
  deriving DecidableEq

/-- What a session says when an alarm ends it: in `handle_alarm_timeout`, or in `handle_siglarm`. -/
def Alarm.reply : Alarm → Reply
  | .cmdio => ⟨421, textOf "Timeout."⟩
  | .data => ⟨421, textOf "Data timeout. Reconnect. Sorry."⟩

/-- `handle_siglarm`, so many times, with `data_process`: it is cleared, or the process ends. -/
def handleSiglarm : Bool → Nat → Option Bool
  | dataProcess, 0 => some dataProcess
  | true, n + 1 => handleSiglarm false n
  | false, _ + 1 => none

/-- The loop of `str_to_longlong`, from the last character to the first. -/
def toLonglongFrom (result mult : Nat) : List UInt8 → Nat
  | [] => result
  | ch :: rest =>
      if isDigit ch then toLonglongFrom (result + (ch.toNat - 0x30) * mult) (mult * 10) rest else 0

/-- `str_to_longlong` -/
def strToLonglong (str : List UInt8) : Nat := if 15 < str.length then 0 else toLonglongFrom 0 1 str.reverse

/-- What the transfers use of a session. -/
structure Session where
  isAscii : Bool
  restartPos : Nat
  aborReceived : Bool
  /-- `data_fd` is not -1. -/
  dataFd : Bool

/-- What the transfers use of a session that begins. -/
def sessionStart : Session := ⟨false, 0, false, false⟩

/-- The name of an entry of a directory. -/
structure IsEntry (name : List UInt8) : Prop where
  ne_nil : name ≠ []
  no_zero : 0 ∉ name
  no_slash : 0x2f ∉ name
  ne_dot : name ≠ [0x2e]
  ne_dots : name ≠ [0x2e, 0x2e]
  short : name.length ≤ 255

/-- The regular files of the current directory, by the names of their entries; no two entries are links to one file.
What is not the name of an entry is no key, though a path may lead to the same file. -/
def Files := List UInt8 → Option (List UInt8)

/-- What comes of `get_transfer_fd`: there was neither a `PORT` nor a `PASV`, or the connection fails, or is there. -/
inductive TransferFd where
  | notChosen
  | failed
  | connected
  deriving DecidableEq

/-- What comes of a `read` of the data connection, with how much of it `writen` writes to the file; or the handler of
`SIGURG` has run; or `handle_siglarm` ends the process, when so much of a chunk has been written. Nothing in an upload
sets `data_process`, so the first alarm does, or the second if a download has set it before. -/
inductive DataRead where
  | bytes (chunk : List UInt8) (written : Nat)
  | interrupted
  | failed
  | urgent
  | timeout (chunk : List UInt8) (written : Nat)

/-- A `write` at an offset; a gap behind the end of the file is filled up with zeros. -/
def writeAt (file : List UInt8) (pos : Nat) (bytes : List UInt8) : List UInt8 :=
  if bytes = [] then file else overwrite (file ++ List.replicate (pos - file.length) 0) pos bytes

/-- What the loop of `upload_common` leaves: the file, `flag`, `abor_received`, and whether the process has ended. -/
structure Uploaded where
  file : List UInt8
  flag : Nat
  abor : Bool
  timedOut : Bool

/-- The loop of `upload_common`; behind the last read the connection is closed. -/
def uploadLoop (file : List UInt8) (pos : Nat) (abor : Bool) : List DataRead → Uploaded
  | [] => ⟨file, 0, abor, false⟩
  | .urgent :: reads => uploadLoop file pos true reads
  | .interrupted :: reads => uploadLoop file pos abor reads
  | .failed :: _ => ⟨file, 2, abor, false⟩
  | .timeout chunk written :: _ => ⟨if abor then file else writeAt file pos (chunk.take written), 0, abor, true⟩
  | .bytes chunk written :: reads =>
      if chunk = [] then ⟨file, 0, abor, false⟩
      else if abor then ⟨file, 2, abor, false⟩
      else if written < chunk.length then ⟨writeAt file pos (chunk.take written), 1, abor, false⟩
      else uploadLoop (writeAt file pos chunk) (pos + chunk.length) abor reads

/-- How far an upload has come in front of its loop. -/
inductive UploadPoint where
  | connected
  | opened
  | truncated
  deriving DecidableEq

/-- What an upload meets: the results of its calls, where in front of its loop `handle_siglarm` ends the process, if it
does, and its reads. -/
structure UploadEnv where
  transferFd : TransferFd
  opened : Bool
  locked : Bool
  truncated : Bool
  seeked : Bool
  timeout : Option UploadPoint
  reads : List DataRead

/-- `"Opening BINARY mode data connection %s (%lld bytes)"` -/
def openingText (isAscii : Bool) (arg : List UInt8) (size : Nat) : List UInt8 :=
  textOf (if isAscii then "Opening ASCII mode data connection " else "Opening BINARY mode data connection ") ++ arg
    ++ textOf " (" ++ decimalText size ++ textOf " bytes)"

/-- The replies behind the loop of an upload, and `check_abor`. -/
def uploadReplies (flag : Nat) (abor : Bool) : List Reply :=
  (if flag = 0 then if abor then [] else [⟨226, textOf "Transfer complete."⟩]
    else if flag = 1 then [⟨451, textOf "Failure writing to local file."⟩]
    else [⟨426, textOf "Failure reading from network stream."⟩]) ++
    if abor then [⟨226, textOf "ABOR successful."⟩] else []

/-- A session, its files, the replies it sends, and whether its process has ended. -/
structure Handling where
  session : Session
  files : Files
  replies : List Reply
  ended : Bool

/-- The file of a name has new content. -/
def Files.set (files : Files) (name content : List UInt8) : Files := Function.update files name (some content)

/-- `upload_common` behind `get_transfer_fd`, with the restart position. -/
def uploadFile (isAppend : Bool) (s : Session) (files : Files) (name : List UInt8) (offset : Nat) (env : UploadEnv) :
    Handling :=
  let refused (files : Files) (text : String) : Handling := ⟨s, files, [⟨553, textOf text⟩], false⟩
  let timedOut (files : Files) : Handling := ⟨s, files, [Alarm.data.reply], true⟩
  if env.timeout = some .connected then timedOut files
  else if !env.opened then refused files "Create file failed1."
  else
    let old := (files name).getD []
    if env.timeout = some .opened then timedOut (files.set name old)
    else if !env.locked then refused (files.set name old) "Create file faild2."
    else if !isAppend && decide (offset = 0) && !env.truncated then ⟨s, files.set name old, [], false⟩
    else
      let file := if !isAppend && decide (offset = 0) then [] else old
      if env.timeout = some .truncated then timedOut (files.set name file)
      else if !env.seeked then
        refused (files.set name file)
          (if isAppend then "Create file failed5."
            else if offset = 0 then "Create file failed3." else "Create file failed4.")
      else
        let pos := if isAppend then file.length else offset
        let uploaded := uploadLoop file pos s.aborReceived env.reads
        let opening : Reply := ⟨150, openingText s.isAscii name file.length⟩
        if uploaded.timedOut then ⟨s, files.set name uploaded.file, [opening, Alarm.data.reply], true⟩
        else
          ⟨{ s with dataFd := false, aborReceived := false }, files.set name uploaded.file,
            opening :: uploadReplies uploaded.flag uploaded.abor, false⟩

/-- `upload_common` -/
def uploadCommon (isAppend : Bool) (s : Session) (files : Files) (name : List UInt8) (env : UploadEnv) : Handling :=
  match env.transferFd with
  | .notChosen => ⟨s, files, [⟨425, textOf "Use PORT or PASV first."⟩], false⟩
  | .failed => ⟨s, files, [], false⟩
  | .connected => uploadFile isAppend { s with restartPos := 0, dataFd := true } files name s.restartPos env

/-- `do_rest` -/
def doRest (s : Session) (arg : List UInt8) : Session × Reply :=
  ({ s with restartPos := strToLonglong arg },
    ⟨350, textOf "Restart position accepted (" ++ decimalText (strToLonglong arg) ++ textOf ")."⟩)

/-- `do_size`, of a file that is regular if it is there. -/
def doSize (files : Files) (statOk : Bool) (name : List UInt8) : Reply :=
  match files name with
  | some file => if statOk then ⟨213, decimalText file.length⟩ else ⟨550, textOf "SIZE operation "⟩
  | none => ⟨550, textOf "SIZE operation "⟩

/-! ## A client that resumes -/

/-- What becomes of what a client sends: so many bytes and one more come in one read, and some of them are written,
unless the process ends. -/
inductive Arrival where
  | bytes (more written : Nat)
  | interrupted
  | failed
  | urgent
  | timeout (more written : Nat)

/-- The reads of a connection on which some data are sent. -/
def arrive : List UInt8 → List Arrival → List DataRead
  | _, [] => []
  | data, .bytes more written :: arrivals =>
      if data = [] then [] else .bytes (data.take (more + 1)) written :: arrive (data.drop (more + 1)) arrivals
  | data, .interrupted :: arrivals => .interrupted :: arrive data arrivals
  | data, .failed :: arrivals => .failed :: arrive data arrivals
  | data, .urgent :: arrivals => .urgent :: arrive data arrivals
  | data, .timeout more written :: arrivals => .timeout (data.take (more + 1)) written :: arrive data arrivals

/-- What an attempt meets; the reads of its upload are `arrivals`. The session may end by its alarm before `STOR` is
read. -/
structure Attempt where
  idle : Bool
  statOk : Bool
  env : UploadEnv
  arrivals : List Arrival

/-- The restart position of a client: the size, if it has been told. -/
def positionOf (reply : Reply) : Nat := if reply.code = 213 then decimalValue reply.text else 0

/-- What `SIZE` tells the client. -/
def Attempt.position (attempt : Attempt) (files : Files) (name : List UInt8) : Nat :=
  positionOf (doSize files attempt.statOk name)

/-- One attempt: `SIZE`, `REST`, and `STOR` with the rest of the data. -/
def attemptUpload (data name : List UInt8) (s : Session) (files : Files) (attempt : Attempt) : Handling :=
  let position := attempt.position files name
  if attempt.idle then ⟨s, files, [Alarm.cmdio.reply], true⟩
  else
    uploadCommon false (doRest s (decimalText position)).1 files name
      { attempt.env with reads := arrive (data.drop position) attempt.arrivals }

/-- Attempts, one after the other; after a session that has ended the next one begins. -/
def attemptUploads (data name : List UInt8) : Session × Files → List Attempt → Session × Files
  | s, [] => s
  | s, attempt :: attempts =>
      let handling := attemptUpload data name s.1 s.2 attempt
      attemptUploads data name (if handling.ended then sessionStart else handling.session, handling.files) attempts

/-- The data arrive and are written. -/
def Arrives : List UInt8 → List Arrival → Prop
  | data, [] => data = []
  | data, .bytes more written :: arrivals =>
      data = [] ∨ (data.take (more + 1)).length ≤ written ∧ Arrives (data.drop (more + 1)) arrivals
  | data, .interrupted :: arrivals => Arrives data arrivals
  | _, .failed :: _ | _, .urgent :: _ | _, .timeout .. :: _ => False

/-- Nothing goes wrong in an attempt: no alarm ends the session, its calls succeed, and the rest of the data arrives. -/
structure Attempt.Succeeds (attempt : Attempt) (rest : List UInt8) : Prop where
  notIdle : attempt.idle = false
  inTime : attempt.env.timeout = none
  connected : attempt.env.transferFd = .connected
  opened : attempt.env.opened = true
  locked : attempt.env.locked = true
  truncated : attempt.env.truncated = true
  seeked : attempt.env.seeked = true
  arrives : Arrives rest attempt.arrivals

/-! ## Numbers -/

section Numbers

theorem toLonglongFrom_eq (digits : List UInt8) (result mult : Nat) (h : ∀ d ∈ digits, isDigit d = true) :
    toLonglongFrom result mult digits = result + mult * decimalValue digits.reverse := by
  induction digits generalizing result mult with
  | nil => rfl
  | cons d digits ih =>
      obtain ⟨hd, hdigits⟩ := List.forall_mem_cons.mp h
      have hvalue : decimalValue (digits.reverse ++ [d]) = 10 * decimalValue digits.reverse + (d.toNat - 0x30) := by
        rw [decimalValue, decimalValue, List.foldl_append]
        rfl
      rw [toLonglongFrom, if_pos hd, ih _ _ hdigits, List.reverse_cons, hvalue]
      ring

/-- A number of at most fifteen digits is read back. -/
theorem strToLonglong_decimalText {n : Nat} (hn : n < 10 ^ 15) : strToLonglong (decimalText n) = n := by
  have hlen : (decimalText n).length ≤ 15 := by
    rw [decimalText, List.length_map]
    exact (Nat.length_toDigits_le_iff (by decide) (by decide)).mpr hn
  have hdigits : ∀ d ∈ (decimalText n).reverse, isDigit d = true := fun d hd =>
    isDigit_of_mem_decimalText (List.mem_reverse.mp hd)
  rw [strToLonglong, if_neg (not_lt.mpr hlen), toLonglongFrom_eq _ _ _ hdigits, List.reverse_reverse,
    decimalValue_decimalText, Nat.zero_add, Nat.one_mul]

end Numbers

/-! ## The loop -/

section Loop

theorem writeAt_length (file bytes : List UInt8) : writeAt file file.length bytes = file ++ bytes := by
  have happend := overwrite_append bytes file []
  rw [List.append_nil, List.drop_nil, List.append_nil] at happend
  rw [writeAt, Nat.sub_self, List.replicate_zero, List.append_nil, happend]
  split_ifs with hbytes
  · rw [hbytes, List.append_nil]
  · rfl

/-- Whatever happens, a front of what is sent comes behind what the file had. -/
theorem uploadLoop_arrive (arrivals : List Arrival) (file rest : List UInt8) (abor : Bool) :
    ∃ n, (uploadLoop file file.length abor (arrive rest arrivals)).file = file ++ rest.take n := by
  have hnone : ∀ file rest : List UInt8, ∃ n, file = file ++ rest.take n := fun file rest =>
    ⟨0, by rw [List.take_zero, List.append_nil]⟩
  induction arrivals generalizing file rest abor with
  | nil =>
      rw [arrive]
      exact hnone file rest
  | cons arrival arrivals ih =>
      cases arrival with
      | interrupted =>
          rw [arrive, uploadLoop]
          exact ih file rest abor
      | failed =>
          rw [arrive, uploadLoop]
          exact hnone file rest
      | urgent =>
          rw [arrive, uploadLoop]
          exact ih file rest true
      | timeout more written =>
          rw [arrive, uploadLoop]
          dsimp only
          split_ifs
          · exact hnone file rest
          · refine ⟨min written (more + 1), ?_⟩
            rw [writeAt_length, List.take_take]
      | bytes more written =>
          rw [arrive]
          by_cases hrest : rest = []
          · rw [if_pos hrest, uploadLoop]
            exact hnone file rest
          · have hchunk : rest.take (more + 1) ≠ [] := fun h =>
              (List.take_eq_nil_iff.mp h).elim (Nat.succ_ne_zero more) hrest
            rw [if_neg hrest, uploadLoop, if_neg hchunk]
            split_ifs with habor hwritten
            · exact hnone file rest
            · refine ⟨min written (more + 1), ?_⟩
              dsimp only
              rw [writeAt_length, List.take_take]
            · obtain ⟨n, hn⟩ := ih (file ++ rest.take (more + 1)) (rest.drop (more + 1)) abor
              refine ⟨more + 1 + n, ?_⟩
              rw [writeAt_length, ← List.length_append, hn, List.append_assoc]
              exact congrArg (file ++ ·) (List.take_add ..).symm

/-- What arrives is in the file. -/
theorem uploadLoop_of_arrives (arrivals : List Arrival) (file rest : List UInt8) (h : Arrives rest arrivals) :
    uploadLoop file file.length false (arrive rest arrivals) = ⟨file ++ rest, 0, false, false⟩ := by
  induction arrivals generalizing file rest with
  | nil =>
      obtain rfl : rest = [] := h
      rw [arrive, uploadLoop, List.append_nil]
  | cons arrival arrivals ih =>
      cases arrival with
      | interrupted =>
          rw [arrive, uploadLoop]
          exact ih file rest h
      | failed => exact h.elim
      | urgent => exact h.elim
      | timeout more written => exact h.elim
      | bytes more written =>
          rw [arrive]
          by_cases hrest : rest = []
          · rw [if_pos hrest, uploadLoop, hrest, List.append_nil]
          · have hchunk : rest.take (more + 1) ≠ [] := fun h =>
              (List.take_eq_nil_iff.mp h).elim (Nat.succ_ne_zero more) hrest
            obtain ⟨hwritten, harrives⟩ := h.resolve_left hrest
            rw [if_neg hrest, uploadLoop, if_neg hchunk, if_neg Bool.false_ne_true, if_neg (not_lt.mpr hwritten),
              writeAt_length, ← List.length_append, ih _ _ harrives, List.append_assoc, List.take_append_drop]

end Loop

/-! ## Attempts -/

section Attempts

variable {data name : List UInt8} {s : Session} {files : Files} {attempt : Attempt}

@[simp] theorem Files.set_self (files : Files) (name content : List UInt8) :
    files.set name content name = some content :=
  Function.update_self ..

theorem Files.set_of_ne (files : Files) {name other : List UInt8} (hne : other ≠ name) (content : List UInt8) :
    files.set name content other = files other := Function.update_of_ne hne ..

/-- What is left of a file in front of the loop. -/
def keptOf (isAppend : Bool) (offset : Nat) (old : List UInt8) : List UInt8 :=
  if !isAppend && decide (offset = 0) then [] else old

/-- An upload that is over and not answered: its file cannot be truncated. -/
def UploadEnv.Unanswered (env : UploadEnv) : Prop :=
  env.timeout ≠ some .connected ∧ env.opened = true ∧ env.timeout ≠ some .opened ∧ env.locked = true ∧
    env.truncated = false

/-- The upload comes to its loop. -/
structure UploadEnv.Enters (env : UploadEnv) : Prop where
  inTime : env.timeout = none
  opened : env.opened = true
  locked : env.locked = true
  seeked : env.seeked = true

/-- An upload behind its loop. -/
def afterLoop (s : Session) (files : Files) (name : List UInt8) (size : Nat) (uploaded : Uploaded) : Handling :=
  let opening : Reply := ⟨150, openingText s.isAscii name size⟩
  if uploaded.timedOut then ⟨s, files.set name uploaded.file, [opening, Alarm.data.reply], true⟩
  else
    ⟨{ s with dataFd := false, aborReceived := false }, files.set name uploaded.file,
      opening :: uploadReplies uploaded.flag uploaded.abor, false⟩

/-- What an upload comes to: it is not answered, it is over in front of its loop, with one reply, or it goes through the
loop. -/
theorem uploadFile_cases (isAppend : Bool) (s : Session) (files : Files) (name : List UInt8) (offset : Nat)
    (env : UploadEnv) :
    (isAppend = false ∧ offset = 0 ∧ env.Unanswered) ∧
        uploadFile isAppend s files name offset env = ⟨s, files.set name ((files name).getD []), [], false⟩ ∨
      ¬ (isAppend = false ∧ offset = 0 ∧ env.Unanswered) ∧
        ((∃ files' reply ended, uploadFile isAppend s files name offset env = ⟨s, files', [reply], ended⟩ ∧
            200 ≤ reply.code ∧ reply.fits = true ∧
            (files' = files ∨ files' = files.set name ((files name).getD []) ∨
              files' = files.set name (keptOf isAppend offset ((files name).getD [])))) ∨
          env.Enters ∧ uploadFile isAppend s files name offset env =
            afterLoop s files name (keptOf isAppend offset ((files name).getD [])).length
              (uploadLoop (keptOf isAppend offset ((files name).getD []))
                (if isAppend then (keptOf isAppend offset ((files name).getD [])).length else offset) s.aborReceived
                env.reads)) := by
  rw [uploadFile]
  dsimp only
  by_cases hconnected : env.timeout = some .connected
  · rw [if_pos hconnected]
    exact .inr ⟨fun h => h.2.2.1 hconnected, .inl ⟨_, _, _, rfl, by decide, by decide, .inl rfl⟩⟩
  rw [if_neg hconnected]
  cases hopened : env.opened with
  | false => exact .inr ⟨fun h => absurd (hopened.symm.trans h.2.2.2.1) Bool.false_ne_true,
      .inl ⟨_, _, _, rfl, by decide, by decide, .inl rfl⟩⟩
  | true =>
      rw [Bool.not_true, if_neg Bool.false_ne_true]
      by_cases hcreated : env.timeout = some .opened
      · rw [if_pos hcreated]
        exact .inr ⟨fun h => h.2.2.2.2.1 hcreated, .inl ⟨_, _, _, rfl, by decide, by decide, .inr (.inl rfl)⟩⟩
      rw [if_neg hcreated]
      cases hlocked : env.locked with
      | false => exact .inr ⟨fun h => absurd (hlocked.symm.trans h.2.2.2.2.2.1) Bool.false_ne_true,
          .inl ⟨_, _, _, rfl, by decide, by decide, .inr (.inl rfl)⟩⟩
      | true =>
          rw [Bool.not_true, if_neg Bool.false_ne_true]
          by_cases hsilent : (!isAppend && decide (offset = 0) && !env.truncated) = true
          · rw [if_pos hsilent]
            rw [Bool.and_eq_true_iff, Bool.and_eq_true_iff, Bool.not_eq_true', Bool.not_eq_true',
              decide_eq_true_iff] at hsilent
            exact .inl ⟨⟨hsilent.1.1, hsilent.1.2, hconnected, hopened, hcreated, hlocked, hsilent.2⟩, rfl⟩
          · have hnot : ¬ (isAppend = false ∧ offset = 0 ∧ env.Unanswered) := by
              rintro ⟨rfl, rfl, -, -, -, -, htruncated⟩
              rw [htruncated] at hsilent
              exact hsilent rfl
            rw [if_neg hsilent]
            refine .inr ⟨hnot, ?_⟩
            by_cases htruncated : env.timeout = some .truncated
            · rw [if_pos htruncated]
              exact .inl ⟨_, _, _, rfl, by decide, by decide, .inr (.inr rfl)⟩
            rw [if_neg htruncated]
            cases hseeked : env.seeked with
            | false =>
                refine .inl ⟨_, _, _, rfl, show 200 ≤ 553 by decide, ?_, .inr (.inr rfl)⟩
                split_ifs <;> decide
            | true =>
                refine .inr ⟨⟨?_, hopened, hlocked, hseeked⟩, rfl⟩
                cases htimeout : env.timeout with
                | none => rfl
                | some point => cases point <;> simp_all

/-- What an upload leaves of the files: they are as they were, or the file has what it had, or nothing, or what it had
up to the offset and a front of what was sent. -/
theorem uploadFile_files {offset : Nat} {rest : List UInt8} {env : UploadEnv} {arrivals : List Arrival}
    (hreads : env.reads = arrive rest arrivals) (hoffset : offset = 0 ∨ offset = ((files name).getD []).length) :
    (uploadFile false s files name offset env).files = files ∨
      ∃ new, (uploadFile false s files name offset env).files = files.set name new ∧
        (new = (files name).getD [] ∨ new = [] ∨ ∃ n, new = ((files name).getD []).take offset ++ rest.take n) := by
  have hkept : keptOf false offset ((files name).getD []) = ((files name).getD []).take offset := by
    rw [keptOf, Bool.not_false, Bool.true_and]
    rcases hoffset with rfl | heq
    · rw [decide_eq_true rfl, if_pos rfl, List.take_zero]
    · split_ifs with hzero
      · rw [of_decide_eq_true hzero, List.take_zero]
      · rw [heq, List.take_length]
  have hpos : (keptOf false offset ((files name).getD [])).length = offset := by
    rw [hkept, List.length_take]
    omega
  rcases uploadFile_cases false s files name offset env with
    ⟨-, heq⟩ | ⟨-, ⟨files', reply, ended, heq, -, -, hsame | hsame | hsame⟩ | ⟨-, heq⟩⟩
  · rw [heq]
    exact Or.inr ⟨_, rfl, Or.inl rfl⟩
  · rw [heq, hsame]
    exact Or.inl rfl
  · rw [heq, hsame]
    exact Or.inr ⟨_, rfl, Or.inl rfl⟩
  · rw [heq, hsame]
    refine Or.inr ⟨_, rfl, Or.inr (Or.inr ⟨0, ?_⟩)⟩
    rw [hkept, List.take_zero, List.append_nil]
  · obtain ⟨n, hn⟩ := uploadLoop_arrive arrivals (keptOf false offset ((files name).getD [])) rest s.aborReceived
    rw [← hreads, hpos, hkept] at hn
    rw [heq, if_neg Bool.false_ne_true, hkept]
    refine Or.inr ⟨_, ?_, Or.inr (Or.inr ⟨n, hn⟩)⟩
    rw [afterLoop]
    split_ifs <;> rfl

/-- A client goes on at the end of the file, or starts anew. -/
theorem position_cases (attempt : Attempt) (files : Files) (name : List UInt8) :
    attempt.position files name = 0 ∨ attempt.position files name = ((files name).getD []).length := by
  rw [Attempt.position, doSize]
  cases files name with
  | none => exact Or.inl rfl
  | some file =>
      dsimp only
      split_ifs
      · exact Or.inr (decimalValue_decimalText file.length)
      · exact Or.inl rfl

/-- The position that the server is told is the one that the client means. -/
theorem restartPos_doRest (hlen : data.length < 10 ^ 15) (hfront : ∀ file, files name = some file → file <+: data) :
    (doRest s (decimalText (attempt.position files name))).1.restartPos = attempt.position files name := by
  refine strToLonglong_decimalText ?_
  rcases position_cases attempt files name with hzero | hsize
  · rw [hzero]
    decide
  · rw [hsize]
    cases hfile : files name with
    | none => decide
    | some file => exact Nat.lt_of_le_of_lt (hfront file hfile).length_le hlen

/-- The file is a front of the data, and goes on where it ends. -/
theorem take_position (attempt : Attempt) (hfront : ∀ file, files name = some file → file <+: data) :
    ((files name).getD []).take (attempt.position files name) = data.take (attempt.position files name) := by
  rcases position_cases attempt files name with hzero | hsize
  · rw [hzero, List.take_zero, List.take_zero]
  · rw [hsize, List.take_length]
    cases hfile : files name with
    | none => rfl
    | some file => exact List.prefix_iff_eq_take.mp (hfront file hfile)

/-- An upload at the position leaves a front of the data, and the other files as they are. -/
theorem uploadFile_front {env : UploadEnv} (hfront : ∀ file, files name = some file → file <+: data)
    (hreads : env.reads = arrive (data.drop (attempt.position files name)) attempt.arrivals) :
    (∀ file, (uploadFile false s files name (attempt.position files name) env).files name = some file → file <+: data) ∧
      ∀ other, other ≠ name →
        (uploadFile false s files name (attempt.position files name) env).files other = files other := by
  rcases uploadFile_files (s := s) hreads (position_cases attempt files name) with hsame | ⟨new, hnew, hcases⟩
  · rw [hsame]
    exact ⟨hfront, fun _ _ => rfl⟩
  · rw [hnew]
    refine ⟨fun file hfile => ?_, fun other hne => Files.set_of_ne files hne new⟩
    rw [Files.set_self, Option.some_inj] at hfile
    subst hfile
    rcases hcases with rfl | rfl | ⟨n, rfl⟩
    · cases hfile : files name with
      | none => exact List.nil_prefix
      | some file => exact hfront file hfile
    · exact List.nil_prefix
    · rw [take_position attempt hfront, ← List.take_add]
      exact List.take_prefix _ _

/-- An upload at the position that arrives completes the data. -/
theorem uploadFile_complete {env : UploadEnv} (hfront : ∀ file, files name = some file → file <+: data)
    (hreads : env.reads = arrive (data.drop (attempt.position files name)) attempt.arrivals)
    (habor : s.aborReceived = false) (htimeout : env.timeout = none) (hopened : env.opened = true)
    (hlocked : env.locked = true) (htruncated : env.truncated = true) (hseeked : env.seeked = true)
    (harrives : Arrives (data.drop (attempt.position files name)) attempt.arrivals) :
    (uploadFile false s files name (attempt.position files name) env).files name = some data ∧
      (uploadFile false s files name (attempt.position files name) env).replies.map Reply.code = [150, 226] := by
  have htake := take_position attempt hfront
  have hcases := position_cases attempt files name
  generalize attempt.position files name = position at *
  have hfile : (if position = 0 then [] else (files name).getD []) = data.take position := by
    rw [← htake]
    split_ifs with hzero
    · rw [hzero, List.take_zero]
    · rw [hcases.resolve_left hzero, List.take_length]
  have hlength : (data.take position).length = position := by
    rw [← htake]
    rcases hcases with rfl | heq
    · rfl
    · rw [heq, List.take_length]
  have hloop := uploadLoop_of_arrives attempt.arrivals (data.take position) (data.drop position) harrives
  rw [hlength, List.take_append_drop] at hloop
  simp [uploadFile, htimeout, hopened, hlocked, htruncated, hseeked, hfile, habor, hreads, hloop, uploadReplies]

/-- A session that its alarm ends has done nothing. -/
theorem attemptUpload_idle (data name : List UInt8) (s : Session) (files : Files) (hidle : attempt.idle = true) :
    attemptUpload data name s files attempt = ⟨s, files, [Alarm.cmdio.reply], true⟩ := by
  rw [attemptUpload, if_pos hidle]

theorem attemptUpload_eq (data name : List UInt8) (s : Session) (files : Files) (hidle : attempt.idle = false) :
    attemptUpload data name s files attempt =
      uploadCommon false (doRest s (decimalText (attempt.position files name))).1 files name
        { attempt.env with reads := arrive (data.drop (attempt.position files name)) attempt.arrivals } := by
  rw [attemptUpload, if_neg (by rw [hidle]; exact Bool.false_ne_true)]

/-- One attempt leaves a front of the data, and the other files as they are. -/
theorem attemptUpload_front (s : Session) (attempt : Attempt) (hlen : data.length < 10 ^ 15)
    (hfront : ∀ file, files name = some file → file <+: data) :
    (∀ file, (attemptUpload data name s files attempt).files name = some file → file <+: data) ∧
      ∀ other, other ≠ name → (attemptUpload data name s files attempt).files other = files other := by
  cases hidle : attempt.idle with
  | true =>
      rw [attemptUpload_idle data name s files hidle]
      exact ⟨hfront, fun _ _ => rfl⟩
  | false =>
      rw [attemptUpload_eq data name s files hidle, uploadCommon]
      cases attempt.env.transferFd with
      | notChosen => exact ⟨hfront, fun _ _ => rfl⟩
      | failed => exact ⟨hfront, fun _ _ => rfl⟩
      | connected =>
          dsimp only
          rw [restartPos_doRest hlen hfront]
          exact uploadFile_front hfront rfl

/-- An attempt in which nothing goes wrong completes the file. -/
theorem attemptUpload_complete (hlen : data.length < 10 ^ 15)
    (hfront : ∀ file, files name = some file → file <+: data) (habor : s.aborReceived = false)
    (h : attempt.Succeeds (data.drop (attempt.position files name))) :
    (attemptUpload data name s files attempt).files name = some data ∧
      (attemptUpload data name s files attempt).replies.map Reply.code = [150, 226] := by
  rw [attemptUpload_eq data name s files h.notIdle, uploadCommon, h.connected]
  dsimp only
  rw [restartPos_doRest hlen hfront]
  exact uploadFile_complete hfront rfl habor h.inTime h.opened h.locked h.truncated h.seeked h.arrives

/-- The reply at the beginning of an upload fits, if the name is that of an entry. -/
theorem fits_openingText (isAscii : Bool) (hname : IsEntry name) {size : Nat} (hsize : size < 10 ^ 15) :
    (⟨150, openingText isAscii name size⟩ : Reply).fits = true := by
  have hcode : (decimalText 150).length = 3 := by decide
  have hascii : (textOf "Opening ASCII mode data connection ").length = 35 := by decide
  have hbinary : (textOf "Opening BINARY mode data connection ").length = 36 := by decide
  have hback : (textOf " (").length = 2 ∧ (textOf " bytes)").length = 7 := by decide
  have hdigits : (decimalText size).length ≤ 15 := by
    rw [decimalText, List.length_map]
    exact (Nat.length_toDigits_le_iff (by decide) (by decide)).mpr hsize
  have hshort := hname.short
  rw [Reply.fits, decide_eq_true_eq]
  simp only [openingText, List.length_append, hcode, hback]
  cases isAscii
  · rw [if_neg Bool.false_ne_true, hbinary]
    omega
  · rw [if_pos rfl, hascii]
    omega

theorem fits_uploadReplies (flag : Nat) (abor : Bool) : ∀ reply ∈ uploadReplies flag abor, reply.fits = true := by
  intro reply hreply
  rw [uploadReplies] at hreply
  rcases List.mem_append.mp hreply with hreply | hreply
  · split_ifs at hreply
    · exact absurd hreply List.not_mem_nil
    all_goals
      rw [List.mem_singleton.mp hreply]
      decide
  · split_ifs at hreply
    · rw [List.mem_singleton.mp hreply]
      decide
    · exact absurd hreply List.not_mem_nil

theorem fits_afterLoop (s : Session) (files : Files) (hname : IsEntry name) {size : Nat} (hsize : size < 10 ^ 15)
    (uploaded : Uploaded) : ∀ reply ∈ (afterLoop s files name size uploaded).replies, reply.fits = true := by
  have hopening := fits_openingText s.isAscii hname hsize
  rw [afterLoop]
  cases uploaded.timedOut with
  | true => exact List.forall_mem_cons.mpr ⟨hopening, List.forall_mem_singleton.mpr (by decide)⟩
  | false => exact List.forall_mem_cons.mpr ⟨hopening, fits_uploadReplies _ _⟩

/-- What an upload replies fits into the array. -/
theorem fits_uploadFile (offset : Nat) (env : UploadEnv) (hname : IsEntry name)
    (hold : ((files name).getD []).length < 10 ^ 15) :
    ∀ reply ∈ (uploadFile false s files name offset env).replies, reply.fits = true := by
  have hkept : (keptOf false offset ((files name).getD [])).length < 10 ^ 15 := by
    rw [keptOf]
    split_ifs
    · decide
    · exact hold
  rcases uploadFile_cases false s files name offset env with
    ⟨-, heq⟩ | ⟨-, ⟨files', reply, ended, heq, -, hfits, -⟩ | ⟨-, heq⟩⟩
  · rw [heq]
    exact fun reply hreply => absurd hreply List.not_mem_nil
  · rw [heq]
    exact List.forall_mem_singleton.mpr hfits
  · rw [heq]
    exact fits_afterLoop s files hname hkept _

theorem fits_attemptUpload (data : List UInt8) (s : Session) (attempt : Attempt) (hname : IsEntry name)
    (hold : ((files name).getD []).length < 10 ^ 15) :
    ∀ reply ∈ (attemptUpload data name s files attempt).replies, reply.fits = true := by
  cases hidle : attempt.idle with
  | true =>
      rw [attemptUpload_idle data name s files hidle]
      exact List.forall_mem_singleton.mpr (by decide)
  | false =>
      rw [attemptUpload_eq data name s files hidle, uploadCommon]
      cases attempt.env.transferFd with
      | notChosen => exact List.forall_mem_singleton.mpr (by decide)
      | failed => exact fun reply hreply => absurd hreply List.not_mem_nil
      | connected => exact fits_uploadFile _ _ hname hold

theorem aborReceived_afterLoop (files : Files) (name : List UInt8) (size : Nat) (uploaded : Uploaded)
    (habor : s.aborReceived = false) : (afterLoop s files name size uploaded).session.aborReceived = false := by
  rw [afterLoop]
  cases uploaded.timedOut with
  | true => exact habor
  | false => rfl

/-- What `ABOR` has left does not last. -/
theorem aborReceived_uploadFile (isAppend : Bool) {offset : Nat} {env : UploadEnv} (habor : s.aborReceived = false) :
    (uploadFile isAppend s files name offset env).session.aborReceived = false := by
  rcases uploadFile_cases isAppend s files name offset env with
    ⟨-, heq⟩ | ⟨-, ⟨files', reply, ended, heq, -⟩ | ⟨-, heq⟩⟩
  · rw [heq]
    exact habor
  · rw [heq]
    exact habor
  · rw [heq]
    exact aborReceived_afterLoop files name _ _ habor

theorem aborReceived_attemptUpload (data name : List UInt8) (files : Files) (attempt : Attempt)
    (habor : s.aborReceived = false) :
    (attemptUpload data name s files attempt).session.aborReceived = false := by
  cases hidle : attempt.idle with
  | true =>
      rw [attemptUpload_idle data name s files hidle]
      exact habor
  | false =>
      rw [attemptUpload_eq data name s files hidle, uploadCommon]
      cases attempt.env.transferFd with
      | notChosen => exact habor
      | failed => exact habor
      | connected => exact aborReceived_uploadFile false habor

/-- What attempts leave. -/
theorem attemptUploads_front (hlen : data.length < 10 ^ 15) (attempts : List Attempt) (r : Session × Files)
    (hfront : ∀ file, r.2 name = some file → file <+: data) (habor : r.1.aborReceived = false) :
    (∀ file, (attemptUploads data name r attempts).2 name = some file → file <+: data) ∧
      (attemptUploads data name r attempts).1.aborReceived = false ∧
      ∀ other, other ≠ name → (attemptUploads data name r attempts).2 other = r.2 other := by
  induction attempts generalizing r with
  | nil => exact ⟨hfront, habor, fun _ _ => rfl⟩
  | cons attempt attempts ih =>
      obtain ⟨hstep, hothers⟩ := attemptUpload_front r.1 attempt hlen hfront
      have habor' : (if (attemptUpload data name r.1 r.2 attempt).ended then sessionStart
          else (attemptUpload data name r.1 r.2 attempt).session).aborReceived = false := by
        split_ifs
        · rfl
        · exact aborReceived_attemptUpload data name r.2 attempt habor
      obtain ⟨hrest, habor', hmore⟩ := ih (_, (attemptUpload data name r.1 r.2 attempt).files) hstep habor'
      exact ⟨hrest, habor', fun other hne => (hmore other hne).trans (hothers other hne)⟩

end Attempts

/-- **An upload may be cut off and resumed as often as it takes**: whatever goes wrong in the attempts, the new file on
the server is a front of the data, no other entry has changed, the replies fit into their array, and the next attempt in
which nothing goes wrong completes the file and is told so. -/
theorem resumed_upload (data name : List UInt8) (hlen : data.length < 10 ^ 15) (hname : IsEntry name) (s : Session)
    (files : Files) (hnew : files name = none) (habor : s.aborReceived = false) (attempts : List Attempt) :
    let r := attemptUploads data name (s, files) attempts
    (∀ file, r.2 name = some file → file <+: data) ∧
      (∀ other, IsEntry other → other ≠ name → r.2 other = files other) ∧
      ∀ attempt : Attempt,
        (∀ reply ∈ (attemptUpload data name r.1 r.2 attempt).replies, reply.fits = true) ∧
          (attempt.Succeeds (data.drop (attempt.position r.2 name)) →
            (attemptUpload data name r.1 r.2 attempt).files name = some data ∧
              (attemptUpload data name r.1 r.2 attempt).replies.map Reply.code = [150, 226]) := by
  intro r
  have hfront : ∀ file, files name = some file → file <+: data := fun file hfile =>
    absurd (hnew.symm.trans hfile) (Option.some_ne_none file).symm
  obtain ⟨hleft, habor', hothers⟩ := attemptUploads_front hlen attempts (s, files) hfront habor
  have hold : ((r.2 name).getD []).length < 10 ^ 15 := by
    cases hfile : r.2 name with
    | none => decide
    | some file => exact Nat.lt_of_le_of_lt (hleft file hfile).length_le hlen
  exact ⟨hleft, fun other _ hne => hothers other hne, fun attempt =>
    ⟨fits_attemptUpload data r.1 attempt hname hold, fun h => attemptUpload_complete hlen hleft habor' h⟩⟩

/-- Two bytes come in the first attempt, of which one is written; in the second the data alarm ends the session when
another one has been written; then nothing goes wrong. -/
def threeAttempts : List Attempt :=
  let env : UploadEnv := ⟨.connected, true, true, true, true, none, []⟩
  [⟨false, true, env, [.bytes 1 1]⟩, ⟨false, true, env, [.interrupted, .timeout 1 1]⟩,
    ⟨false, true, env, [.bytes 0 1, .interrupted, .bytes 7 8]⟩]

theorem resumed_upload_threeAttempts :
    let r := attemptUploads [1, 2, 3, 4] (textOf "a") (sessionStart, fun _ => none) (threeAttempts.take 2)
    r.2 (textOf "a") = some [1, 2] ∧ ∀ attempt ∈ threeAttempts.drop 2,
      (attemptUpload [1, 2, 3, 4] (textOf "a") r.1 r.2 attempt).files (textOf "a") = some [1, 2, 3, 4] := by
  have hname : IsEntry (textOf "a") := ⟨by decide, by decide, by decide, by decide, by decide, by decide⟩
  have hnext := (resumed_upload [1, 2, 3, 4] (textOf "a") (by decide) hname sessionStart (fun _ => none) rfl rfl
    (threeAttempts.take 2)).2.2
  refine ⟨by decide, fun attempt hattempt => ((hnext attempt).2 ?_).1⟩
  obtain rfl := List.mem_singleton.mp hattempt
  exact ⟨rfl, rfl, rfl, rfl, rfl, rfl, rfl, Or.inr ⟨by decide, Or.inr ⟨by decide, rfl⟩⟩⟩

end QLog.Ftpd
