import Mathlib.Logic.Function.Basic
import QLog.Library.CNumber
import QLog.Qmdl.Sessions

/-! # The databases of a session

`mdm_create_qshrink4_file` fetches the databases that the modem lists, each in reads of 4000 bytes, and writes them to
files of the log directory. A file that has its length already is not fetched again.

Every fetch leaves the length of its file in `ftp_qdb_file_len`, and a length there makes the loop pass over all
databases that follow. So at most one database is fetched, and none at all in a later session of the same process. -/

namespace QLog

open Library

/-- `MAX_QSR4_DB_FILE_READ_PER_RSP` -/
def maxQsr4DbFileReadPerRsp : UInt32 := 4000

/-- `qshrink4_data.guid[i]` -/
def Qshrink4Header.guid (q : Qshrink4Header) (i : Nat) : List UInt8 :=
  window q.area (guidLen * i) (guidLen * i + guidLen)

/-- What is read from the GUID list. -/
theorem Lists.guid {s : Qshrink4} {files : List Qshrink4FileInfo} (h : Lists s files) {i : Nat}
    {info : Qshrink4FileInfo} (hi : files[i]? = some info) :
    s.data.guid i = info.guid.val ∧ s.data.guidFileLen.getD i 0 = info.fileLen := by
  have hlt : i < files.length := (List.getElem?_eq_some_iff.mp hi).1
  obtain ⟨rest, harea⟩ := h.area
  constructor
  · have hsplit : files = files.take i ++ info :: files.drop (i + 1) := by
      rw [← (List.getElem?_eq_some_iff.mp hi).2, List.getElem_cons_drop, List.take_append_drop]
    have hfront : ((files.take i).flatMap fun info => info.guid.val).length = guidLen * i := by
      rw [length_guids, List.length_take, Nat.min_eq_left (Nat.le_of_lt hlt)]
    have hguid : info.guid.val.length = guidLen := info.guid.property
    rw [Qshrink4Header.guid, harea, hsplit, List.flatMap_append, List.flatMap_cons, List.append_assoc,
      List.append_assoc, ← hfront, ← hguid]
    rw [window, ← List.length_append, ← List.append_assoc, List.take_left, List.drop_left]
  · rw [h.lens, List.getD_eq_getElem?_getD, List.getElem?_append_left (by rw [List.length_map]; exact hlt),
      List.getElem?_map, hi]
    rfl

namespace Qdb

/-- `guid_file_name` -/
def guidFileName (guid : List UInt8) : List Char :=
  fmtX 8 (ofLeBytes (window guid 0 4)) ++ '-' :: (fmtX 4 (ofLeBytes (window guid 4 6)) ++ '-' ::
    (fmtX 4 (ofLeBytes (window guid 6 8)) ++ '-' :: (hexText (window guid 8 10) ++ '-' ::
      (hexText (window guid 10 16) ++ ".qdb".toList))))

/-! ## The device -/

/-- `diag_qsr_file_open_rsp` and `diag_qsr_file_close_rsp` -/
structure DiagQsrFileRsp where
  readFileFd : UInt16
  status : UInt8

/-- `diag_qsr_file_read_rsp` -/
structure DiagQsrFileReadRsp where
  numRead : UInt32
  status : UInt8
  data : List UInt8

/-- A device that opens, serves and closes every file. -/
structure Device where
  /-- its answer to `diag_query_diag_id` -/
  entries : List DiagIdEntry
  fileList : DiagQsrFileListRsp
  content : List UInt8 → List UInt8
  /-- the descriptor of an opened file -/
  readFd : List UInt8 → UInt16
  /-- how many responses without data precede those of a read -/
  delays : List UInt8 → UInt32 → Nat

/-- The responses to a read, where `opened` are the open files with their descriptors. -/
def Device.readRsps (dev : Device) (opened : List (UInt16 × List UInt8)) (fd : UInt16) (offset reqBytes : UInt32) :
    List DiagQsrFileReadRsp :=
  match opened.lookup fd with
  | none => [⟨0, 1, []⟩]
  | some guid =>
      let data := ((dev.content guid).drop offset.toNat).take reqBytes.toNat
      List.replicate (dev.delays guid offset) ⟨0, 0, []⟩ ++ [⟨UInt32.ofNat data.length, 0, data⟩]

/-! ## Operations -/

/-- The globals, the files of the log directory, and the open files of the device. -/
structure State extends Globals where
  readFileFd : Option UInt16
  readFileTotalLen : UInt32
  readFileLen : UInt32
  /-- the name of the file that is open for writing -/
  diskFileFd : Option (List Char)
  ftpQdbFileLen : Nat
  disk : List Char → Option (List UInt8)
  opened : List (UInt16 × List UInt8)

/-- `diag_query_diag_id` -/
def diagQueryDiagId (dev : Device) (s : State) : State :=
  { s with diagIdTable := dev.entries.foldl insertDiagIdEntry s.diagIdTable }

/-- `diag_send_qsr4_db_file_list_cmd_req`: only the modem is asked. -/
def diagSendQsr4DbFileListCmdReq (dev : Device) (s : State) (peripheral : UInt8) : State :=
  if peripheral ≠ 0 then s
  else { s with qshrink4 := processQsr4DbFileListResponse s.diagIdTable s.qshrink4 (peripheral, dev.fileList) }

/-- `process_qsr_db_file_open_rsp` -/
def processQsrDbFileOpenRsp (s : State) (rsp : DiagQsrFileRsp) : State :=
  if rsp.status = 0 then { s with readFileFd := some rsp.readFileFd } else s

/-- `diag_send_qsr4_file_open_cmd_req` -/
def diagSendQsr4FileOpenCmdReq (dev : Device) (s : State) (idx : Nat) : State :=
  let guid := s.qshrink4.data.guid idx
  let fd := dev.readFd guid
  let s := { s with readFileTotalLen := 0, readFileFd := none, opened := (fd, guid) :: s.opened }
  let s := processQsrDbFileOpenRsp s ⟨fd, 0⟩
  if s.readFileFd = none then s
  else
    { s with
      readFileTotalLen := s.qshrink4.data.guidFileLen.getD idx 0
      diskFileFd := some (guidFileName guid)
      disk := Function.update s.disk (guidFileName guid) (some []) }

/-- `qlog_logfile_save` to `disk_file_fd` -/
def saveToDiskFile (s : State) (data : List UInt8) : State :=
  match s.diskFileFd with
  | none => s
  | some name => { s with disk := Function.update s.disk name ((s.disk name).map (· ++ data)) }

/-- `process_qsr_db_file_read_delayed_rsp`, with `skip_wakeup`: a response without data does not end the wait. -/
def processQsrDbFileReadDelayedRsp (s : State) (rsp : DiagQsrFileReadRsp) : State × Bool :=
  if rsp.status = 0 then
    if rsp.numRead ≠ 0 then
      ({ saveToDiskFile s (rsp.data.take rsp.numRead.toNat) with readFileLen := rsp.numRead }, false)
    -- the data will come with a later response
    else (s, true)
  else (s, false)

/-- The responses up to the one that ends the wait. -/
def waitForRead (s : State) : List DiagQsrFileReadRsp → State
  | [] => s
  | rsp :: rsps =>
      let r := processQsrDbFileReadDelayedRsp s rsp
      if r.2 then waitForRead r.1 rsps else r.1

/-- `diag_send_qsr4_file_read_cmd_req` -/
def diagSendQsr4FileReadCmdReq (dev : Device) (s : State) (fileOffset fileLen : UInt32) : State × UInt32 :=
  match s.readFileFd with
  | none => (s, 0)
  | some fd =>
      -- the file has been read
      if s.readFileTotalLen ≤ fileOffset then (s, 0)
      else
        -- `uint32_t`: the sum may wrap around
        let fileLen := if s.readFileTotalLen < fileOffset + fileLen then s.readFileTotalLen - fileOffset else fileLen
        let s := waitForRead { s with readFileLen := 0 } (dev.readRsps s.opened fd fileOffset fileLen)
        (s, s.readFileLen)

/-- `process_qsr_db_file_close_rsp` -/
def processQsrDbFileCloseRsp (s : State) (rsp : DiagQsrFileRsp) : State :=
  if rsp.status = 0 ∧ s.readFileFd = some rsp.readFileFd then { s with readFileFd := none } else s

/-- `diag_send_qsr4_file_close_send_req` -/
def diagSendQsr4FileCloseSendReq (s : State) : State :=
  match s.readFileFd with
  | none => s
  | some fd =>
      let s := { s with diskFileFd := none, opened := s.opened.filter fun file => file.1 ≠ fd }
      { processQsrDbFileCloseRsp s ⟨fd, 0⟩ with readFileFd := none }

/-- The `do` loop of `mdm_create_qshrink4_file`, for at most as many rounds. -/
def readFile (dev : Device) : Nat → State → UInt32 → Option State
  | 0, _, _ => none
  | rounds + 1, s, totalLen =>
      let r := diagSendQsr4FileReadCmdReq dev s totalLen maxQsr4DbFileReadPerRsp
      if r.2 = maxQsr4DbFileReadPerRsp then readFile dev rounds r.1 (totalLen + r.2) else some r.1

/-- `qlog_get_filesize_in_logidr` -/
def qlogGetFilesizeInLogdir (s : State) (filename : List Char) : Nat := ((s.disk filename).map List.length).getD 0

/-- The body of the loop of `mdm_create_qshrink4_file`, none if it goes on for more than `2 ^ 32` rounds. -/
def fetchDatabase (gIgnoreCaptureQdbFile : Bool) (dev : Device) (s : State) (i : Nat) : Option State :=
  let guidFileLen := s.qshrink4.data.guidFileLen.getD i 0
  -- the file is there already
  if qlogGetFilesizeInLogdir s (guidFileName (s.qshrink4.data.guid i)) = guidFileLen.toNat then some s
  -- over FTP the length is known from the last transfer only, but every fetch sets it
  else if s.ftpQdbFileLen ≠ 0 then some s
  else if gIgnoreCaptureQdbFile then some s
  else
    (readFile dev (2 ^ 32) (diagSendQsr4FileOpenCmdReq dev s i) 0).map fun s =>
      { diagSendQsr4FileCloseSendReq s with ftpQdbFileLen := guidFileLen.toNat }

/-- `mdm_create_qshrink4_file` -/
def mdmCreateQshrink4File (gIgnoreCaptureQdbFile : Bool) (dev : Device) (s : State) : Option State :=
  if s.qshrink4Init then some s
  else
    let s := { s with qshrink4Init := true }
    if s.useQmdl2V2 = true ∧ s.diagIdTable.length = 0 then
      let s := diagQueryDiagId dev s
      let s := s.diagIdTable.foldl (fun s item => diagSendQsr4DbFileListCmdReq dev s item.peripheral) s
      ((List.range s.qshrink4.data.guidListEntryCount).foldlM (fetchDatabase gIgnoreCaptureQdbFile dev) s).map fun s =>
        { s with qshrink4 := mdmAddQshrink4Header s.qshrink4 }
    else some s

/-- `mdm_init_filter`, up to the call of `mdm_create_qshrink4_file` -/
def mdmInitFilter (gIgnoreCaptureQdbFile : Bool) (dev : Device) (s : State) : Option State :=
  mdmCreateQshrink4File gIgnoreCaptureQdbFile dev
    { s with qshrink4 := { s.qshrink4 with data := qshrink4Zero } }

/-! ## Names -/

/-- A number that is printed from bytes determines them. -/
theorem fmtX_ofLeBytes_inj {k : Nat} {bs bs' : List UInt8} (hlen : bs.length = k) (hlen' : bs'.length = k)
    (h : fmtX (2 * k) (ofLeBytes bs) = fmtX (2 * k) (ofLeBytes bs')) : bs = bs' := by
  have hpow : 16 ^ (2 * k) = 256 ^ k := Nat.pow_mul 16 2 k
  have heq := fmtX_inj (by rw [hpow]; exact ofLeBytes_lt bs (Nat.le_of_eq hlen))
    (by rw [hpow]; exact ofLeBytes_lt bs' (Nat.le_of_eq hlen')) h
  rw [← leBytes_ofLeBytes bs, ← leBytes_ofLeBytes bs', hlen, hlen', heq]

/-- Different GUIDs have different file names. -/
theorem guidFileName_inj {guid guid' : List UInt8} (hlen : guid.length = guidLen) (hlen' : guid'.length = guidLen)
    (h : guidFileName guid = guidFileName guid') : guid = guid' := by
  have hwindow : ∀ lo hi, hi ≤ guidLen →
      (window guid lo hi).length = hi - lo ∧ (window guid' lo hi).length = hi - lo := by
    intro lo hi hhi
    exact ⟨length_window guid (by rw [hlen]; exact hhi), length_window guid' (by rw [hlen']; exact hhi)⟩
  have hhex : ∀ lo hi, hi ≤ guidLen → (hexText (window guid lo hi)).length = (hexText (window guid' lo hi)).length := by
    intro lo hi hhi
    rw [length_hexText, length_hexText, (hwindow lo hi hhi).1, (hwindow lo hi hhi).2]
  rw [guidFileName, guidFileName] at h
  -- field by field
  obtain ⟨h0, h⟩ := List.append_inj h (by simp)
  obtain ⟨h4, h⟩ := List.append_inj (List.cons.inj h).2 (by simp)
  obtain ⟨h6, h⟩ := List.append_inj (List.cons.inj h).2 (by simp)
  obtain ⟨h8, h⟩ := List.append_inj (List.cons.inj h).2 (hhex 8 10 (by decide))
  obtain ⟨h10, -⟩ := List.append_inj (List.cons.inj h).2 (hhex 10 16 (by decide))
  have e0 := fmtX_ofLeBytes_inj (hwindow 0 4 (by decide)).1 (hwindow 0 4 (by decide)).2 h0
  have e4 := fmtX_ofLeBytes_inj (hwindow 4 6 (by decide)).1 (hwindow 4 6 (by decide)).2 h4
  have e6 := fmtX_ofLeBytes_inj (hwindow 6 8 (by decide)).1 (hwindow 6 8 (by decide)).2 h6
  have e8 := hexText_inj (by rw [(hwindow 8 10 (by decide)).1, (hwindow 8 10 (by decide)).2]) h8
  have e10 := hexText_inj (by rw [(hwindow 10 16 (by decide)).1, (hwindow 10 16 (by decide)).2]) h10
  have hall : ∀ bs : List UInt8, bs.length = guidLen →
      window bs 0 4 ++ window bs 4 6 ++ window bs 6 8 ++ window bs 8 10 ++ window bs 10 16 = bs := by
    intro bs hbs
    rw [window_append bs (by decide) (by decide), window_append bs (by decide) (by decide),
      window_append bs (by decide) (by decide), window_append bs (by decide) (by decide), window_zero]
    exact List.take_of_length_le (Nat.le_of_eq hbs)
  rw [← hall guid hlen, ← hall guid' hlen', e0, e4, e6, e8, e10]

/-! ## A fetch -/

section Fetch

variable {dev : Device} {s : State} {guid : List UInt8} {name : List Char} {fd : UInt16} {off : UInt32}

/-- The file `guid` is open, and what is read of it goes to the file `name`. -/
structure Reading (dev : Device) (s : State) (fd : UInt16) (guid : List UInt8) (name : List Char) : Prop where
  read_fd : s.readFileFd = some fd
  on_device : s.opened.lookup fd = some guid
  total_len : s.readFileTotalLen.toNat = (dev.content guid).length
  disk_fd : s.diskFileFd = some name

/-- Responses without data are passed over. -/
theorem waitForRead_delayed (s : State) (k : Nat) (rsps : List DiagQsrFileReadRsp) :
    waitForRead s (List.replicate k ⟨0, 0, []⟩ ++ rsps) = waitForRead s rsps := by
  induction k with
  | zero => rfl
  | succ k ih =>
      rw [List.replicate_succ, List.cons_append, waitForRead]
      exact ih

/-- A response with data is saved. -/
theorem waitForRead_data {data done : List UInt8} (hpos : data ≠ []) (hlen : data.length < 2 ^ 32)
    (hfd : s.diskFileFd = some name) (hdisk : s.disk name = some done) :
    waitForRead s [⟨UInt32.ofNat data.length, 0, data⟩] =
      { s with
        disk := Function.update s.disk name (some (done ++ data))
        readFileLen := UInt32.ofNat data.length } := by
  have hnum : (UInt32.ofNat data.length).toNat = data.length := by
    rw [UInt32.toNat_ofNat', Nat.mod_eq_of_lt hlen]
  have hne : UInt32.ofNat data.length ≠ 0 := by
    intro hzero
    rw [hzero] at hnum
    exact hpos (List.length_eq_zero_iff.mp hnum.symm)
  simp [waitForRead, processQsrDbFileReadDelayedRsp, saveToDiskFile, hne, hnum, hfd, hdisk]

/-- The length that a read asks for gives the next 4000 bytes, also where the sum of offset and length wraps around. -/
theorem take_readLen (h : Reading dev s fd guid name) (hoff : off.toNat < (dev.content guid).length) :
    ((dev.content guid).drop off.toNat).take (if s.readFileTotalLen < off + maxQsr4DbFileReadPerRsp then
      s.readFileTotalLen - off else maxQsr4DbFileReadPerRsp).toNat = ((dev.content guid).drop off.toNat).take 4000 := by
  by_cases hcut : s.readFileTotalLen < off + maxQsr4DbFileReadPerRsp
  · have hle : off ≤ s.readFileTotalLen := by
      rw [UInt32.le_iff_toNat_le, h.total_len]
      exact Nat.le_of_lt hoff
    rw [if_pos hcut, UInt32.toNat_sub_of_le _ _ hle, h.total_len]
    rw [UInt32.lt_iff_toNat_lt, UInt32.toNat_add, h.total_len] at hcut
    have hmax : maxQsr4DbFileReadPerRsp.toNat = 4000 := rfl
    rw [List.take_of_length_le (by rw [List.length_drop]),
      List.take_of_length_le (by rw [List.length_drop]; omega)]
  · rw [if_neg hcut]
    rfl

/-- Behind the end of the file nothing is read. -/
theorem read_end (h : Reading dev s fd guid name) (hend : (dev.content guid).length ≤ off.toNat) :
    diagSendQsr4FileReadCmdReq dev s off maxQsr4DbFileReadPerRsp = (s, 0) := by
  have hle : s.readFileTotalLen ≤ off := by
    rw [UInt32.le_iff_toNat_le, h.total_len]
    exact hend
  rw [diagSendQsr4FileReadCmdReq, h.read_fd]
  exact if_pos hle

/-- **One read of a file that is not at its end**: the next bytes, as many as there are of 4000, are saved. -/
theorem read_step {done : List UInt8} (h : Reading dev s fd guid name) (hdisk : s.disk name = some done)
    (hoff : off.toNat < (dev.content guid).length) :
    ∃ data : List UInt8, data = ((dev.content guid).drop off.toNat).take 4000 ∧
      diagSendQsr4FileReadCmdReq dev s off maxQsr4DbFileReadPerRsp =
        ({ s with
            disk := Function.update s.disk name (some (done ++ data))
            readFileLen := UInt32.ofNat data.length }, UInt32.ofNat data.length) := by
  have htotal : s.readFileTotalLen.toNat < 2 ^ 32 := s.readFileTotalLen.toNat_lt
  rw [h.total_len] at htotal
  refine ⟨_, rfl, ?_⟩
  have hlt : ¬ s.readFileTotalLen ≤ off := by
    rw [UInt32.le_iff_toNat_le, h.total_len]
    omega
  have hdata : ((dev.content guid).drop off.toNat).take 4000 ≠ [] := by
    intro hnil
    have hzero := congrArg List.length hnil
    rw [List.length_take, List.length_drop, List.length_nil] at hzero
    omega
  have hlen : (((dev.content guid).drop off.toNat).take 4000).length < 2 ^ 32 := by
    rw [List.length_take]
    omega
  rw [diagSendQsr4FileReadCmdReq, h.read_fd]
  dsimp only
  rw [if_neg hlt, Device.readRsps, h.on_device]
  dsimp only
  have hsave := waitForRead_data (s := { s with readFileFd := some fd, readFileLen := 0 }) hdata hlen h.disk_fd hdisk
  rw [take_readLen h hoff, waitForRead_delayed, hsave, ← h.read_fd]

/-- **The reads of a file** bring all of it. -/
theorem readFile_eq (rounds : Nat) (h : Reading dev s fd guid name) (hoff : off.toNat ≤ (dev.content guid).length)
    (hdisk : s.disk name = some ((dev.content guid).take off.toNat))
    (hrounds : (dev.content guid).length - off.toNat < 4000 * rounds) :
    ∃ len, readFile dev rounds s off = some
      { s with disk := Function.update s.disk name (some (dev.content guid)), readFileLen := len } := by
  -- on the rounds, with the bytes in front of `off` in the file
  induction rounds generalizing s off with
  | zero => omega
  | succ rounds ih =>
      have htotal : s.readFileTotalLen.toNat < 2 ^ 32 := s.readFileTotalLen.toNat_lt
      have htotallen := h.total_len
      rw [readFile]
      by_cases hend : off.toNat = (dev.content guid).length
      · -- the file ends with a full read, and the next one brings nothing
        rw [read_end h (Nat.le_of_eq hend.symm)]
        dsimp only
        refine ⟨s.readFileLen, ?_⟩
        rw [hend, List.take_length] at hdisk
        rw [if_neg (by decide), ← hdisk, Function.update_eq_self]
      · have hbefore : off.toNat < (dev.content guid).length := by omega
        obtain ⟨data, hdata, hstep⟩ := read_step h hdisk hbefore
        have hlen : data.length = min 4000 ((dev.content guid).length - off.toNat) := by
          rw [hdata, List.length_take, List.length_drop]
        have hnum : (UInt32.ofNat data.length).toNat = data.length := by
          rw [UInt32.toNat_ofNat', Nat.mod_eq_of_lt (by omega)]
        have hdone : (dev.content guid).take off.toNat ++ data = (dev.content guid).take (off.toNat + 4000) := by
          rw [hdata, List.take_add]
        rw [hstep, hdone]
        dsimp only
        -- a full read goes on, and a short one is the last
        by_cases hfull : UInt32.ofNat data.length = maxQsr4DbFileReadPerRsp
        · have hmax : data.length = 4000 := by
            rw [← hnum, hfull]
            rfl
          have hoff' : (off + maxQsr4DbFileReadPerRsp).toNat = off.toNat + 4000 := by
            have hmod : (off + maxQsr4DbFileReadPerRsp).toNat = (off.toNat + 4000) % 2 ^ 32 := UInt32.toNat_add _ _
            rw [hmod, Nat.mod_eq_of_lt (by omega)]
          rw [if_pos hfull, hfull]
          obtain ⟨len, hrest⟩ := ih (s := { s with
              disk := Function.update s.disk name (some ((dev.content guid).take (off.toNat + 4000)))
              readFileLen := maxQsr4DbFileReadPerRsp })
            ⟨h.read_fd, h.on_device, h.total_len, h.disk_fd⟩
            (show (off + maxQsr4DbFileReadPerRsp).toNat ≤ (dev.content guid).length by omega)
            (by rw [hoff']; exact Function.update_self _ _ _) (by omega)
          refine ⟨len, ?_⟩
          rw [hrest]
          dsimp only
          rw [Function.update_idem]
        · rw [if_neg hfull]
          have hshort : data.length ≠ 4000 := by
            intro hmax
            apply hfull
            rw [hmax]
            rfl
          refine ⟨UInt32.ofNat data.length, ?_⟩
          rw [List.take_of_length_le (by omega)]

/-- **The fetch of a database** writes its file. -/
theorem fetchDatabase_fetch {i : Nat} (hguid : s.qshrink4.data.guid i = guid)
    (hlen : (s.qshrink4.data.guidFileLen.getD i 0).toNat = (dev.content guid).length) (hftp : s.ftpQdbFileLen = 0)
    (hsize : qlogGetFilesizeInLogdir s (guidFileName guid) ≠ (dev.content guid).length) :
    ∃ s', fetchDatabase false dev s i = some s' ∧ s'.ftpQdbFileLen = (dev.content guid).length ∧
      s'.disk = Function.update s.disk (guidFileName guid) (some (dev.content guid)) := by
  have htotal := (s.qshrink4.data.guidFileLen.getD i 0).toNat_lt
  rw [fetchDatabase]
  dsimp only
  rw [hguid, if_neg (by rw [hlen]; exact hsize), if_neg (by rw [hftp]; exact fun h => h rfl), if_neg (by decide)]
  have hopen : Reading dev (diagSendQsr4FileOpenCmdReq dev s i) (dev.readFd guid) guid (guidFileName guid) := by
    constructor
    · simp [diagSendQsr4FileOpenCmdReq, processQsrDbFileOpenRsp, hguid]
    · simp [diagSendQsr4FileOpenCmdReq, processQsrDbFileOpenRsp, hguid]
    · rw [← hlen]
      rfl
    · rw [← hguid]
      rfl
  have hempty : (diagSendQsr4FileOpenCmdReq dev s i).disk = Function.update s.disk (guidFileName guid) (some []) := by
    rw [← hguid]
    rfl
  have hstart : (diagSendQsr4FileOpenCmdReq dev s i).disk (guidFileName guid) =
      some ((dev.content guid).take (0 : UInt32).toNat) := by
    rw [hempty]
    exact Function.update_self _ _ _
  obtain ⟨len, hread⟩ := readFile_eq (2 ^ 32) hopen (Nat.zero_le _) hstart (by omega)
  rw [hread, Option.map_some]
  refine ⟨_, rfl, hlen, ?_⟩
  simp only [diagSendQsr4FileCloseSendReq, hopen.read_fd, processQsrDbFileCloseRsp, and_self, if_true]
  rw [hempty, Function.update_idem]

/-- A length in `ftp_qdb_file_len` ends the fetches. -/
theorem fetchDatabase_skip (dev : Device) {i : Nat} (hftp : s.ftpQdbFileLen ≠ 0) :
    fetchDatabase false dev s i = some s := by
  rw [fetchDatabase]
  dsimp only
  by_cases hsize : qlogGetFilesizeInLogdir s (guidFileName (s.qshrink4.data.guid i)) =
      (s.qshrink4.data.guidFileLen.getD i 0).toNat
  · rw [if_pos hsize]
  · rw [if_neg hsize, if_pos hftp]

theorem foldlM_fetchDatabase_skip (dev : Device) (is : List Nat) (hftp : s.ftpQdbFileLen ≠ 0) :
    is.foldlM (fetchDatabase false dev) s = some s := by
  induction is with
  | nil => rfl
  | cons i is ih => rw [List.foldlM_cons, fetchDatabase_skip dev hftp, Option.bind_eq_bind, Option.bind_some, ih]

end Fetch

/-! ## All databases -/

/-- The table that `diag_query_diag_id` makes. -/
def Device.diagIdTable (dev : Device) : List DiagIdList := dev.entries.foldl insertDiagIdEntry []

/-- The answers to the requests for file lists. -/
def Device.rsps (dev : Device) : List (UInt8 × DiagQsrFileListRsp) :=
  (dev.diagIdTable.filter fun item => item.peripheral = 0).map fun item => (item.peripheral, dev.fileList)

/-- The files that are listed in a session. -/
def Device.listed (dev : Device) : List Qshrink4FileInfo := (listedFiles dev.rsps).take maxGuidEntries

/-- The file of a database is there, with the bytes of the device. -/
def State.Fetched (s : State) (dev : Device) (info : Qshrink4FileInfo) : Prop :=
  s.disk (guidFileName info.guid.val) = some (dev.content info.guid.val)

section All

variable {dev : Device} {s : State}

/-- The file lists are asked for one after the other. -/
theorem foldl_diagSendQsr4DbFileListCmdReq (dev : Device) (items : List DiagIdList) (s : State) :
    items.foldl (fun s item => diagSendQsr4DbFileListCmdReq dev s item.peripheral) s =
      { s with
        qshrink4 := ((items.filter fun item => item.peripheral = 0).map fun item =>
          (item.peripheral, dev.fileList)).foldl (processQsr4DbFileListResponse s.diagIdTable) s.qshrink4 } := by
  induction items generalizing s with
  | nil => rfl
  | cons item items ih =>
      rw [List.foldl_cons, ih, diagSendQsr4DbFileListCmdReq]
      by_cases hmodem : item.peripheral = 0
      · rw [if_neg (fun h => h hmodem), List.filter_cons_of_pos (by simpa using hmodem), List.map_cons, List.foldl_cons]
      · rw [if_pos hmodem, List.filter_cons_of_neg (by simpa using hmodem)]

/-- A file that is there has its length already, and is passed over. -/
theorem fetchDatabase_fetched {i : Nat} {info : Qshrink4FileInfo} (hguid : s.qshrink4.data.guid i = info.guid.val)
    (hfilelen : s.qshrink4.data.guidFileLen.getD i 0 = info.fileLen)
    (hlength : info.fileLen.toNat = (dev.content info.guid.val).length) (hfetched : s.Fetched dev info) :
    fetchDatabase false dev s i = some s := by
  rw [fetchDatabase]
  dsimp only
  rw [hguid, hfilelen, if_pos]
  rw [qlogGetFilesizeInLogdir, hfetched, hlength]
  rfl

/-- A file that is not there, or not complete, has another length. -/
theorem filesize_of_not_fetched {info : Qshrink4FileInfo} (hpos : info.fileLen.toNat ≠ 0)
    (hlength : info.fileLen.toNat = (dev.content info.guid.val).length)
    (hdisk : ∀ bytes, s.disk (guidFileName info.guid.val) = some bytes → bytes.length = info.fileLen.toNat →
      s.Fetched dev info) (hmissing : ¬ s.Fetched dev info) :
    qlogGetFilesizeInLogdir s (guidFileName info.guid.val) ≠ (dev.content info.guid.val).length := by
  intro hsize
  rw [qlogGetFilesizeInLogdir] at hsize
  cases hfile : s.disk (guidFileName info.guid.val) with
  | none =>
      rw [hfile] at hsize
      rw [hlength, ← hsize] at hpos
      exact hpos rfl
  | some bytes =>
      rw [hfile] at hsize
      exact hmissing (hdisk bytes hfile (by rw [hlength]; exact hsize))

/-- **The loop of `mdm_create_qshrink4_file`** fetches the first file that is missing, and only if nothing has been
fetched before. -/
theorem foldlM_fetchDatabase (is : List Nat) (hlists : Lists s.qshrink4 dev.listed)
    (his : ∀ i ∈ is, i < dev.listed.length)
    (hlen : ∀ info ∈ dev.listed, info.fileLen.toNat = (dev.content info.guid.val).length)
    (hdisk : ∀ info ∈ dev.listed, ∀ bytes, s.disk (guidFileName info.guid.val) = some bytes →
      bytes.length = info.fileLen.toNat → s.Fetched dev info) :
    ∃ s', is.foldlM (fetchDatabase false dev) s = some s' ∧
      (s'.disk = s.disk ∧
          (s.ftpQdbFileLen ≠ 0 ∨ ∀ i ∈ is, ∀ info, dev.listed[i]? = some info → s.Fetched dev info) ∨
        s.ftpQdbFileLen = 0 ∧ ∃ info ∈ dev.listed, ¬ s.Fetched dev info ∧
          s'.disk = Function.update s.disk (guidFileName info.guid.val) (some (dev.content info.guid.val))) := by
  by_cases hftp : s.ftpQdbFileLen ≠ 0
  · exact ⟨s, foldlM_fetchDatabase_skip dev is hftp, Or.inl ⟨rfl, Or.inl hftp⟩⟩
  rw [not_not] at hftp
  induction is with
  | nil => exact ⟨s, rfl, Or.inl ⟨rfl, Or.inr fun i hi => absurd hi List.not_mem_nil⟩⟩
  | cons i is ih =>
      have hi := his i List.mem_cons_self
      have hinfo : dev.listed[i]? = some dev.listed[i] := List.getElem?_eq_getElem hi
      have hmem : dev.listed[i] ∈ dev.listed := List.getElem_mem hi
      generalize dev.listed[i] = info at hinfo hmem
      obtain ⟨hguid, hfilelen⟩ := hlists.guid hinfo
      have hlength := hlen info hmem
      have hpos : info.fileLen.toNat ≠ 0 := by
        intro hzero
        exact hlists.nonzero info hmem (UInt32.toNat_inj.mp hzero)
      rw [List.foldlM_cons]
      by_cases hfetched : s.Fetched dev info
      · -- the file has its length already
        obtain ⟨s', hfold, hcases⟩ := ih fun j hj => his j (List.mem_cons_of_mem i hj)
        rw [fetchDatabase_fetched hguid hfilelen hlength hfetched]
        refine ⟨s', hfold, ?_⟩
        rcases hcases with ⟨hsame, hall⟩ | hone
        · refine Or.inl ⟨hsame, Or.inr ?_⟩
          intro j hj info' hinfo'
          rcases List.mem_cons.mp hj with rfl | hj
          · rw [hinfo, Option.some.injEq] at hinfo'
            rw [← hinfo']
            exact hfetched
          · rcases hall with hne | hall
            · exact absurd hftp hne
            · exact hall j hj info' hinfo'
        · exact Or.inr hone
      · -- the file is fetched, and all that follow are passed over
        have hsize := filesize_of_not_fetched hpos hlength (hdisk info hmem) hfetched
        obtain ⟨s', hfetch, hftp', hdisk'⟩ := fetchDatabase_fetch hguid (by rw [hfilelen]; exact hlength) hftp hsize
        have hstop : s'.ftpQdbFileLen ≠ 0 := by
          rw [hftp', ← hlength]
          exact hpos
        rw [hfetch]
        exact ⟨s', foldlM_fetchDatabase_skip dev is hstop, Or.inr ⟨hftp, info, hmem, hfetched, hdisk'⟩⟩

/-- A modem that answers with at most 16 files of some length has exactly these listed. -/
theorem mem_listed_iff (hstatus : dev.fileList.status = 0) (hnonzero : ∀ info ∈ dev.fileList.info, info.fileLen ≠ 0)
    (hmax : dev.fileList.info.length ≤ maxGuidEntries) (hmodem : ∃ item ∈ dev.diagIdTable, item.peripheral = 0)
    {info : Qshrink4FileInfo} : info ∈ dev.listed ↔ info ∈ dev.fileList.info := by
  have hfiles : (if dev.fileList.status = 0 then dev.fileList.info.filter fun info => info.fileLen ≠ 0 else []) =
      dev.fileList.info := by
    rw [if_pos hstatus, List.filter_eq_self]
    intro info hinfo
    simpa using hnonzero info hinfo
  rw [Device.listed, Device.rsps]
  constructor
  · intro hinfo
    obtain ⟨rsp, hrsp, hin⟩ := List.mem_flatMap.mp (List.mem_of_mem_take hinfo)
    obtain ⟨item, -, rfl⟩ := List.mem_map.mp hrsp
    dsimp only at hin
    rwa [hfiles] at hin
  · intro hinfo
    -- the first answer is not cut off
    obtain ⟨item, hitem, hperipheral⟩ := hmodem
    have hasked : item ∈ dev.diagIdTable.filter fun item => item.peripheral = 0 :=
      List.mem_filter.mpr ⟨hitem, by simpa using hperipheral⟩
    cases hitems : dev.diagIdTable.filter fun item => item.peripheral = 0 with
    | nil =>
        rw [hitems] at hasked
        exact absurd hasked List.not_mem_nil
    | cons first items =>
        rw [listedFiles, List.map_cons, List.flatMap_cons]
        dsimp only
        rw [hfiles, List.take_append, List.mem_append, List.take_of_length_le hmax]
        exact Or.inl hinfo

/-- The state in which the loop of `mdm_create_qshrink4_file` starts. -/
def listedState (dev : Device) (s : State) : State :=
  { s with
    qshrink4Init := true
    diagIdTable := dev.diagIdTable
    qshrink4 :=
      dev.rsps.foldl (processQsr4DbFileListResponse dev.diagIdTable) { s.qshrink4 with data := qshrink4Zero } }

theorem mdmInitFilter_eq (gIgnoreCaptureQdbFile : Bool) (dev : Device) (hinit : s.qshrink4Init = false)
    (hv2 : s.useQmdl2V2 = true) (htable : s.diagIdTable = []) :
    mdmInitFilter gIgnoreCaptureQdbFile dev s =
      ((List.range (listedState dev s).qshrink4.data.guidListEntryCount).foldlM
        (fetchDatabase gIgnoreCaptureQdbFile dev) (listedState dev s)).map fun s =>
          { s with qshrink4 := mdmAddQshrink4Header s.qshrink4 } := by
  rw [mdmInitFilter, mdmCreateQshrink4File]
  dsimp only
  rw [hinit, htable, if_neg (by decide), if_pos ⟨hv2, rfl⟩, foldl_diagSendQsr4DbFileListCmdReq]
  rfl

/-- **A session** fetches one missing database at most. -/
theorem mdmInitFilter_run (hinit : s.qshrink4Init = false) (hv2 : s.useQmdl2V2 = true) (htable : s.diagIdTable = [])
    (hlen : ∀ info ∈ dev.listed, info.fileLen.toNat = (dev.content info.guid.val).length)
    (hdisk : ∀ info ∈ dev.listed, ∀ bytes, s.disk (guidFileName info.guid.val) = some bytes →
      bytes.length = info.fileLen.toNat → s.Fetched dev info) :
    ∃ s', mdmInitFilter false dev s = some s' ∧
      (s'.disk = s.disk ∧ (s.ftpQdbFileLen ≠ 0 ∨ ∀ info ∈ dev.listed, s.Fetched dev info) ∨
        s.ftpQdbFileLen = 0 ∧ ∃ info ∈ dev.listed, ¬ s.Fetched dev info ∧
          s'.disk = Function.update s.disk (guidFileName info.guid.val) (some (dev.content info.guid.val))) := by
  have hlists : Lists (listedState dev s).qshrink4 dev.listed :=
    (lists_zero s.qshrink4.diagidGuid).foldl_responses dev.diagIdTable dev.rsps
  rw [mdmInitFilter_eq false dev hinit hv2 htable]
  obtain ⟨s', hfold, hcases⟩ := foldlM_fetchDatabase
    (List.range (listedState dev s).qshrink4.data.guidListEntryCount) hlists
    (by rw [hlists.count]; exact fun i hi => List.mem_range.mp hi) hlen hdisk
  rw [hfold]
  refine ⟨_, rfl, ?_⟩
  rcases hcases with ⟨hsame, hall⟩ | hone
  · refine Or.inl ⟨hsame, hall.imp id ?_⟩
    intro hall info hinfo
    obtain ⟨i, hi, rfl⟩ := List.getElem_of_mem hinfo
    exact hall i (by rw [hlists.count]; exact List.mem_range.mpr hi) _ (List.getElem?_eq_getElem hi)
  · exact Or.inr hone

/-- Behind a fetch its database is there, and of the others those that were there before. -/
theorem fetched_update_iff {s' : State} {one : Qshrink4FileInfo}
    (hdisk : s'.disk = Function.update s.disk (guidFileName one.guid.val) (some (dev.content one.guid.val)))
    (info : Qshrink4FileInfo) : s'.Fetched dev info ↔ info.guid = one.guid ∨ s.Fetched dev info := by
  by_cases hguid : info.guid = one.guid
  · simp [State.Fetched, hdisk, hguid]
  · have hname : guidFileName info.guid.val ≠ guidFileName one.guid.val := by
      intro hname
      exact hguid (Subtype.ext (guidFileName_inj info.guid.property one.guid.property hname))
    simp [State.Fetched, hdisk, hguid, hname]

/-- **When all databases are there** at the end: they were there before, or one was missing and nothing had been fetched
in an earlier session. -/
theorem mdmInitFilter_fetchesAll_iff (dev : Device) (s : State) (hinit : s.qshrink4Init = false)
    (hv2 : s.useQmdl2V2 = true) (htable : s.diagIdTable = [])
    (hlen : ∀ info ∈ dev.listed, info.fileLen.toNat = (dev.content info.guid.val).length)
    (hdisk : ∀ info ∈ dev.listed, ∀ bytes, s.disk (guidFileName info.guid.val) = some bytes →
      bytes.length = info.fileLen.toNat → s.Fetched dev info) :
    ∃ s', mdmInitFilter false dev s = some s' ∧
      ((∀ info ∈ dev.listed, s'.Fetched dev info) ↔
        (∀ info ∈ dev.listed, s.Fetched dev info) ∨
          s.ftpQdbFileLen = 0 ∧ ∃ guid, ∀ info ∈ dev.listed, ¬ s.Fetched dev info → info.guid = guid) := by
  obtain ⟨s', hrun, hcases⟩ := mdmInitFilter_run hinit hv2 htable hlen hdisk
  refine ⟨s', hrun, ?_⟩
  rcases hcases with ⟨hsame, hstop⟩ | ⟨hzero, one, hone, hmissing, hdisk'⟩
  · -- nothing has been fetched
    have hfetched : ∀ info, s'.Fetched dev info ↔ s.Fetched dev info := by
      intro info
      rw [State.Fetched, hsame, State.Fetched]
    simp only [hfetched]
    constructor
    · exact Or.inl
    · rintro (hall | ⟨hftp, -⟩)
      · exact hall
      · rcases hstop with hne | hall
        · exact absurd hftp hne
        · exact hall
  -- one database has been fetched: the others must have been there, or be the same one
  · simp only [fetched_update_iff hdisk']
    constructor
    · intro hall
      refine Or.inr ⟨hzero, one.guid, ?_⟩
      intro info hinfo hnot
      exact (hall info hinfo).resolve_right hnot
    · rintro (hall | ⟨-, guid, hguid⟩) info hinfo
      · exact absurd (hall one hone) hmissing
      · by_cases hthere : s.Fetched dev info
        · exact Or.inr hthere
        · exact Or.inl ((hguid info hinfo hthere).trans (hguid one hone hmissing).symm)

end All

/-! ## The session -/

section Session

variable {dev : Device} {s s' : State}

theorem processRead_toGlobals (s : State) (rsp : DiagQsrFileReadRsp) :
    (processQsrDbFileReadDelayedRsp s rsp).1.toGlobals = s.toGlobals := by
  rw [processQsrDbFileReadDelayedRsp]
  by_cases hstatus : rsp.status = 0
  · rw [if_pos hstatus]
    by_cases hnum : rsp.numRead ≠ 0
    · rw [if_pos hnum]
      show (saveToDiskFile s (rsp.data.take rsp.numRead.toNat)).toGlobals = s.toGlobals
      rw [saveToDiskFile]
      cases s.diskFileFd with
      | none => rfl
      | some name => rfl
    · rw [if_neg hnum]
  · rw [if_neg hstatus]

theorem waitForRead_toGlobals (s : State) (rsps : List DiagQsrFileReadRsp) :
    (waitForRead s rsps).toGlobals = s.toGlobals := by
  induction rsps generalizing s with
  | nil => rfl
  | cons rsp rsps ih =>
      rw [waitForRead]
      by_cases hskip : (processQsrDbFileReadDelayedRsp s rsp).2 = true
      · rw [if_pos hskip, ih, processRead_toGlobals]
      · rw [if_neg hskip, processRead_toGlobals]

theorem read_toGlobals (dev : Device) (s : State) (fileOffset fileLen : UInt32) :
    (diagSendQsr4FileReadCmdReq dev s fileOffset fileLen).1.toGlobals = s.toGlobals := by
  rw [diagSendQsr4FileReadCmdReq]
  cases s.readFileFd with
  | none => rfl
  | some fd =>
      dsimp only
      by_cases hend : s.readFileTotalLen ≤ fileOffset
      · rw [if_pos hend]
      · rw [if_neg hend]
        exact waitForRead_toGlobals _ _

theorem readFile_toGlobals {rounds : Nat} {totalLen : UInt32} (h : readFile dev rounds s totalLen = some s') :
    s'.toGlobals = s.toGlobals := by
  induction rounds generalizing s totalLen with
  | zero => exact absurd h (by simp [readFile])
  | succ rounds ih =>
      rw [readFile] at h
      by_cases hmore : (diagSendQsr4FileReadCmdReq dev s totalLen maxQsr4DbFileReadPerRsp).2 = maxQsr4DbFileReadPerRsp
      · rw [if_pos hmore] at h
        rw [ih h, read_toGlobals]
      · rw [if_neg hmore, Option.some_inj] at h
        rw [← h, read_toGlobals]

theorem open_toGlobals (dev : Device) (s : State) (idx : Nat) :
    (diagSendQsr4FileOpenCmdReq dev s idx).toGlobals = s.toGlobals := rfl

theorem close_toGlobals (s : State) : (diagSendQsr4FileCloseSendReq s).toGlobals = s.toGlobals := by
  rw [diagSendQsr4FileCloseSendReq]
  cases s.readFileFd with
  | none => rfl
  | some fd =>
      show (processQsrDbFileCloseRsp _ _).toGlobals = s.toGlobals
      rw [processQsrDbFileCloseRsp]
      split <;> rfl

theorem fetchDatabase_toGlobals {gIgnoreCaptureQdbFile : Bool} {i : Nat}
    (h : fetchDatabase gIgnoreCaptureQdbFile dev s i = some s') : s'.toGlobals = s.toGlobals := by
  rw [fetchDatabase] at h
  split_ifs at h
  · rw [← Option.some_inj.mp h]
  · rw [← Option.some_inj.mp h]
  · rw [← Option.some_inj.mp h]
  · obtain ⟨t, hread, rfl⟩ := Option.map_eq_some_iff.mp h
    show (diagSendQsr4FileCloseSendReq t).toGlobals = s.toGlobals
    rw [close_toGlobals, readFile_toGlobals hread, open_toGlobals]

theorem foldlM_fetchDatabase_toGlobals {gIgnoreCaptureQdbFile : Bool} {is : List Nat}
    (h : is.foldlM (fetchDatabase gIgnoreCaptureQdbFile dev) s = some s') : s'.toGlobals = s.toGlobals := by
  induction is generalizing s with
  | nil => rw [← Option.some_inj.mp h]
  | cons i is ih =>
      rw [List.foldlM_cons] at h
      obtain ⟨t, hfetch, hrest⟩ := Option.bind_eq_some_iff.mp h
      rw [ih hrest, fetchDatabase_toGlobals hfetch]

/-- What the filter thread receives from the device. -/
def Device.createEnv (dev : Device) : CreateEnv := ⟨dev.entries, dev.rsps⟩

/-- **The fetches do not touch the header**: a session ends with the globals that it has without them. -/
theorem mdmInitFilter_toGlobals {gIgnoreCaptureQdbFile : Bool} (hids : s.IdsOnlyAfterInit)
    (h : mdmInitFilter gIgnoreCaptureQdbFile dev s = some s') :
    s'.toGlobals = QLog.mdmInitFilter s.toGlobals (.passed dev.createEnv) := by
  have hclear : s.toGlobals.clearData.qshrink4Init = s.qshrink4Init ∧
      s.toGlobals.clearData.useQmdl2V2 = s.useQmdl2V2 ∧ s.toGlobals.clearData.diagIdTable = s.diagIdTable :=
    ⟨rfl, rfl, rfl⟩
  rw [QLog.mdmInitFilter, QLog.mdmCreateQshrink4File, hclear.1, hclear.2.1, hclear.2.2]
  by_cases hinit : s.qshrink4Init = true
  · rw [mdmInitFilter, mdmCreateQshrink4File] at h
    dsimp only at h
    rw [if_pos hinit, Option.some_inj] at h
    rw [if_pos hinit, ← h]
    rfl
  · have hfalse : s.qshrink4Init = false := Bool.eq_false_iff.mpr hinit
    have htable : s.diagIdTable = [] := hids hfalse
    by_cases hv2 : s.useQmdl2V2 = true
    · rw [mdmInitFilter_eq gIgnoreCaptureQdbFile dev hfalse hv2 htable] at h
      obtain ⟨t, hfold, rfl⟩ := Option.map_eq_some_iff.mp h
      have ht := foldlM_fetchDatabase_toGlobals hfold
      rw [if_neg hinit, if_pos ⟨hv2, by rw [htable]; rfl⟩, htable]
      show { t.toGlobals with qshrink4 := mdmAddQshrink4Header t.toGlobals.qshrink4 } = _
      rw [ht]
      rfl
    · rw [mdmInitFilter, mdmCreateQshrink4File] at h
      dsimp only at h
      rw [if_neg hinit, if_neg (fun hboth => hv2 hboth.1), Option.some_inj] at h
      rw [if_neg hinit, if_neg (fun hboth => hv2 hboth.1), ← h]
      rfl

end Session

/-- A modem with two databases. -/
def twoDatabases : Device where
  entries := [⟨1, [0x6D, 0x6F, 0x64, 0x65, 0x6D, 0x2F, 0x72, 0x6F, 0x6F, 0x74, 0x5F, 0x70, 0x64]⟩]
  fileList := ⟨0, [⟨⟨List.replicate 16 17, rfl⟩, 1⟩, ⟨⟨List.replicate 16 34, rfl⟩, 2⟩], by decide⟩
  content := fun guid => if guid.head? = some 17 then [7] else [8, 9]
  readFd := fun _ => 3
  delays := fun _ _ => 1

/-- The start of the program, with the files `disk`. -/
def State.start (disk : List Char → Option (List UInt8)) : State where
  toGlobals := { globalsStart with useQmdl2V2 := true }
  readFileFd := none
  readFileTotalLen := 0
  readFileLen := 0
  diskFileFd := none
  ftpQdbFileLen := 0
  disk := disk
  opened := []

/-- The log directory with the first of the two. -/
def firstDatabase (name : List Char) : Option (List UInt8) :=
  if name = guidFileName (List.replicate 16 17) then some [7] else none

theorem forall_listed_twoDatabases {p : Qshrink4FileInfo → Prop} : (∀ info ∈ twoDatabases.listed, p info) ↔
    p ⟨⟨List.replicate 16 17, rfl⟩, 1⟩ ∧ p ⟨⟨List.replicate 16 34, rfl⟩, 2⟩ := by
  have hlisted : twoDatabases.listed = twoDatabases.fileList.info := rfl
  rw [hlisted, twoDatabases, List.forall_mem_cons, List.forall_mem_singleton]

theorem mdmInitFilter_fetchesAll_second :
    ∃ s', mdmInitFilter false twoDatabases (State.start firstDatabase) = some s' ∧
      ∀ info ∈ twoDatabases.listed, s'.Fetched twoDatabases info := by
  have hfirst : (State.start firstDatabase).Fetched twoDatabases ⟨⟨List.replicate 16 17, rfl⟩, 1⟩ := by
    simp [State.Fetched, State.start, firstDatabase, twoDatabases]
  have hsecond : (State.start firstDatabase).disk (guidFileName (List.replicate 16 34)) = none := by
    have hne : guidFileName (List.replicate 16 34) ≠ guidFileName (List.replicate 16 17) := by decide
    simp only [State.start, firstDatabase, if_neg hne]
  obtain ⟨s', hrun, hiff⟩ := mdmInitFilter_fetchesAll_iff twoDatabases (State.start firstDatabase) rfl rfl rfl
    (forall_listed_twoDatabases.mpr ⟨rfl, rfl⟩)
    (forall_listed_twoDatabases.mpr
      ⟨fun _ _ _ => hfirst, fun _ hbytes _ => absurd (hsecond.symm.trans hbytes) (by simp)⟩)
  refine ⟨s', hrun, hiff.mpr (Or.inr ⟨rfl, ⟨List.replicate 16 34, rfl⟩, ?_⟩)⟩
  rw [forall_listed_twoDatabases]
  exact ⟨fun hmissing => absurd hfirst hmissing, fun _ => rfl⟩

/-- Two databases are missing, and one of them is fetched. -/
theorem not_mdmInitFilter_fetchesAll :
    ¬ ∀ (dev : Device) (s : State), s.qshrink4Init = false → s.useQmdl2V2 = true → s.diagIdTable = [] →
      (∀ info ∈ dev.listed, info.fileLen.toNat = (dev.content info.guid.val).length) →
      (∀ info ∈ dev.listed, ∀ bytes, s.disk (guidFileName info.guid.val) = some bytes →
        bytes.length = info.fileLen.toNat → s.Fetched dev info) →
      ∃ s', mdmInitFilter false dev s = some s' ∧ ∀ info ∈ dev.listed, s'.Fetched dev info := by
  intro h
  obtain ⟨s', hrun, hall⟩ := h twoDatabases (State.start fun _ => none) rfl rfl rfl
    (forall_listed_twoDatabases.mpr ⟨rfl, rfl⟩)
    (forall_listed_twoDatabases.mpr ⟨fun _ hbytes => absurd hbytes (by simp [State.start]),
      fun _ hbytes => absurd hbytes (by simp [State.start])⟩)
  have hsecond := (forall_listed_twoDatabases.mp hall).2
  have hnone : (mdmInitFilter false twoDatabases (State.start fun _ => none)).map (fun s =>
      s.disk (guidFileName (List.replicate 16 34))) = some none := by decide +kernel
  rw [hrun, Option.map_some, Option.some.injEq] at hnone
  exact absurd (hnone.symm.trans hsecond) (by decide)

end Qdb

end QLog
