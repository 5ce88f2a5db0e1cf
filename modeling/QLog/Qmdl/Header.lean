import Mathlib.Data.List.Infix
import QLog.Library.ByteBuffer
import QLog.Library.LittleEndian

/-! # The header of a qmdl2 file

`qshrink4_data` is a packed structure that is written to a log file as it lies in memory. The file-list responses
of the modem fill its GUID list, and `mdm_add_qshrink4_header` appends the table of diag ids behind the GUIDs
and computes `header_length` by a formula of its own.

The structure has a field that the formula does not count: `guid_file_len`, 64 bytes between
`guid_list_entry_count` and `guid`. The first `header_length` bytes therefore hold the file lengths where the
GUIDs should stand, and lack the last 64 bytes. -/

namespace QLog

open Library

/-- `GUID_LEN` -/
def guidLen : Nat := 16

/-- `MAX_GUID_ENTRIES` -/
def maxGuidEntries : Nat := 16

/-! ## Data -/

/-- `qshrink4_file_info` -/
structure Qshrink4FileInfo where
  guid : Block 16
  fileLen : UInt32

/-- `diag_qsr_file_list_rsp`: `info` holds `num_files` entries, a number of one byte. -/
structure DiagQsrFileListRsp where
  status : UInt8
  info : List Qshrink4FileInfo
  numFiles : info.length < 256

/-- `diag_id_list`, an entry of `diag_id_table`. -/
structure DiagIdList where
  diagId : UInt8
  peripheral : UInt8
  processName : Block 30

/-- `diagid_guid_struct` -/
structure DiagidGuidStruct where
  diagId : UInt8
  processName : Block 30
  guid : Block 16

/-- A `diagid_guid_struct` in memory. -/
def DiagidGuidStruct.bytes (d : DiagidGuidStruct) : List UInt8 :=
  [d.diagId] ++ d.processName.val ++ d.guid.val

theorem DiagidGuidStruct.length_bytes (d : DiagidGuidStruct) : d.bytes.length = 47 := by
  simp [bytes, d.processName.property, d.guid.property]

/-- `qshrink4_header`. The last two fields, `guid` and `guid_struct`, are one `area`: the table of diag ids is
written across their border. -/
structure Qshrink4Header where
  headerLength : Nat
  version : UInt8
  hdlcDataType : UInt8
  guidListEntryCount : Nat
  guidFileLen : List UInt32
  area : List UInt8

/-- `qshrink4_data` after the `memset` of `mdm_init_filter`. -/
def qshrink4Zero : Qshrink4Header where
  headerLength := 0
  version := 0
  hdlcDataType := 0
  guidListEntryCount := 0
  guidFileLen := List.replicate maxGuidEntries 0
  area := List.replicate (maxGuidEntries * guidLen + maxGuidEntries * (1 + 30 + guidLen) * 4) 0

/-- The structure as it lies in memory. -/
def Qshrink4Header.bytes (q : Qshrink4Header) : List UInt8 :=
  leBytes 4 q.headerLength ++ [q.version, q.hdlcDataType] ++ leBytes 4 q.guidListEntryCount
    ++ q.guidFileLen.flatMap (fun len => leBytes 4 len.toNat) ++ q.area

/-- What `mdm_logfile_init` and `mdm_logfile_save` write to a file. -/
def Qshrink4Header.written (q : Qshrink4Header) : List UInt8 := q.bytes.take q.headerLength

/-- The array `diagid_guid`. -/
abbrev DiagidGuid : Type := { entries : List DiagidGuidStruct // entries.length = maxGuidEntries }

/-- The globals `qshrink4_data` and `diagid_guid`. -/
structure Qshrink4 where
  data : Qshrink4Header
  diagidGuid : DiagidGuid

/-! ## Operations -/

/-- `strncpy` of a name into 30 bytes. -/
def strncpy30 (name : List UInt8) : Block 30 :=
  let text := name.takeWhile (· ≠ 0)
  ⟨(text ++ List.replicate 30 0).take 30, by simp⟩

/-- `diag_query_pd_name`: the name, up to its end, contains a text. -/
def diagQueryPdName (processName : Block 30) (searchStr : List UInt8) : Bool :=
  decide (searchStr <:+: processName.val.takeWhile (· ≠ 0))

/-- The text "root". -/
def rootText : List UInt8 := [0x72, 0x6F, 0x6F, 0x74]

/-- `get_diag_id` -/
def getDiagId (diagIdTable : List DiagIdList) (peripheral : UInt8) : Option DiagIdList :=
  diagIdTable.find? fun item => item.peripheral = peripheral && diagQueryPdName item.processName rootText

/-- The new entry of `diagid_guid`. Without a matching diag id, the id and the name of an earlier session
stay. -/
def diagidGuidEntry (old : DiagidGuidStruct) (item : Option DiagIdList) (guid : Block 16) :
    DiagidGuidStruct :=
  match item with
  | some item => ⟨item.diagId, strncpy30 item.processName.val, guid⟩
  | none => { old with guid := guid }

/-- Assign to an entry of `diagid_guid`. -/
def DiagidGuid.modify (d : DiagidGuid) (i : Nat) (f : DiagidGuidStruct → DiagidGuidStruct) : DiagidGuid :=
  ⟨d.val.modify i f, by rw [List.length_modify]; exact d.property⟩

/-- `insert_diag_qsr4_db_guid_to_list` -/
def insertDiagQsr4DbGuidToList (diagIdTable : List DiagIdList) (s : Qshrink4) (info : Qshrink4FileInfo)
    (peripheral : UInt8) : Qshrink4 :=
  let count := s.data.guidListEntryCount
  if maxGuidEntries ≤ count then s
  else
    { data :=
        { s.data with
          guidListEntryCount := count + 1
          guidFileLen := s.data.guidFileLen.set count info.fileLen
          area := overwrite s.data.area (guidLen * count) info.guid.val }
      diagidGuid := DiagidGuid.modify s.diagidGuid count fun old =>
        diagidGuidEntry old (getDiagId diagIdTable peripheral) info.guid }

/-- `process_qsr4_db_file_list_response` -/
def processQsr4DbFileListResponse (diagIdTable : List DiagIdList) (s : Qshrink4)
    (rsp : UInt8 × DiagQsrFileListRsp) : Qshrink4 :=
  if rsp.2.status = 0 then
    rsp.2.info.foldl
      (fun s info =>
        if info.fileLen ≠ 0 then insertDiagQsr4DbGuidToList diagIdTable s info rsp.1 else s) s
  else s

/-- `mdm_add_qshrink4_header` -/
def mdmAddQshrink4Header (s : Qshrink4) : Qshrink4 :=
  let count := s.data.guidListEntryCount
  let area := overwrite s.data.area (guidLen * count) (leBytes 4 count)
  { s with
    data :=
      { s.data with
        headerLength := 10 + count * guidLen + 4 + count * 47
        version := 2
        hdlcDataType := 1
        area := overwrite area (guidLen * count + 4)
          ((s.diagidGuid.val.take count).flatMap DiagidGuidStruct.bytes) } }

/-- The header after the responses of a session, each with the `cur_peripheral` it answers. -/
def sessionHeader (diagIdTable : List DiagIdList) (stale : DiagidGuid)
    (rsps : List (UInt8 × DiagQsrFileListRsp)) : Qshrink4 :=
  mdmAddQshrink4Header (rsps.foldl (processQsr4DbFileListResponse diagIdTable) ⟨qshrink4Zero, stale⟩)

/-! ## What the responses list -/

/-- The files that the responses list and that the GUID list is made of. -/
def listedFiles (rsps : List (UInt8 × DiagQsrFileListRsp)) : List Qshrink4FileInfo :=
  rsps.flatMap fun rsp => if rsp.2.status = 0 then rsp.2.info.filter fun info => info.fileLen ≠ 0 else []

/-- The GUID list holds the files `files`. -/
structure Lists (s : Qshrink4) (files : List Qshrink4FileInfo) : Prop where
  count : s.data.guidListEntryCount = files.length
  le_max : files.length ≤ maxGuidEntries
  nonzero : ∀ info ∈ files, info.fileLen ≠ 0
  lens : s.data.guidFileLen
    = files.map Qshrink4FileInfo.fileLen ++ List.replicate (maxGuidEntries - files.length) 0
  area : ∃ rest, s.data.area = files.flatMap (fun info => info.guid.val) ++ rest
  guids : (s.diagidGuid.val.take files.length).map DiagidGuidStruct.guid
    = files.map Qshrink4FileInfo.guid

theorem length_guids (files : List Qshrink4FileInfo) :
    (files.flatMap fun info => info.guid.val).length = guidLen * files.length :=
  length_flatMap_block _ files fun info _ => info.guid.property

theorem diagidGuidEntry_guid (old : DiagidGuidStruct) (item : Option DiagIdList) (guid : Block 16) :
    (diagidGuidEntry old item guid).guid = guid := by
  cases item <;> rfl

/-- The GUIDs of the first entries after an assignment to the next one. -/
theorem map_guid_take_modify (l : List DiagidGuidStruct) {k : Nat} (hk : k < l.length)
    {f : DiagidGuidStruct → DiagidGuidStruct} {guid : Block 16} (hf : ∀ d, (f d).guid = guid) :
    ((l.modify k f).take (k + 1)).map DiagidGuidStruct.guid
      = (l.take k).map DiagidGuidStruct.guid ++ [guid] := by
  -- `take` and `modify` go down the list together
  induction l generalizing k with
  | nil => exact absurd hk (Nat.not_lt_zero k)
  | cons d l ih =>
      cases k with
      | zero => simp [hf]
      | succ k =>
          have htail := ih (Nat.lt_of_succ_lt_succ hk)
          rw [List.modify_succ_cons, List.take_succ_cons, List.map_cons, htail, List.take_succ_cons,
            List.map_cons, List.cons_append]

/-- `memset` leaves an empty list. -/
theorem lists_zero (stale : DiagidGuid) : Lists ⟨qshrink4Zero, stale⟩ [] :=
  ⟨rfl, Nat.zero_le _, fun _ h => absurd h List.not_mem_nil, rfl, ⟨_, rfl⟩, rfl⟩

/-- A listed file is appended as long as there is room. -/
theorem Lists.insert {s : Qshrink4} {files : List Qshrink4FileInfo} (h : Lists s files)
    (diagIdTable : List DiagIdList) (peripheral : UInt8) {info : Qshrink4FileInfo}
    (hlen : info.fileLen ≠ 0) :
    Lists (insertDiagQsr4DbGuidToList diagIdTable s info peripheral)
      ((files ++ [info]).take maxGuidEntries) := by
  unfold insertDiagQsr4DbGuidToList
  dsimp only
  rw [h.count]
  split
  · -- the list is full, and the file is ignored
    rename_i hfull
    have hall : files.length = maxGuidEntries := Nat.le_antisymm h.le_max hfull
    rw [List.take_append_of_le_length hfull, ← hall, List.take_length]
    exact h
  · rename_i hroom
    have hlt : files.length < maxGuidEntries := Nat.not_le.mp hroom
    have hlength : (files ++ [info]).length = files.length + 1 := by
      rw [List.length_append, List.length_singleton]
    rw [List.take_of_length_le (by omega)]
    obtain ⟨rest, harea⟩ := h.area
    refine ⟨hlength.symm, by omega, ?_, ?_, ?_, ?_⟩
    · intro x hx
      rcases List.mem_append.mp hx with hx | hx
      · exact h.nonzero x hx
      · rw [List.mem_singleton] at hx
        rw [hx]
        exact hlen
    · -- the length goes to the first unused entry, which is the head of the zeros
      have hsplit : maxGuidEntries - files.length = maxGuidEntries - (files ++ [info]).length + 1 := by
        omega
      have hmap : (files.map Qshrink4FileInfo.fileLen).length = files.length := List.length_map _
      rw [h.lens, hsplit, List.replicate_succ, List.set_append_right _ _ (Nat.le_of_eq hmap), hmap,
        Nat.sub_self, List.set_cons_zero, List.map_append, List.append_assoc]
      rfl
    · refine ⟨rest.drop info.guid.val.length, ?_⟩
      rw [harea, ← length_guids, overwrite_append, List.flatMap_append, List.flatMap_singleton]
    -- the name and the id of the entry are not part of the list, its GUID is
    · have hentry : files.length < s.diagidGuid.val.length := by
        rw [s.diagidGuid.property]
        exact hlt
      rw [hlength, List.map_append, ← h.guids]
      exact map_guid_take_modify _ hentry fun d => diagidGuidEntry_guid d _ _

/-- The files of one response. -/
theorem Lists.foldl_insert {s : Qshrink4} {files : List Qshrink4FileInfo} (h : Lists s files)
    (diagIdTable : List DiagIdList) (peripheral : UInt8) (infos : List Qshrink4FileInfo) :
    Lists (infos.foldl (fun s info =>
        if info.fileLen ≠ 0 then insertDiagQsr4DbGuidToList diagIdTable s info peripheral else s) s)
      ((files ++ infos.filter fun info => info.fileLen ≠ 0).take maxGuidEntries) := by
  induction infos generalizing s files with
  | nil =>
      rw [List.filter_nil, List.append_nil, List.take_of_length_le h.le_max]
      exact h
  | cons info infos ih =>
      rw [List.foldl_cons]
      by_cases hlen : info.fileLen ≠ 0
      · -- what does not fit now does not fit later either
        have hnext := ih (h.insert diagIdTable peripheral hlen)
        rw [if_pos hlen, List.filter_cons_of_pos (by simpa using hlen)]
        rwa [take_take_append, List.append_assoc] at hnext
      -- a file of length zero is passed over
      · rw [if_neg hlen, List.filter_cons_of_neg (by simpa using hlen)]
        exact ih h

/-- The files of all responses, up to the size of the list. -/
theorem Lists.foldl_responses {s : Qshrink4} {files : List Qshrink4FileInfo} (h : Lists s files)
    (diagIdTable : List DiagIdList) (rsps : List (UInt8 × DiagQsrFileListRsp)) :
    Lists (rsps.foldl (processQsr4DbFileListResponse diagIdTable) s)
      ((files ++ listedFiles rsps).take maxGuidEntries) := by
  induction rsps generalizing s files with
  | nil =>
      rw [listedFiles, List.flatMap_nil, List.append_nil, List.take_of_length_le h.le_max]
      exact h
  | cons rsp rsps ih =>
      rw [List.foldl_cons, listedFiles, List.flatMap_cons, processQsr4DbFileListResponse]
      by_cases hstatus : rsp.2.status = 0
      · rw [if_pos hstatus, if_pos hstatus]
        have hnext := ih (h.foldl_insert diagIdTable rsp.1 rsp.2.info)
        rwa [take_take_append, List.append_assoc] at hnext
      -- a response with an error status lists nothing
      · rw [if_neg hstatus, if_neg hstatus]
        exact ih h

end QLog
