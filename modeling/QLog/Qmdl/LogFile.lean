import QLog.Qmdl.Layout

/-! # The files of a qmdl2 session

The filter thread completes the header at some moment, while the logging thread opens, writes and closes one
file after the other. A file opened before that moment owes a header: `mdm_miss_qmdlv2_logfd` remembers its
descriptor, and the first save behind that moment pays the debt. Descriptor numbers are reused, so the
remembered number may be that of a file closed long ago. -/

namespace QLog

open Library

/-- A log file: its descriptor, what was written to it, and the buffers given to `mdm_logfile_save` for it since
the header was completed. The last field is for the statement only, no function reads it. -/
structure QmdlFile where
  fd : Nat
  content : List UInt8
  savedAfter : List (List UInt8)

/-- The state of a session: the globals of the filter thread, whether `mdm_create_qshrink4_file` has come to its
end (`qshrink4_init` keeps it from running again in the session), `mdm_miss_qmdlv2_logfd`, the open file and the
files closed before. -/
structure QmdlSession where
  useQmdl2V2 : Bool
  diagIdTable : List DiagIdList
  qshrink4 : Qshrink4
  filterDone : Bool
  missLogfd : Int
  current : Option QmdlFile
  closed : List QmdlFile

/-- The header is there: `header_length` is not zero. -/
def Qshrink4.HasHeader (q : Qshrink4) : Prop := q.data.headerLength ≠ 0

instance (q : Qshrink4) : Decidable q.HasHeader := inferInstanceAs (Decidable (_ ≠ _))

/-- Append to a file. -/
def QmdlFile.append (f : QmdlFile) (bytes : List UInt8) : QmdlFile :=
  { f with content := f.content ++ bytes }

/-- Note a buffer given to `mdm_logfile_save` if the header is completed. -/
def QmdlFile.note (f : QmdlFile) (filterDone : Bool) (buf : List UInt8) : QmdlFile :=
  if filterDone then { f with savedAfter := f.savedAfter ++ [buf] } else f

/-- `mdm_logfile_init` on a new file. -/
def mdmLogfileInit (s : QmdlSession) (f : QmdlFile) : QmdlSession :=
  if s.useQmdl2V2 = false then { s with current := some f }
  -- the header is there: the file gets it at once
  else if s.qshrink4.HasHeader then
    { s with missLogfd := -1, current := some (f.append s.qshrink4.data.written) }
  else { s with missLogfd := f.fd, current := some f }

/-- `mdm_logfile_save` on the open file. -/
def mdmLogfileSave (s : QmdlSession) (f : QmdlFile) (buf : List UInt8) : QmdlSession :=
  if s.useQmdl2V2 = false then { s with current := some (f.append buf) }
  else if s.qshrink4.HasHeader then
    -- the file was opened before the header was completed
    if s.missLogfd = f.fd then
      { s with
        missLogfd := -1
        current := some ((f.append s.qshrink4.data.written).append buf) }
    else { s with current := some (f.append buf) }
  -- before that the buffer is discarded, and its size returned
  else { s with current := some f }

/-- The steps of the two threads. -/
inductive QmdlOp
  /-- a file-list response, with the `cur_peripheral` it answers -/
  | response (rsp : UInt8 × DiagQsrFileListRsp)
  /-- the filter thread ends with `mdm_add_qshrink4_header` -/
  | complete
  /-- the open file is closed -/
  | close
  /-- the next file is opened, under a number that is free, and passed to `mdm_logfile_init` -/
  | openFile (fd : Nat)
  /-- `mdm_logfile_save` on the open file -/
  | save (buf : List UInt8)

/-- One step. A step that its thread cannot take in this state leaves the state as it is. -/
def qmdlStep (s : QmdlSession) : QmdlOp → QmdlSession
  | .response rsp =>
      if s.filterDone then s
      else { s with qshrink4 := processQsr4DbFileListResponse s.diagIdTable s.qshrink4 rsp }
  | .complete =>
      if s.filterDone then s
      else { s with qshrink4 := mdmAddQshrink4Header s.qshrink4, filterDone := true }
  | .close =>
      match s.current with
      | none => s
      | some f => { s with current := none, closed := s.closed ++ [f] }
  | .openFile fd =>
      match s.current with
      | none => mdmLogfileInit s ⟨fd, [], []⟩
      | some _ => s
  | .save buf =>
      match s.current with
      | none => s
      | some f => mdmLogfileSave s (f.note s.filterDone buf) buf

/-- The first session of the process, with `use_qmdl2_v2` set. -/
def qmdlStart (diagIdTable : List DiagIdList) (diagidGuid : DiagidGuid) : QmdlSession where
  useQmdl2V2 := true
  diagIdTable := diagIdTable
  qshrink4 := ⟨qshrink4Zero, diagidGuid⟩
  filterDone := false
  missLogfd := -1
  current := none
  closed := []

/-! ## What a file holds -/

/-- A file without a header: nothing was written to it, and nothing was to be. -/
def QmdlFile.Blank (f : QmdlFile) : Prop := f.content = [] ∧ f.savedAfter = []

/-- A file with one header and then exactly what was saved to it. -/
def QmdlFile.Headed (header : List UInt8) (f : QmdlFile) : Prop :=
  f.content = header ++ f.savedAfter.flatten

/-- Before the header is completed every file is blank and the open one is remembered; afterwards the open file
is remembered exactly as long as it is blank. -/
structure QmdlInv (s : QmdlSession) : Prop where
  v2 : s.useQmdl2V2 = true
  header : s.filterDone = true ↔ s.qshrink4.HasHeader
  closed : ∀ f ∈ s.closed, f.Blank ∨ s.filterDone = true ∧ f.Headed s.qshrink4.data.written
  current : ∀ f ∈ s.current, f.Blank ∧ s.missLogfd = f.fd ∨
    s.filterDone = true ∧ f.Headed s.qshrink4.data.written ∧ s.missLogfd ≠ f.fd

/-! ## The filter thread -/

theorem headerLength_insert (table : List DiagIdList) (q : Qshrink4) (info : Qshrink4FileInfo)
    (peripheral : UInt8) :
    (insertDiagQsr4DbGuidToList table q info peripheral).data.headerLength = q.data.headerLength := by
  unfold insertDiagQsr4DbGuidToList
  dsimp only
  split <;> rfl

/-- A response does not touch `header_length`. -/
theorem headerLength_response (table : List DiagIdList) (q : Qshrink4)
    (rsp : UInt8 × DiagQsrFileListRsp) :
    (processQsr4DbFileListResponse table q rsp).data.headerLength = q.data.headerLength := by
  unfold processQsr4DbFileListResponse
  split
  · induction rsp.2.info generalizing q with
    | nil => rfl
    | cons info infos ih =>
        rw [List.foldl_cons, ih]
        split
        · exact headerLength_insert table q info rsp.1
        · rfl
  · rfl

/-- The completed header is never empty. -/
theorem hasHeader_addHeader (q : Qshrink4) : (mdmAddQshrink4Header q).HasHeader := by
  unfold Qshrink4.HasHeader mdmAddQshrink4Header
  dsimp only
  omega

/-! ## One step, then every run -/

theorem qmdlInv_start (diagIdTable : List DiagIdList) (diagidGuid : DiagidGuid) :
    QmdlInv (qmdlStart diagIdTable diagidGuid) where
  v2 := rfl
  header := ⟨fun h => absurd h Bool.false_ne_true, fun h => absurd rfl h⟩
  closed := fun _ hf => absurd hf List.not_mem_nil
  current := fun f hf => absurd hf (Option.not_mem_none f)

/-- A filter step before the header is completed, which leaves the files alone. -/
theorem QmdlInv.response {s : QmdlSession} (h : QmdlInv s) (hdone : s.filterDone = false)
    (rsp : UInt8 × DiagQsrFileListRsp) :
    QmdlInv { s with qshrink4 := processQsr4DbFileListResponse s.diagIdTable s.qshrink4 rsp } := by
  have hno : ¬ s.filterDone = true := by rw [hdone]; decide
  refine ⟨h.v2, ?_, ?_, ?_⟩
  · show s.filterDone = true ↔ _ ≠ _
    rw [headerLength_response]
    exact h.header
  · intro f hf
    exact Or.inl ((h.closed f hf).resolve_right fun hx => hno hx.1)
  · intro f hf
    exact Or.inl ((h.current f hf).resolve_right fun hx => hno hx.1)

theorem QmdlInv.complete {s : QmdlSession} (h : QmdlInv s) (hdone : s.filterDone = false) :
    QmdlInv { s with qshrink4 := mdmAddQshrink4Header s.qshrink4, filterDone := true } := by
  have hno : ¬ s.filterDone = true := by rw [hdone]; decide
  refine ⟨h.v2, ⟨fun _ => hasHeader_addHeader s.qshrink4, fun _ => rfl⟩, ?_, ?_⟩
  · intro f hf
    exact Or.inl ((h.closed f hf).resolve_right fun hx => hno hx.1)
  · intro f hf
    exact Or.inl ((h.current f hf).resolve_right fun hx => hno hx.1)

theorem QmdlInv.close {s : QmdlSession} (h : QmdlInv s) {f : QmdlFile} (hf : s.current = some f) :
    QmdlInv { s with current := none, closed := s.closed ++ [f] } := by
  refine ⟨h.v2, h.header, ?_, fun g hg => absurd hg (Option.not_mem_none g)⟩
  intro g hg
  rcases List.mem_append.mp hg with hg | hg
  · exact h.closed g hg
  · rw [List.mem_singleton] at hg
    subst hg
    rcases h.current g hf with hblank | hheaded
    · exact Or.inl hblank.1
    · exact Or.inr ⟨hheaded.1, hheaded.2.1⟩

/-- A new file gets the header, or is remembered. -/
theorem QmdlInv.init {s : QmdlSession} (h : QmdlInv s) (fd : Nat) :
    QmdlInv (mdmLogfileInit s ⟨fd, [], []⟩) := by
  have hv2 : ¬ s.useQmdl2V2 = false := by rw [h.v2]; decide
  unfold mdmLogfileInit
  rw [if_neg hv2]
  split
  · rename_i hheader
    refine ⟨h.v2, h.header, h.closed, ?_⟩
    rintro f ⟨⟩
    refine Or.inr ⟨h.header.mpr hheader, ?_, ?_⟩
    · exact (List.append_nil _).symm
    · -- a descriptor number is not negative
      show (-1 : Int) ≠ (fd : Int)
      omega
  · refine ⟨h.v2, h.header, h.closed, ?_⟩
    rintro f ⟨⟩
    exact Or.inl ⟨⟨rfl, rfl⟩, rfl⟩

/-- A save before the header is completed is discarded; afterwards the first one pays the header. -/
theorem QmdlInv.save {s : QmdlSession} (h : QmdlInv s) {f : QmdlFile} (hf : s.current = some f)
    (buf : List UInt8) : QmdlInv (mdmLogfileSave s (f.note s.filterDone buf) buf) := by
  have hv2 : ¬ s.useQmdl2V2 = false := by rw [h.v2]; decide
  unfold mdmLogfileSave
  rw [if_neg hv2]
  by_cases hdone : s.filterDone = true
  · rw [if_pos (h.header.mp hdone), QmdlFile.note, if_pos hdone]
    by_cases hmiss : s.missLogfd = f.fd
    · rw [if_pos hmiss]
      -- the debt is open, so the file is blank
      have hblank : f.Blank := by
        rcases h.current f hf with hblank | hheaded
        · exact hblank.1
        · exact absurd hmiss hheaded.2.2
      refine ⟨h.v2, h.header, h.closed, ?_⟩
      rintro g ⟨⟩
      refine Or.inr ⟨hdone, ?_, ?_⟩
      · show (f.content ++ s.qshrink4.data.written) ++ buf
          = s.qshrink4.data.written ++ (f.savedAfter ++ [buf]).flatten
        rw [hblank.1, hblank.2, List.nil_append, List.nil_append, List.flatten_singleton]
      · show (-1 : Int) ≠ (f.fd : Int)
        omega
    · rw [if_neg hmiss]
      -- the open file is not remembered, so its header is paid
      have hheaded : f.Headed s.qshrink4.data.written := by
        rcases h.current f hf with hblank | hheaded
        · exact absurd hblank.2 hmiss
        · exact hheaded.2.1
      refine ⟨h.v2, h.header, h.closed, ?_⟩
      rintro g ⟨⟩
      refine Or.inr ⟨hdone, ?_, hmiss⟩
      show f.content ++ buf = s.qshrink4.data.written ++ (f.savedAfter ++ [buf]).flatten
      rw [show f.content = _ from hheaded, List.flatten_append, List.flatten_singleton,
        List.append_assoc]
  · rw [if_neg (mt h.header.mpr hdone), QmdlFile.note, if_neg hdone, ← hf]
    exact h

theorem QmdlInv.step {s : QmdlSession} (h : QmdlInv s) (op : QmdlOp) : QmdlInv (qmdlStep s op) := by
  cases op with
  | response rsp =>
      simp only [qmdlStep]
      split
      · exact h
      · rename_i hdone
        exact h.response (Bool.eq_false_iff.mpr hdone) rsp
  | complete =>
      simp only [qmdlStep]
      split
      · exact h
      · rename_i hdone
        exact h.complete (Bool.eq_false_iff.mpr hdone)
  | close =>
      simp only [qmdlStep]
      split
      · exact h
      · rename_i f hf
        exact h.close hf
  | openFile fd =>
      simp only [qmdlStep]
      split
      · exact h.init fd
      · exact h
  | save buf =>
      simp only [qmdlStep]
      split
      · exact h
      · rename_i f hf
        exact h.save hf buf

theorem QmdlInv.run {s : QmdlSession} (h : QmdlInv s) (ops : List QmdlOp) :
    QmdlInv (ops.foldl qmdlStep s) := by
  induction ops generalizing s with
  | nil => exact h
  | cons op ops ih => exact ih (h.step op)

/-! ## The header itself -/

/-- A response lists files in the structure. -/
theorem Lists.response {q : Qshrink4} {files : List Qshrink4FileInfo} (h : Lists q files)
    (diagIdTable : List DiagIdList) (rsp : UInt8 × DiagQsrFileListRsp) :
    ∃ files, Lists (processQsr4DbFileListResponse diagIdTable q rsp) files :=
  ⟨_, h.foldl_responses diagIdTable [rsp]⟩

/-- The structure lists files, and has its header if the filter thread has come to its end. -/
def HeaderData (s : QmdlSession) : Prop :=
  ∃ q files, Lists q files ∧ s.qshrink4 = if s.filterDone then mdmAddQshrink4Header q else q

theorem headerData_start (diagIdTable : List DiagIdList) (diagidGuid : DiagidGuid) :
    HeaderData (qmdlStart diagIdTable diagidGuid) :=
  ⟨_, [], lists_zero diagidGuid, rfl⟩

/-- Files are opened and saved to without a change to the structure. -/
theorem HeaderData.of_eq {s s' : QmdlSession} (h : HeaderData s) (hdata : s'.qshrink4 = s.qshrink4)
    (hdone : s'.filterDone = s.filterDone) : HeaderData s' := by
  rwa [HeaderData, hdata, hdone]

theorem mdmLogfileInit_header (s : QmdlSession) (f : QmdlFile) :
    (mdmLogfileInit s f).qshrink4 = s.qshrink4 ∧ (mdmLogfileInit s f).filterDone = s.filterDone := by
  unfold mdmLogfileInit
  split
  · exact ⟨rfl, rfl⟩
  · split <;> exact ⟨rfl, rfl⟩

theorem mdmLogfileSave_header (s : QmdlSession) (f : QmdlFile) (buf : List UInt8) :
    (mdmLogfileSave s f buf).qshrink4 = s.qshrink4 ∧ (mdmLogfileSave s f buf).filterDone = s.filterDone := by
  unfold mdmLogfileSave
  split
  · exact ⟨rfl, rfl⟩
  · split
    · split <;> exact ⟨rfl, rfl⟩
    · exact ⟨rfl, rfl⟩

theorem HeaderData.step {s : QmdlSession} (h : HeaderData s) (op : QmdlOp) : HeaderData (qmdlStep s op) := by
  cases op with
  | response rsp =>
      simp only [qmdlStep]
      split
      · exact h
      · rename_i hdone
        obtain ⟨q, files, hlists, hq⟩ := h
        rw [if_neg hdone] at hq
        obtain ⟨files', hlists'⟩ := hlists.response s.diagIdTable rsp
        exact ⟨_, files', hlists', by rw [if_neg hdone, hq]⟩
  | complete =>
      simp only [qmdlStep]
      split
      · exact h
      · rename_i hdone
        obtain ⟨q, files, hlists, hq⟩ := h
        rw [if_neg hdone] at hq
        exact ⟨q, files, hlists, by rw [if_pos rfl, hq]⟩
  | close =>
      simp only [qmdlStep]
      split
      · exact h
      · exact h
  | openFile fd =>
      simp only [qmdlStep]
      split
      · exact h.of_eq (mdmLogfileInit_header s _).1 (mdmLogfileInit_header s _).2
      · exact h
  | save buf =>
      simp only [qmdlStep]
      split
      · exact h
      · exact h.of_eq (mdmLogfileSave_header s _ buf).1 (mdmLogfileSave_header s _ buf).2

theorem HeaderData.run {s : QmdlSession} (h : HeaderData s) (ops : List QmdlOp) :
    HeaderData (ops.foldl qmdlStep s) := by
  induction ops generalizing s with
  | nil => exact h
  | cons op ops ih => exact ih (h.step op)

/-- What is written in front of a file is `header_length` bytes of the structure, and not none. -/
theorem HeaderData.length_written {s : QmdlSession} (h : HeaderData s) (hdone : s.filterDone = true) :
    s.qshrink4.data.written.length = s.qshrink4.data.headerLength ∧ 0 < s.qshrink4.data.headerLength := by
  obtain ⟨q, files, hlists, hq⟩ := h
  rw [if_pos hdone] at hq
  rw [hq]
  exact ⟨hlists.length_written_addHeader, Nat.pos_of_ne_zero (hasHeader_addHeader q)⟩

/-- The files of a session, the open one last. -/
def QmdlSession.files (s : QmdlSession) : List QmdlFile := s.closed ++ s.current.toList

/-- **Every file of a session starts with exactly one header**: after any steps of the two threads, in any order,
each file is empty with nothing saved to it since the header was completed, or the header is completed and the file
holds the first `header_length` bytes of `qshrink4_data`, which are not none, followed by exactly what was saved to
it since. -/
theorem qmdl_files_headed (diagIdTable : List DiagIdList) (diagidGuid : DiagidGuid) (ops : List QmdlOp) :
    let s := ops.foldl qmdlStep (qmdlStart diagIdTable diagidGuid)
    ∀ f ∈ s.files, (f.content = [] ∧ f.savedAfter = []) ∨
      s.filterDone = true ∧ ∃ header, header.length = s.qshrink4.data.headerLength ∧ 0 < header.length ∧
        header <+: s.qshrink4.data.bytes ∧ f.content = header ++ f.savedAfter.flatten := by
  intro s f hf
  have h : QmdlInv s := (qmdlInv_start diagIdTable diagidGuid).run ops
  have hdata : HeaderData s := (headerData_start diagIdTable diagidGuid).run ops
  have hfile : f.Blank ∨ s.filterDone = true ∧ f.Headed s.qshrink4.data.written := by
    rcases List.mem_append.mp hf with hf | hf
    · exact h.closed f hf
    · rcases h.current f (Option.mem_toList.mp hf) with hblank | hheaded
      · exact Or.inl hblank.1
      · exact Or.inr ⟨hheaded.1, hheaded.2.1⟩
  refine hfile.imp_right fun ⟨hdone, hheaded⟩ => ⟨hdone, s.qshrink4.data.written, ?_⟩
  obtain ⟨hlen, hpos⟩ := hdata.length_written hdone
  exact ⟨hlen, by rw [hlen]; exact hpos, List.take_prefix _ _, hheaded⟩

/-- A file opened and saved to before the header is completed, and saved to again afterwards. The header lists no
file, and holds ten bytes of fields and the number of its entries. -/
theorem qmdl_files_headed_late_header :
    let table : DiagidGuid := ⟨List.replicate 16 ⟨0, ⟨List.replicate 30 0, rfl⟩, ⟨List.replicate 16 0, rfl⟩⟩, rfl⟩
    let s := [.openFile 3, .save [9], .complete, .save [1, 2]].foldl qmdlStep (qmdlStart [] table)
    s.files.map QmdlFile.content = [[14, 0, 0, 0, 2, 1, 0, 0, 0, 0, 0, 0, 0, 0, 1, 2]] ∧
      ∃ f ∈ s.files, ∃ header, header.length = 14 ∧ header <+: s.qshrink4.data.bytes ∧
        f.content = header ++ [1, 2] := by
  intro table s
  have hs : s = [.openFile 3, .save [9], .complete, .save [1, 2]].foldl qmdlStep (qmdlStart [] table) := rfl
  have hcontent : s.files.map QmdlFile.content = [[14, 0, 0, 0, 2, 1, 0, 0, 0, 0, 0, 0, 0, 0, 1, 2]] := by
    decide +kernel
  have hopen : s.current.map QmdlFile.savedAfter = some [[1, 2]] := by decide +kernel
  have hlength : s.qshrink4.data.headerLength = 14 := by decide +kernel
  have hall := qmdl_files_headed [] table [.openFile 3, .save [9], .complete, .save [1, 2]]
  dsimp only at hall
  rw [← hs] at hall
  -- from here on the steps do not matter
  clear_value s
  obtain ⟨f, hf, hsaved⟩ := Option.map_eq_some_iff.mp hopen
  have hmem : f ∈ s.files := List.mem_append_right _ (Option.mem_toList.mpr hf)
  rcases hall f hmem with hblank | ⟨-, header, hlen, -, hfront, hheaded⟩
  · rw [hsaved] at hblank
    exact absurd hblank.2 (List.cons_ne_nil _ _)
  · rw [hsaved, List.flatten_singleton] at hheaded
    exact ⟨hcontent, f, hmem, header, hlen.trans hlength, hfront, hheaded⟩

end QLog
