import QLog.Library.Transducer
import QLog.Qmdl.LogFile

/-! # Consecutive capture sessions

The process captures session after session. A session begins with a check for an abnormal end of the one before,
which resets the globals of the filter thread; then `prepare` sets the flags for the device, and the filter thread
clears `qshrink4_data` and builds the header anew, unless `qshrink4_init` says that this was done before.

The check looks at the flags of the *previous* session and is made for an abnormal end only. A session that ends
in another way, or without the flags, leaves `qshrink4_init` set, and a later session then stays without a
header: every save is discarded. -/

namespace QLog

open Library

/-- The globals that live through all sessions. -/
structure Globals where
  qlogAbnormalExit : Bool
  useDiagQdss : Bool
  useQmdl2V2 : Bool
  qshrink4Init : Bool
  diagIdTable : List DiagIdList
  qshrink4 : Qshrink4

/-- The globals when the process starts. -/
def globalsStart : Globals where
  qlogAbnormalExit := false
  useDiagQdss := false
  useQmdl2V2 := false
  qshrink4Init := false
  diagIdTable := []
  qshrink4 := ⟨qshrink4Zero, ⟨List.replicate maxGuidEntries
    ⟨0, ⟨List.replicate 30 0, rfl⟩, ⟨List.replicate 16 0, rfl⟩⟩, rfl⟩⟩

/-- `diag_id_entry_struct`, an entry of the answer to the query for diag ids. -/
structure DiagIdEntry where
  diagId : UInt8
  processName : List UInt8

/-- What the filter thread receives in `mdm_create_qshrink4_file`. -/
structure CreateEnv where
  entries : List DiagIdEntry
  rsps : List (UInt8 × DiagQsrFileListRsp)

/-- How far the filter thread gets in a session. It may be cancelled at any point, and `mdm_init_filter` returns
early for the configuration "dump" and without memory for the deframer. -/
inductive FilterProgress
  /-- not to `mdm_init_filter`: another chip, a dump, or cancelled at once -/
  | none
  /-- not to `mdm_create_qshrink4_file` -/
  | cleared
  /-- into it, but not to `mdm_add_qshrink4_header` -/
  | cancelled (env : CreateEnv)
  /-- past it -/
  | passed (env : CreateEnv)

/-- A session: the device, the filter thread, and how it ended. -/
structure Session where
  /-- `idProduct` is one of those with qmdl2 version 2 -/
  v2Product : Bool
  /-- the general interface is there and of type `MDM_QDSS` -/
  qdss : Bool
  filter : FilterProgress
  /-- the read loop ended with `qlog_abnormal_exit = 1` -/
  abnormal : Bool

/-! ## The functions of a session -/

/-- `NUM_PROC` -/
def numProc : Nat := 10

/-- `diag_query_pd`, as the byte it is stored in: `DIAG_APPS_PROC`, `DIAG_MODEM_PROC` or `-EINVAL`. -/
def diagQueryPd (name : Block 30) : UInt8 :=
  if diagQueryPdName name [0x41, 0x50, 0x50, 0x53] then 7
  else if diagQueryPdName name [0x41, 0x70, 0x70, 0x73] then 7
  else if diagQueryPdName name
      [0x6D, 0x6F, 0x64, 0x65, 0x6D, 0x2F, 0x72, 0x6F, 0x6F, 0x74, 0x5F, 0x70, 0x64] then 0
  else 234

/-- `insert_diag_id_entry`; `diag_id_count` is the length of the table. -/
def insertDiagIdEntry (table : List DiagIdList) (entry : DiagIdEntry) : List DiagIdList :=
  if numProc ≤ table.length then table
  else table ++ [⟨entry.diagId, diagQueryPd (strncpy30 entry.processName), strncpy30 entry.processName⟩]

/-- `mdm_create_qshrink4_file`, to its end or not. -/
def mdmCreateQshrink4File (g : Globals) (env : CreateEnv) (toEnd : Bool) : Globals :=
  if g.qshrink4Init then g
  else if g.useQmdl2V2 = true ∧ g.diagIdTable.length = 0 then
    let table := env.entries.foldl insertDiagIdEntry g.diagIdTable
    let q := env.rsps.foldl (processQsr4DbFileListResponse table) g.qshrink4
    { g with
      qshrink4Init := true
      diagIdTable := table
      qshrink4 := if toEnd then mdmAddQshrink4Header q else q }
  else { g with qshrink4Init := true }

/-- The `memset` at the start of `mdm_init_filter`. -/
def Globals.clearData (g : Globals) : Globals := { g with qshrink4 := ⟨qshrink4Zero, g.qshrink4.diagidGuid⟩ }

/-- `mdm_init_filter`, as far as it gets. -/
def mdmInitFilter (g : Globals) : FilterProgress → Globals
  | .none => g
  | .cleared => g.clearData
  | .cancelled env => mdmCreateQshrink4File g.clearData env false
  | .passed env => mdmCreateQshrink4File g.clearData env true

/-- `mdm_reset_global_variables` -/
def mdmResetGlobalVariables (g : Globals) : Globals := { g with diagIdTable := [], qshrink4Init := false }

/-- Lines 2130-2139 of `main.c`. -/
def resetAfterAbnormalExit (g : Globals) : Globals :=
  if g.qlogAbnormalExit = true ∧ g.useDiagQdss = true then
    mdmResetGlobalVariables { g with qlogAbnormalExit := false }
  else if g.qlogAbnormalExit = true ∧ g.useQmdl2V2 = true then
    mdmResetGlobalVariables { g with qlogAbnormalExit := false }
  else g

/-- `prepare`, as far as it sets the two flags. -/
def prepare (g : Globals) (s : Session) : Globals :=
  { g with useQmdl2V2 := s.v2Product || s.qdss, useDiagQdss := s.qdss }

/-- What is seen of a session: its flag, whether the filter thread passed `mdm_create_qshrink4_file`, and
`header_length` from then on. -/
structure SessionSeen where
  useQmdl2V2 : Bool
  passed : Bool
  headerLength : Nat

/-- The filter thread passes `mdm_create_qshrink4_file`. -/
def FilterProgress.isPassed : FilterProgress → Bool
  | .passed _ => true
  | _ => false

/-- One session. -/
def runSession (g : Globals) (s : Session) : Globals × List SessionSeen :=
  let g := mdmInitFilter (prepare (resetAfterAbnormalExit g) s) s.filter
  ({ g with qlogAbnormalExit := g.qlogAbnormalExit || s.abnormal },
    [⟨g.useQmdl2V2, s.filter.isPassed, g.qshrink4.data.headerLength⟩])

/-! ## When a session has a header -/

/-- A session does not discard all of its data: with the flag set, the header is there once the filter thread has
passed `mdm_create_qshrink4_file`. -/
def SessionSeen.Captures (o : SessionSeen) : Prop :=
  o.useQmdl2V2 = true → o.passed = true → o.headerLength ≠ 0

/-- A session with the flag that will pass `mdm_create_qshrink4_file` finds `qshrink4_init` cleared, or about to be
cleared by the check for an abnormal exit. -/
def StartsReady (g : Globals) (s : Session) : Prop :=
  (s.v2Product || s.qdss) = true → s.filter.isPassed = true →
    g.qshrink4Init = false ∨
      g.qlogAbnormalExit = true ∧ (g.useDiagQdss = true ∨ g.useQmdl2V2 = true)

/-- Diag ids are known only where `mdm_create_qshrink4_file` was entered. -/
def Globals.IdsOnlyAfterInit (g : Globals) : Prop := g.qshrink4Init = false → g.diagIdTable = []

theorem idsOnlyAfterInit_reset {g : Globals} (h : g.IdsOnlyAfterInit) :
    (resetAfterAbnormalExit g).IdsOnlyAfterInit := by
  unfold resetAfterAbnormalExit
  split_ifs
  · exact fun _ => rfl
  · exact fun _ => rfl
  · exact h

theorem idsOnlyAfterInit_create {g : Globals} (h : g.IdsOnlyAfterInit) (env : CreateEnv) (toEnd : Bool) :
    (mdmCreateQshrink4File g env toEnd).IdsOnlyAfterInit := by
  unfold mdmCreateQshrink4File
  split
  · exact h
  · split
    · exact fun hinit => absurd hinit.symm Bool.false_ne_true
    · exact fun hinit => absurd hinit.symm Bool.false_ne_true

theorem idsOnlyAfterInit_runSession (g : Globals) (s : Session) (h : g.IdsOnlyAfterInit) :
    (runSession g s).1.IdsOnlyAfterInit := by
  have hprep : (prepare (resetAfterAbnormalExit g) s).IdsOnlyAfterInit := idsOnlyAfterInit_reset h
  have hclear : (prepare (resetAfterAbnormalExit g) s).clearData.IdsOnlyAfterInit := hprep
  show (mdmInitFilter (prepare (resetAfterAbnormalExit g) s) s.filter).IdsOnlyAfterInit
  cases s.filter with
  | none => exact hprep
  | cleared => exact hprep
  | cancelled env => exact idsOnlyAfterInit_create hclear env false
  | passed env => exact idsOnlyAfterInit_create hclear env true

/-- The check clears `qshrink4_init` where it finds an abnormal exit of a session with a flag. -/
theorem reset_qshrink4Init (g : Globals) :
    (resetAfterAbnormalExit g).qshrink4Init = false
      ↔ g.qshrink4Init = false ∨
        g.qlogAbnormalExit = true ∧ (g.useDiagQdss = true ∨ g.useQmdl2V2 = true) := by
  unfold resetAfterAbnormalExit
  split_ifs with hqdss hv2
  · exact iff_of_true rfl (Or.inr ⟨hqdss.1, Or.inl hqdss.2⟩)
  · exact iff_of_true rfl (Or.inr ⟨hv2.1, Or.inr hv2.2⟩)
  · refine ⟨Or.inl, ?_⟩
    rintro (hinit | ⟨hexit, hflag | hflag⟩)
    · exact hinit
    · exact absurd ⟨hexit, hflag⟩ hqdss
    · exact absurd ⟨hexit, hflag⟩ hv2

/-- With the flag, the header is built exactly where `qshrink4_init` is clear. -/
theorem create_headerLength {g : Globals} (h : g.IdsOnlyAfterInit) (hv2 : g.useQmdl2V2 = true)
    (env : CreateEnv) :
    (mdmCreateQshrink4File g.clearData env true).qshrink4.data.headerLength ≠ 0
      ↔ g.qshrink4Init = false := by
  by_cases hinit : g.qshrink4Init = true
  · -- the data was cleared, and nothing fills it again
    have hsame : mdmCreateQshrink4File g.clearData env true = g.clearData := if_pos hinit
    rw [hsame, hinit]
    exact iff_of_false (fun hne => hne rfl) (by decide)
  · have hclear : g.qshrink4Init = false := Bool.eq_false_iff.mpr hinit
    have hids : g.clearData.useQmdl2V2 = true ∧ g.clearData.diagIdTable.length = 0 := by
      refine ⟨hv2, ?_⟩
      show g.diagIdTable.length = 0
      rw [h hclear]
      rfl
    rw [mdmCreateQshrink4File, if_neg (show ¬ g.clearData.qshrink4Init = true from hinit), if_pos hids]
    exact iff_of_true (hasHeader_addHeader _) hclear

theorem create_useQmdl2V2 (g : Globals) (env : CreateEnv) (toEnd : Bool) :
    (mdmCreateQshrink4File g env toEnd).useQmdl2V2 = g.useQmdl2V2 := by
  unfold mdmCreateQshrink4File
  split
  · rfl
  · split <;> rfl

theorem FilterProgress.exists_env {f : FilterProgress} (h : f.isPassed = true) : ∃ env, f = .passed env := by
  cases f with
  | passed env => exact ⟨env, rfl⟩
  | none | cleared | cancelled => exact absurd h Bool.false_ne_true

/-- One session captures exactly where it starts ready. -/
theorem runSession_captures_iff {g : Globals} (h : g.IdsOnlyAfterInit) (s : Session) :
    (∀ o ∈ (runSession g s).2, o.Captures) ↔ StartsReady g s := by
  rw [runSession, List.forall_mem_singleton, SessionSeen.Captures, StartsReady]
  by_cases hpassed : s.filter.isPassed = true
  · obtain ⟨env, hfilter⟩ := FilterProgress.exists_env hpassed
    have hprep : (prepare (resetAfterAbnormalExit g) s).IdsOnlyAfterInit := idsOnlyAfterInit_reset h
    -- nothing behind `prepare` changes the flag of the session
    have hflag : (mdmInitFilter (prepare (resetAfterAbnormalExit g) s) (.passed env)).useQmdl2V2
        = (s.v2Product || s.qdss) := create_useQmdl2V2 _ env true
    simp only [hfilter, hflag]
    refine imp_congr_right fun hv2 => imp_congr_right fun _ => ?_
    rw [← reset_qshrink4Init]
    exact create_headerLength hprep hv2 env
  · -- nothing is promised where the filter thread does not get past it
    exact iff_of_true (fun _ hp => absurd hp hpassed) fun _ hp => absurd hp hpassed

/-- In every run, every session captures exactly where every session starts ready. -/
theorem runSteps_captures_iff {g : Globals} (h : g.IdsOnlyAfterInit) (sessions : List Session) :
    (∀ o ∈ (runSteps runSession g sessions).2, o.Captures) ↔ Along runSession StartsReady g sessions := by
  induction sessions generalizing g with
  | nil => exact iff_of_true (fun o ho => absurd ho List.not_mem_nil) trivial
  | cons s sessions ih =>
      -- the invariant on the diag ids carries over to the globals the session leaves
      rw [runSteps_cons, prepend_snd, List.forall_mem_append, Along, runSession_captures_iff h,
        ih (idsOnlyAfterInit_runSession g s h)]

/-- **A run of sessions never discards all data of a qmdl2 session exactly where each such session starts ready**:
`qshrink4_init` is clear before it, or the session before ended abnormally with one of its two flags set. -/
theorem qmdl_sessions_capture_iff (sessions : List Session) :
    (∀ o ∈ (runSteps runSession globalsStart sessions).2, o.Captures)
      ↔ Along runSession StartsReady globalsStart sessions :=
  runSteps_captures_iff (fun _ => rfl) sessions

/-- A session with a device of version 2 whose filter thread gets no answers and that ends because the next log
file cannot be created. -/
def createFailed : Session := ⟨true, false, .passed ⟨[], []⟩, false⟩

/-- The second of two such sessions has no header. -/
theorem second_session_mute :
    ¬ ∀ o ∈ (runSteps runSession globalsStart [createFailed, createFailed]).2, o.Captures := by
  intro h
  have hmem : (⟨true, true, 0⟩ : SessionSeen)
      ∈ (runSteps runSession globalsStart [createFailed, createFailed]).2 :=
    List.mem_cons_of_mem _ List.mem_cons_self
  exact h _ hmem rfl rfl rfl

end QLog
