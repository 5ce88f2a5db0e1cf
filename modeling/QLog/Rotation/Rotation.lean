import QLog.Rotation.FileNames
import Mathlib.Logic.Function.Basic

/-! # Keeping the last logs

The short names of the last `s_logfile_num` logs stand in a table, each in the slot of its sequence number. Before
a new log is created, the files of the log whose slot it takes are removed, unless the slot has been emptied: that
is how the dump path keeps the log it interrupts.

The name of a third file ends with the version of its time. The removal looks for the version of now and, only
where there is no such file, for the other one. -/

namespace QLog.Rotation

open Library

/-- The files of the directory, and the variables. -/
structure LogDir where
  files : List Name
  /-- `s_logfile_List` -/
  list : Nat → Name
  /-- `s_logfile_seq` -/
  seq : Nat
  /-- `s_logfile_idx` -/
  idx : Nat

/-- `if (access(filename, R_OK) == 0) remove(filename)` -/
def removeFile (files : List Name) (name : Name) : List Name :=
  if name ∈ files then files.filter (· ≠ name) else files

/-- The removal of an old third file. -/
def removeThird (cfg : LogConfig) (short suffix : Name) (dplVersion : Nat) (files : List Name) : List Name :=
  if cfg.readNmeaLog then removeFile files (oldName cfg short suffix)
  else
    let name := oldName cfg short (suffix ++ fmtD 1 dplVersion)
    if name ∈ files then files.filter (· ≠ name)
    -- the log may be of the time of the other version
    else if dplVersion = 4 then removeFile files (oldName cfg short (suffix ++ fmtD 1 5))
    else if dplVersion = 5 then removeFile files (oldName cfg short (suffix ++ fmtD 1 4))
    else files

/-- The removal of the old files with the short name `short`. -/
def deleteOld (cfg : LogConfig) (short : Name) (dplVersion : Nat) (files : List Name) : List Name :=
  let files := removeFile files (mainName cfg short)
  let files :=
    match cfg.secondLogfileSuffix with
    | none => files
    | some suffix => removeFile files (oldName cfg short suffix)
  match cfg.thirdLogfileSuffix with
  | none => files
  | some suffix => removeThird cfg short suffix dplVersion files

/-- `qlog_logfile_create_fullname`, where an existing file is only truncated. -/
def createFile (files : List Name) (name : Name) : List Name :=
  if name ∈ files then files else name :: files

/-- The creation of the files with the short name `short`. -/
def createNew (cfg : LogConfig) (short : Name) (dplVersion : Nat) (files : List Name) : List Name :=
  let files := createFile files (mainName cfg short)
  let files :=
    match cfg.secondLogfileSuffix with
    | none => files
    | some suffix => createFile files (newName cfg short suffix [])
  match cfg.thirdLogfileSuffix with
  | none => files
  | some suffix =>
      createFile files (newName cfg short suffix (if cfg.readNmeaLog then [] else fmtD 1 dplVersion))

/-- `qlog_logfile_create` -/
def qlogLogfileCreate (cfg : LogConfig) (c : Creation) (s : LogDir) : LogDir :=
  let slot := s.seq % cfg.logfileNum
  -- the slot still holds the short name of the log `s_logfile_num` before
  let files :=
    if cfg.logfileNum ≠ 0 ∧ s.list slot ≠ [] then deleteOld cfg (s.list slot) c.dplVersion s.files else s.files
  let short := shortname c s.seq
  let files := createNew cfg short c.dplVersion files
  if cfg.logfileNum ≠ 0 then
    { s with files := files, idx := slot, list := Function.update s.list slot (short.take 98) }
  else { s with files := files }

/-- What happens to the rotation. -/
inductive RotationEvent
  /-- The capture loop creates a log, of whatever session it is. -/
  | create (c : Creation)
  /-- The dump path keeps the current log. -/
  | pin

def rotationStep (cfg : LogConfig) (s : LogDir) : RotationEvent → LogDir
  | .create c =>
      -- the caller counts: `s_logfile_seq++`
      let s := qlogLogfileCreate cfg c s
      { s with seq := (s.seq + 1) % 2 ^ 32 }
  -- an empty name is not removed later
  | .pin => { s with list := Function.update s.list s.idx [] }

/-- The variables at the start, with the files the directory already has. -/
def rotationStart (files : List Name) : LogDir where
  files := files
  list := fun _ => []
  seq := 0
  idx := 0

def rotationRun (cfg : LogConfig) (files : List Name) (events : List RotationEvent) : LogDir :=
  events.foldl (rotationStep cfg) (rotationStart files)

/-! ## The logs of a run -/

/-- A log of a run, and whether it has been kept as the current one. -/
structure Made where
  creation : Creation
  pinned : Bool

/-- The logs of a run, by their sequence numbers. -/
def madeStep (made : List Made) : RotationEvent → List Made
  | .create c => made ++ [⟨c, false⟩]
  | .pin => made.modify (made.length - 1) fun m => { m with pinned := true }

def madeLogs (events : List RotationEvent) : List Made := events.foldl madeStep []

/-- The creations of a run. -/
def creations (events : List RotationEvent) : List Creation :=
  events.filterMap fun
    | .create c => some c
    | .pin => none

/-- The log `seq` is one of the last `s_logfile_num`, or pinned. -/
def Kept (cfg : LogConfig) (made : List Made) (seq : Nat) (m : Made) : Prop :=
  made[seq]? = some m ∧ (made.length ≤ seq + cfg.logfileNum ∨ m.pinned = true)

/-- The file is one of the log files of the run. -/
def OfRun (cfg : LogConfig) (made : List Made) (f : Name) : Prop :=
  ∃ seq m, made[seq]? = some m ∧ f ∈ filesOf cfg m.creation seq

/-- The files that should be there: those of the logs that are kept, and those that were there and are of no log. -/
def ShouldExist (cfg : LogConfig) (files : List Name) (made : List Made) (f : Name) : Prop :=
  (∃ seq m, Kept cfg made seq m ∧ f ∈ filesOf cfg m.creation seq) ∨ f ∈ files ∧ ¬ OfRun cfg made f

/-- The names of a log's third file with the version it does not have. -/
def otherVersions (cfg : LogConfig) (c : Creation) (seq : Nat) : List Name :=
  if cfg.readNmeaLog then []
  else cfg.thirdLogfileSuffix.toList.map fun suffix =>
    oldName cfg (shortname c seq) (suffix ++ fmtD 1 (9 - c.dplVersion : Nat))

/-- No file of the directory has the name of a third file of the run but for the version. -/
def NoOtherVersion (cfg : LogConfig) (files : List Name) (events : List RotationEvent) : Prop :=
  ∀ seq c, (creations events)[seq]? = some c → ∀ f ∈ otherVersions cfg c seq, f ∉ files

/-! ## Files -/

@[simp] theorem mem_removeFile {files : List Name} {name f : Name} :
    f ∈ removeFile files name ↔ f ∈ files ∧ f ≠ name := by
  rw [removeFile]
  split
  · simp
  · next habsent =>
      constructor
      · intro hf
        refine ⟨hf, ?_⟩
        rintro rfl
        exact habsent hf
      · exact And.left

@[simp] theorem mem_createFile {files : List Name} {name f : Name} :
    f ∈ createFile files name ↔ f ∈ files ∨ f = name := by
  rw [createFile]
  split
  · next hpresent =>
      constructor
      · exact Or.inl
      · rintro (hf | rfl)
        · exact hf
        · exact hpresent
  · rw [List.mem_cons, or_comm]

section Files

variable {cfg : LogConfig} {c : Creation} {seq : Nat} {files : List Name} {f : Name}

theorem length_suffixes (hcfg : cfg.Valid) :
    (∀ suffix ∈ cfg.secondLogfileSuffix, suffix.length ≤ 12) ∧
      ∀ suffix ∈ cfg.thirdLogfileSuffix, suffix.length ≤ 12 := by
  have hsecond : ∀ second ∈ secondLogfileSuffixes, ∀ suffix ∈ second, suffix.length ≤ 12 := by decide
  have hthird : ∀ third ∈ thirdLogfileSuffixes, ∀ suffix ∈ third, suffix.length ≤ 12 := by decide
  exact ⟨hsecond _ hcfg.second, hthird _ hcfg.third⟩

/-- A new file has the name under which it is looked for later. -/
theorem newName_eq (hcfg : cfg.Valid) (hseq : seq < 2 ^ 32) {suffix version : Name} (hsuffix : suffix.length ≤ 12)
    (hversion : version.length ≤ 1) :
    newName cfg (shortname c seq) suffix version = oldName cfg (shortname c seq) (suffix ++ version) := by
  obtain ⟨-, -, -, -, hshort⟩ := shortname_eq c hseq
  have hdir := hcfg.length_dir
  rw [newName, List.take_of_length_le hdir, List.take_of_length_le hshort, List.take_of_length_le hsuffix]
  refine List.take_of_length_le ?_
  simp only [List.length_append, List.length_cons]
  omega

/-- A new log has its files. -/
theorem mem_createNew (hcfg : cfg.Valid) (hseq : seq < 2 ^ 32)
    (hdpl : c.dplVersion = 4 ∨ c.dplVersion = 5) :
    f ∈ createNew cfg (shortname c seq) c.dplVersion files ↔ f ∈ files ∨ f ∈ filesOf cfg c seq := by
  obtain ⟨hsecond, hthird⟩ := length_suffixes hcfg
  have hversion : (if cfg.readNmeaLog then [] else fmtD 1 (c.dplVersion : Nat)).length ≤ 1 := by
    split
    · decide
    · rcases hdpl with h | h <;> rw [h] <;> decide
  have hthirdName : ∀ suffix ∈ cfg.thirdLogfileSuffix,
      newName cfg (shortname c seq) suffix (if cfg.readNmeaLog then [] else fmtD 1 (c.dplVersion : Nat)) =
        oldName cfg (shortname c seq) (if cfg.readNmeaLog then suffix else suffix ++ fmtD 1 c.dplVersion) := by
    intro suffix hsuffix
    rw [newName_eq hcfg hseq (hthird suffix hsuffix) hversion]
    split <;> simp
  have hsecondName : ∀ suffix ∈ cfg.secondLogfileSuffix,
      newName cfg (shortname c seq) suffix [] = oldName cfg (shortname c seq) suffix := by
    intro suffix hsuffix
    rw [newName_eq hcfg hseq (hsecond suffix hsuffix) (by decide), List.append_nil]
  have hmain : mainName cfg (shortname c seq) = oldName cfg (shortname c seq) ('.' :: cfg.logfileSuffix) := rfl
  rw [createNew, filesOf, tails, hmain]
  cases hs : cfg.secondLogfileSuffix with
  | none =>
      cases ht : cfg.thirdLogfileSuffix with
      | none => simp
      | some third => simp [hthirdName third ht, or_assoc]
  | some second =>
      cases ht : cfg.thirdLogfileSuffix with
      | none => simp [hsecondName second hs, or_assoc]
      | some third => simp [hsecondName second hs, hthirdName third ht, or_assoc]

/-- The third file of an old log is found whatever the version is now. -/
theorem mem_removeThird {suffix : Name} {dplVersion : Nat} (hdpl : c.dplVersion = 4 ∨ c.dplVersion = 5)
    (hnow : dplVersion = 4 ∨ dplVersion = 5) (hsuffix : cfg.thirdLogfileSuffix = some suffix)
    (hother : ∀ f ∈ otherVersions cfg c seq, f ∉ files) :
    f ∈ removeThird cfg (shortname c seq) suffix dplVersion files ↔
      f ∈ files ∧
        f ≠ oldName cfg (shortname c seq) (if cfg.readNmeaLog then suffix else suffix ++ fmtD 1 c.dplVersion) := by
  rw [removeThird]
  split
  · exact mem_removeFile
  · next hnmea =>
      -- the file of this log, and the one it would have with the other version
      set own := oldName cfg (shortname c seq) (suffix ++ fmtD 1 (c.dplVersion : Nat)) with hown
      set other := oldName cfg (shortname c seq) (suffix ++ fmtD 1 (9 - c.dplVersion : Nat)) with hotherName
      have habsent : other ∉ files := by
        refine hother other ?_
        rw [otherVersions, if_neg hnmea, hsuffix]
        exact List.mem_singleton_self _
      have hcurrent : f ∈ (if own ∈ files then files.filter (· ≠ own) else removeFile files other) ↔
          f ∈ files ∧ f ≠ own := by
        split
        · simp
        · next howned =>
            rw [mem_removeFile]
            constructor
            · rintro ⟨hf, -⟩
              exact ⟨hf, fun h => howned (h ▸ hf)⟩
            · rintro ⟨hf, -⟩
              exact ⟨hf, fun h => habsent (h ▸ hf)⟩
      have hchanged : f ∈ (if other ∈ files then files.filter (· ≠ other) else removeFile files own) ↔
          f ∈ files ∧ f ≠ own := by
        rw [if_neg habsent, mem_removeFile]
      -- whichever version is looked for first, it is `own` that goes
      rcases hdpl with hc | hc <;> rw [hc] at hown hotherName <;> rcases hnow with rfl | rfl
      · rw [hown, hotherName] at hcurrent
        rw [hown]
        exact hcurrent
      · rw [hown, hotherName] at hchanged
        rw [hown]
        exact hchanged
      · rw [hown, hotherName] at hchanged
        rw [hown]
        exact hchanged
      · rw [hown, hotherName] at hcurrent
        rw [hown]
        exact hcurrent

/-- The removal of an old log removes its files. -/
theorem mem_deleteOld {dplVersion : Nat} (hdpl : c.dplVersion = 4 ∨ c.dplVersion = 5)
    (hnow : dplVersion = 4 ∨ dplVersion = 5) (hother : ∀ f ∈ otherVersions cfg c seq, f ∉ files) :
    f ∈ deleteOld cfg (shortname c seq) dplVersion files ↔ f ∈ files ∧ f ∉ filesOf cfg c seq := by
  have hmain : mainName cfg (shortname c seq) = oldName cfg (shortname c seq) ('.' :: cfg.logfileSuffix) := rfl
  have hthird : ∀ third ∈ cfg.thirdLogfileSuffix, ∀ files' : List Name, (∀ f ∈ files', f ∈ files) →
      (f ∈ removeThird cfg (shortname c seq) third dplVersion files' ↔ f ∈ files' ∧ f ≠ oldName cfg (shortname c seq)
        (if cfg.readNmeaLog then third else third ++ fmtD 1 c.dplVersion)) := by
    intro third hthird files' hsub
    exact mem_removeThird hdpl hnow hthird fun f hf hmem => hother f hf (hsub f hmem)
  have hsub : ∀ (names files' : List Name) name, files' = removeFile names name → ∀ f ∈ files', f ∈ names := by
    rintro names files' name rfl f hf
    exact (mem_removeFile.mp hf).1
  rw [deleteOld, filesOf, tails, hmain]
  cases hs : cfg.secondLogfileSuffix with
  | none =>
      cases ht : cfg.thirdLogfileSuffix with
      | none => simp
      | some third =>
          dsimp only
          rw [hthird third ht _ (hsub _ _ _ rfl)]
          simp [and_assoc]
  | some second =>
      cases ht : cfg.thirdLogfileSuffix with
      | none => simp [and_assoc]
      | some third =>
          dsimp only
          rw [hthird third ht _ fun f hf => hsub _ _ _ rfl f (hsub _ _ _ rfl f hf)]
          simp [and_assoc]

end Files

/-! ## Runs -/

/-- The creations of a run that does not exceed the sequence numbers, with the versions there are, in a directory
without confusing files. -/
structure CreationsOk (cfg : LogConfig) (files : List Name) (cs : List Creation) : Prop where
  length_le : cs.length ≤ 2 ^ 32
  versions : ∀ c ∈ cs, c.dplVersion = 4 ∨ c.dplVersion = 5
  noOther : ∀ seq c, cs[seq]? = some c → ∀ f ∈ otherVersions cfg c seq, f ∉ files

/-- After the creations `made`: the counters follow their number, a slot of `file_list` holds the name of the last
unpinned file that came to it, and the files are those that should exist. -/
structure RotationInv (cfg : LogConfig) (files : List Name) (made : List Made) (s : LogDir) : Prop where
  seq : s.seq = made.length % 2 ^ 32
  idx : s.idx = (made.length - 1) % cfg.logfileNum
  slot : ∀ k m, made[k]? = some m → made.length ≤ k + cfg.logfileNum →
    s.list (k % cfg.logfileNum) = if m.pinned then [] else shortname m.creation k
  unused : ∀ j, made.length ≤ j → j < cfg.logfileNum → s.list j = []
  files : ∀ f, f ∈ s.files ↔ ShouldExist cfg files made f

/-- Two numbers in a window of `n` have different slots. -/
theorem eq_of_mod_eq {a b n : Nat} (hle : a ≤ b) (hlt : b < a + n) (h : a % n = b % n) : a = b := by
  have hmod : (b - a) % n = 0 := Nat.sub_mod_eq_zero_of_mod_eq h.symm
  rw [Nat.mod_eq_of_lt (by omega)] at hmod
  omega

section Runs

variable {cfg : LogConfig} {files : List Name} {made : List Made} {s : LogDir}

theorem rotationInv_start : RotationInv cfg files [] (rotationStart files) := by
  refine ⟨rfl, ?_, ?_, fun j _ _ => rfl, ?_⟩
  · rw [List.length_nil, Nat.zero_sub, Nat.zero_mod]
    rfl
  · intro k m hm
    cases hm
  · intro f
    constructor
    · intro hf
      refine Or.inr ⟨hf, ?_⟩
      rintro ⟨seq, m, hm, -⟩
      cases hm
    · rintro (⟨seq, m, hm, -⟩ | ⟨hf, -⟩)
      · cases hm.1
      · exact hf

/-- A file belongs to one log only. -/
theorem filesOf_inj (hcfg : cfg.Valid) {c c' : Creation} {seq seq' : Nat} {f : Name} (hseq : seq < 2 ^ 32)
    (hseq' : seq' < 2 ^ 32) (hdpl : c.dplVersion = 4 ∨ c.dplVersion = 5)
    (hdpl' : c'.dplVersion = 4 ∨ c'.dplVersion = 5) (hf : f ∈ filesOf cfg c seq) (hf' : f ∈ filesOf cfg c' seq') :
    seq = seq' := by
  obtain ⟨tail, htail, rfl⟩ := List.mem_map.mp hf
  obtain ⟨tail', htail', heq⟩ := List.mem_map.mp hf'
  exact (seq_inj hseq hseq' (tailOk_of_mem_tails hcfg hdpl tail htail)
    (tailOk_of_mem_tails hcfg hdpl' tail' htail') heq.symm).1

theorem otherVersion_not_mem_tails (hcfg : cfg.Valid) {suffix : Name} (hsuffix : cfg.thirdLogfileSuffix = some suffix)
    (hnmea : ¬ cfg.readNmeaLog = true) {dplVersion : Nat} (hdpl : dplVersion = 4 ∨ dplVersion = 5) :
    suffix ++ fmtD 1 (9 - dplVersion : Nat) ∉ tails cfg dplVersion ∧
      TailOk (suffix ++ fmtD 1 (9 - dplVersion : Nat)) := by
  obtain ⟨num, dir, main, second, third, nmea⟩ := cfg
  have hall : ∀ main ∈ logfileSuffixes, ∀ second ∈ secondLogfileSuffixes, ∀ third ∈ thirdLogfileSuffixes,
      ∀ suffix ∈ third, ∀ version ∈ [4, 5], suffix ++ fmtD 1 (9 - version : Nat) ∉
        tails ⟨1, [], main, second, third, false⟩ version ∧ TailOk (suffix ++ fmtD 1 (9 - version : Nat)) := by
    decide
  obtain rfl : nmea = false := by simpa using hnmea
  exact hall main hcfg.suffix second hcfg.second third hcfg.third suffix hsuffix dplVersion (by simpa using hdpl)

/-- What is known of the creation of a log. -/
theorem CreationsOk.of_made (hok : CreationsOk cfg files (made.map Made.creation)) {k : Nat} {m : Made}
    (hm : made[k]? = some m) : (made.map Made.creation)[k]? = some m.creation ∧ k < 2 ^ 32 ∧
      (m.creation.dplVersion = 4 ∨ m.creation.dplVersion = 5) := by
  have hlen := hok.length_le
  have hlt := (List.getElem?_eq_some_iff.mp hm).1
  rw [List.length_map] at hlen
  exact ⟨by rw [List.getElem?_map, hm]; rfl, by omega,
    hok.versions _ (List.mem_map_of_mem (List.mem_of_getElem? hm))⟩

/-- The third file of a log that is kept is not there under the other version. -/
theorem other_not_mem (hcfg : cfg.Valid) (hok : CreationsOk cfg files (made.map Made.creation))
    (hinv : RotationInv cfg files made s) {seq : Nat} {m : Made} (hm : made[seq]? = some m) :
    ∀ f ∈ otherVersions cfg m.creation seq, f ∉ s.files := by
  obtain ⟨hmade, hseq, hdpl⟩ := hok.of_made hm
  intro f hf hmem
  rcases (hinv.files f).mp hmem with ⟨k, m', hkept, hf'⟩ | ⟨hold, -⟩
  · obtain ⟨-, hk, hdpl'⟩ := hok.of_made hkept.1
    rw [otherVersions] at hf
    split at hf
    · cases hf
    · next hnmea =>
        obtain ⟨suffix, hsuffix, rfl⟩ := List.mem_map.mp hf
        obtain ⟨hnot, hok'⟩ := otherVersion_not_mem_tails hcfg (Option.mem_toList.mp hsuffix) hnmea hdpl
        obtain ⟨tail, htail, heq⟩ := List.mem_map.mp hf'
        obtain ⟨rfl, rfl⟩ := seq_inj hk hseq (tailOk_of_mem_tails hcfg hdpl' tail htail) hok' heq
        have hsame : m = m' := Option.some.inj (hm.symm.trans hkept.1)
        rw [← hsame] at htail
        exact hnot htail
  · exact hok.noOther seq m.creation hmade f hf hold

/-- The log that has to go when the next one is created. -/
def Expired (cfg : LogConfig) (made : List Made) (seq : Nat) (m : Made) : Prop :=
  made[seq]? = some m ∧ seq + cfg.logfileNum = made.length ∧ m.pinned = false

/-- The slot of a creation is that of the log that expires with it. -/
theorem forall_expired_iff {k : Nat} {m : Made} (hm : made[k]? = some m) (hk : k + cfg.logfileNum = made.length)
    {p : Nat → Made → Prop} : (∀ seq m', Expired cfg made seq m' → p seq m') ↔ (m.pinned = false → p k m) := by
  constructor
  · intro h hunpinned
    exact h k m ⟨hm, hk, hunpinned⟩
  · rintro h seq m' ⟨hm', hexp, hunpinned⟩
    obtain rfl : seq = k := by omega
    rw [hm, Option.some.injEq] at hm'
    subst hm'
    exact h hunpinned

/-- What is left of the directory after the removal. -/
theorem mem_afterRemoval (hcfg : cfg.Valid) (hok : CreationsOk cfg files (made.map Made.creation))
    (hlen : made.length < 2 ^ 32) (hinv : RotationInv cfg files made s) {dplVersion : Nat}
    (hnow : dplVersion = 4 ∨ dplVersion = 5) (f : Name) :
    f ∈ (if cfg.logfileNum ≠ 0 ∧ s.list (s.seq % cfg.logfileNum) ≠ [] then
        deleteOld cfg (s.list (s.seq % cfg.logfileNum)) dplVersion s.files else s.files) ↔
      f ∈ s.files ∧ ∀ seq m, Expired cfg made seq m → f ∉ filesOf cfg m.creation seq := by
  have hpos := hcfg.num_pos
  have hseq : s.seq = made.length := hinv.seq.trans (Nat.mod_eq_of_lt hlen)
  rw [hseq]
  by_cases hfull : cfg.logfileNum ≤ made.length
  · -- the slot is that of the log `cfg.logfileNum` before
    obtain ⟨k, hk⟩ := Nat.exists_eq_add_of_le' hfull
    have hklt : k < made.length := by omega
    have hm : made[k]? = some made[k] := List.getElem?_eq_getElem hklt
    have hslot := hinv.slot k made[k] hm (Nat.le_of_eq hk)
    have hmod : made.length % cfg.logfileNum = k % cfg.logfileNum := by
      rw [hk, Nat.add_mod_right]
    rw [hmod, hslot]
    by_cases hpinned : made[k].pinned = true
    · have hnone : ¬ (cfg.logfileNum ≠ 0 ∧
          (if made[k].pinned = true then [] else shortname made[k].creation k) ≠ []) := by
        rw [if_pos hpinned]
        simp
      rw [if_neg hnone, forall_expired_iff hm hk.symm]
      simp [hpinned]
    · obtain ⟨-, hkseq, hdpl⟩ := hok.of_made hm
      obtain ⟨front, sep, hshort, -⟩ := shortname_eq made[k].creation hkseq
      have hsome : cfg.logfileNum ≠ 0 ∧ (if made[k].pinned = true then [] else shortname made[k].creation k) ≠ [] := by
        rw [if_neg hpinned, hshort]
        exact ⟨by omega, List.append_ne_nil_of_right_ne_nil _ (List.cons_ne_nil _ _)⟩
      rw [if_pos hsome, if_neg hpinned, mem_deleteOld hdpl hnow (other_not_mem hcfg hok hinv hm),
        forall_expired_iff hm hk.symm]
      simp [hpinned]
  · -- no log has had the slot
    have hunused := hinv.unused made.length (Nat.le_refl _) (by omega)
    have hmod : made.length % cfg.logfileNum = made.length := Nat.mod_eq_of_lt (by omega)
    have hnone : ¬ (cfg.logfileNum ≠ 0 ∧ s.list made.length ≠ []) := by
      rw [hunused]
      simp
    rw [hmod, if_neg hnone]
    refine ⟨fun hf => ⟨hf, ?_⟩, And.left⟩
    rintro seq m ⟨-, hexp, -⟩
    omega

/-- The logs after a creation. -/
theorem getElem?_snoc {new m : Made} {k : Nat} :
    (made ++ [new])[k]? = some m ↔ made[k]? = some m ∧ k < made.length ∨ k = made.length ∧ new = m := by
  rcases Nat.lt_trichotomy k made.length with hlt | rfl | hgt
  · rw [List.getElem?_append_left hlt]
    simp only [hlt, and_true, hlt.ne, false_and, or_false]
  · simp
  · have hnone : (made ++ [new])[k]? = none := List.getElem?_eq_none (by simp; omega)
    rw [hnone]
    constructor
    · intro h
      cases h
    · rintro (⟨-, hlt⟩ | ⟨rfl, -⟩) <;> omega

theorem CreationsOk.left {cs cs' : List Creation} (hok : CreationsOk cfg files (cs ++ cs')) :
    CreationsOk cfg files cs := by
  have hlen := hok.length_le
  rw [List.length_append] at hlen
  refine ⟨by omega, fun c hc => hok.versions c (List.mem_append_left _ hc), fun seq c hc => ?_⟩
  refine hok.noOther seq c ?_
  rw [List.getElem?_append_left (List.getElem?_eq_some_iff.mp hc).1, hc]

theorem CreationsOk.init {new : Made} (hok : CreationsOk cfg files ((made ++ [new]).map Made.creation)) :
    CreationsOk cfg files (made.map Made.creation) ∧ made.length < 2 ^ 32 ∧
      (new.creation.dplVersion = 4 ∨ new.creation.dplVersion = 5) := by
  rw [List.map_append] at hok
  have hlen := hok.length_le
  rw [List.length_append, List.length_map, List.map_singleton, List.length_singleton] at hlen
  exact ⟨hok.left, by omega, hok.versions _ (List.mem_append_right _ (List.mem_singleton_self _))⟩

/-- What should exist after a creation: what should have existed, without the log that has to go, and the new
files. -/
theorem shouldExist_snoc (hcfg : cfg.Valid) {c : Creation}
    (hok : CreationsOk cfg files ((made ++ [⟨c, false⟩] : List Made).map Made.creation)) (f : Name) :
    ShouldExist cfg files (made ++ [⟨c, false⟩]) f ↔
      (ShouldExist cfg files made f ∧ ∀ seq m, Expired cfg made seq m → f ∉ filesOf cfg m.creation seq) ∨
        f ∈ filesOf cfg c made.length := by
  obtain ⟨hokOld, hlen, hdpl⟩ := hok.init
  have hpos := hcfg.num_pos
  have hlength : (made ++ [(⟨c, false⟩ : Made)]).length = made.length + 1 := by simp
  have hnew : (made ++ [(⟨c, false⟩ : Made)])[made.length]? = some ⟨c, false⟩ :=
    getElem?_snoc.mpr (Or.inr ⟨rfl, rfl⟩)
  have hold : ∀ {k m}, made[k]? = some m → (made ++ [(⟨c, false⟩ : Made)])[k]? = some m := fun hm =>
    getElem?_snoc.mpr (Or.inl ⟨hm, (List.getElem?_eq_some_iff.mp hm).1⟩)
  constructor
  -- a file of a log, old or new, or one that is of no log
  · rintro (⟨k, m, ⟨hm, hkept⟩, hf⟩ | ⟨hfile, hnot⟩)
    · rcases getElem?_snoc.mp hm with ⟨hm, hk⟩ | ⟨rfl, rfl⟩
      · rw [hlength] at hkept
        refine Or.inl ⟨Or.inl ⟨k, m, ⟨hm, hkept.imp_left fun h => by omega⟩, hf⟩, ?_⟩
        rintro k' m' ⟨hm', hexp, hunpinned⟩ hf'
        obtain ⟨-, hklt, hver⟩ := hokOld.of_made hm
        obtain ⟨-, hklt', hver'⟩ := hokOld.of_made hm'
        obtain rfl := filesOf_inj hcfg hklt hklt' hver hver' hf hf'
        rw [hm, Option.some.injEq] at hm'
        rw [hm', hunpinned] at hkept
        rcases hkept with hwindow | hpin
        · omega
        · cases hpin
      · exact Or.inr hf
    · refine Or.inl ⟨Or.inr ⟨hfile, ?_⟩, ?_⟩
      · rintro ⟨k, m, hm, hf⟩
        exact hnot ⟨k, m, hold hm, hf⟩
      · rintro k m ⟨hm, -, -⟩ hf
        exact hnot ⟨k, m, hold hm, hf⟩
  · rintro (⟨⟨k, m, ⟨hm, hkept⟩, hf⟩ | ⟨hfile, hnot⟩, hexp⟩ | hf)
    · -- an old log that is kept, unless it has expired
      refine Or.inl ⟨k, m, ⟨hold hm, ?_⟩, hf⟩
      rw [hlength]
      rcases hkept with hwindow | hpin
      · by_cases hlast : k + cfg.logfileNum = made.length
        · refine Or.inr ?_
          by_contra hunpinned
          exact hexp k m ⟨hm, hlast, Bool.not_eq_true _ ▸ hunpinned⟩ hf
        · exact Or.inl (by omega)
      · exact Or.inr hpin
    · by_cases hf : f ∈ filesOf cfg c made.length
      · exact Or.inl ⟨made.length, ⟨c, false⟩, ⟨hnew, Or.inl (by omega)⟩, hf⟩
      · refine Or.inr ⟨hfile, ?_⟩
        rintro ⟨k, m, hm, hf'⟩
        rcases getElem?_snoc.mp hm with ⟨hm, -⟩ | ⟨rfl, rfl⟩
        · exact hnot ⟨k, m, hm, hf'⟩
        · exact hf hf'
    · exact Or.inl ⟨made.length, ⟨c, false⟩, ⟨hnew, Or.inl (by omega)⟩, hf⟩

/-- A creation keeps the invariant. -/
theorem RotationInv.create (hcfg : cfg.Valid) {c : Creation}
    (hok : CreationsOk cfg files ((made ++ [⟨c, false⟩] : List Made).map Made.creation))
    (hinv : RotationInv cfg files made s) :
    RotationInv cfg files (made ++ [⟨c, false⟩]) (rotationStep cfg s (.create c)) := by
  obtain ⟨hokOld, hlen, hdpl⟩ := hok.init
  have hpos := hcfg.num_pos
  have hseq : s.seq = made.length := hinv.seq.trans (Nat.mod_eq_of_lt hlen)
  have hlength : (made ++ [(⟨c, false⟩ : Made)]).length = made.length + 1 := by simp
  obtain ⟨front, sep, hshort, -, hshortLen⟩ := shortname_eq c hlen
  have hentry : (shortname c made.length).take 98 = shortname c made.length :=
    List.take_of_length_le (hshortLen.trans (by decide))
  have hne : cfg.logfileNum ≠ 0 := by omega
  have hstep : rotationStep cfg s (.create c) =
      { files := createNew cfg (shortname c made.length) c.dplVersion
          (if cfg.logfileNum ≠ 0 ∧ s.list (s.seq % cfg.logfileNum) ≠ [] then
            deleteOld cfg (s.list (s.seq % cfg.logfileNum)) c.dplVersion s.files else s.files)
        list := Function.update s.list (made.length % cfg.logfileNum) (shortname c made.length)
        seq := (made.length + 1) % 2 ^ 32
        idx := made.length % cfg.logfileNum } := by
    simp only [rotationStep, qlogLogfileCreate, if_pos hne, hseq, hentry]
  rw [hstep]
  refine ⟨?_, ?_, ?_, ?_, ?_⟩
  · rw [hlength]
  · rw [hlength, Nat.add_sub_cancel]
  · intro k m hm hwindow
    rw [hlength] at hwindow
    dsimp only
    rcases getElem?_snoc.mp hm with ⟨hm, hk⟩ | ⟨rfl, rfl⟩
    · rw [Function.update_of_ne, hinv.slot k m hm (by omega)]
      intro hmod
      have heq := eq_of_mod_eq hk.le (by omega) hmod
      omega
    · rw [Function.update_self]
      rfl
  · intro j hj hjlt
    rw [hlength] at hj
    have hmod : made.length % cfg.logfileNum = made.length := Nat.mod_eq_of_lt (by omega)
    dsimp only
    rw [hmod, Function.update_of_ne (by omega)]
    exact hinv.unused j (by omega) hjlt
  · intro f
    rw [mem_createNew hcfg hlen hdpl, mem_afterRemoval hcfg hokOld hlen hinv hdpl, shouldExist_snoc hcfg hok,
      hinv.files]

/-- Only the current log changes, and only in being pinned. -/
theorem getElem?_pin {k : Nat} {m : Made} :
    (madeStep made .pin)[k]? = some m ↔
      ∃ m', made[k]? = some m' ∧ m = if k + 1 = made.length then { m' with pinned := true } else m' := by
  rw [madeStep, List.getElem?_modify]
  cases hm : made[k]? with
  | none => simp
  | some m' =>
      have hlt := (List.getElem?_eq_some_iff.mp hm).1
      have hcurrent : made.length - 1 = k ↔ k + 1 = made.length := by omega
      simp only [Option.map_eq_map, Option.map_some, Option.some.injEq, hcurrent, exists_eq_left', eq_comm]

theorem shouldExist_pin (hcfg : cfg.Valid) (f : Name) :
    ShouldExist cfg files (madeStep made .pin) f ↔ ShouldExist cfg files made f := by
  have hpos := hcfg.num_pos
  have hlength : (madeStep made .pin).length = made.length := List.length_modify _ _ _
  have hcreation : ∀ {m' : Made} {k}, (if k + 1 = made.length then { m' with pinned := true } else m').creation =
      m'.creation := by
    intro m' k
    split <;> rfl
  have hofRun : OfRun cfg (madeStep made .pin) f ↔ OfRun cfg made f := by
    constructor
    · rintro ⟨k, m, hm, hf⟩
      obtain ⟨m', hm', rfl⟩ := getElem?_pin.mp hm
      exact ⟨k, m', hm', by rwa [hcreation] at hf⟩
    · rintro ⟨k, m', hm', hf⟩
      exact ⟨k, _, getElem?_pin.mpr ⟨m', hm', rfl⟩, by rwa [hcreation]⟩
  rw [ShouldExist, ShouldExist, hofRun]
  refine or_congr_left ⟨?_, ?_⟩
  · rintro ⟨k, m, ⟨hm, hkept⟩, hf⟩
    obtain ⟨m', hm', rfl⟩ := getElem?_pin.mp hm
    rw [hcreation] at hf
    refine ⟨k, m', ⟨hm', ?_⟩, hf⟩
    rw [hlength] at hkept
    split at hkept
    · exact Or.inl (by omega)
    · exact hkept
  · rintro ⟨k, m', ⟨hm', hkept⟩, hf⟩
    refine ⟨k, _, ⟨getElem?_pin.mpr ⟨m', hm', rfl⟩, ?_⟩, by rwa [hcreation]⟩
    rw [hlength]
    split
    · exact Or.inr rfl
    · exact hkept

/-- Keeping the current log keeps the invariant. -/
theorem RotationInv.pin (hcfg : cfg.Valid) (hinv : RotationInv cfg files made s) :
    RotationInv cfg files (madeStep made .pin) (rotationStep cfg s .pin) := by
  have hpos := hcfg.num_pos
  have hlength : (madeStep made .pin).length = made.length := List.length_modify _ _ _
  refine ⟨?_, ?_, ?_, ?_, ?_⟩
  · rw [hlength]
    exact hinv.seq
  · rw [hlength]
    exact hinv.idx
  · intro k m hm hwindow
    obtain ⟨m', hm', rfl⟩ := getElem?_pin.mp hm
    have hk := (List.getElem?_eq_some_iff.mp hm').1
    rw [hlength] at hwindow
    show Function.update s.list s.idx [] (k % cfg.logfileNum) = _
    rw [hinv.idx]
    split
    · next hlast =>
        have hcurrent : made.length - 1 = k := by omega
        rw [hcurrent, Function.update_self]
        rfl
    · next hother =>
        rw [Function.update_of_ne, hinv.slot k m' hm' hwindow]
        intro hmod
        have heq := eq_of_mod_eq (by omega) (by omega) hmod
        omega
  · intro j hj hjlt
    rw [hlength] at hj
    show Function.update s.list s.idx [] j = []
    by_cases hidx : j = s.idx
    · rw [hidx, Function.update_self]
    · rw [Function.update_of_ne hidx]
      exact hinv.unused j hj hjlt
  · intro f
    rw [shouldExist_pin hcfg]
    exact hinv.files f

theorem map_creation_madeStep (made : List Made) (event : RotationEvent) :
    (madeStep made event).map Made.creation = made.map Made.creation ++ creations [event] := by
  cases event with
  | create c => rw [madeStep, List.map_append]; rfl
  | pin =>
      have hnil : creations [.pin] = [] := rfl
      rw [hnil, List.append_nil]
      refine List.ext_getElem? fun k => ?_
      rw [madeStep, List.getElem?_map, List.getElem?_map, List.getElem?_modify]
      cases made[k]? with
      | none => rfl
      | some m =>
          simp only [Option.map_eq_map, Option.map_some]
          split <;> rfl

/-- What one event preserves, a run preserves. -/
theorem rotationInv_run (hcfg : cfg.Valid) (events : List RotationEvent)
    (hok : CreationsOk cfg files (creations events)) :
    RotationInv cfg files (madeLogs events) (rotationRun cfg files events) ∧
      (madeLogs events).map Made.creation = creations events := by
  induction events using List.reverseRecOn with
  | nil => exact ⟨rotationInv_start, rfl⟩
  | append_singleton events event ih =>
      have hsplit : creations (events ++ [event]) = creations events ++ creations [event] := List.filterMap_append
      rw [hsplit] at hok
      obtain ⟨hinv, hmap⟩ := ih hok.left
      have hlogs : madeLogs (events ++ [event]) = madeStep (madeLogs events) event := by
        rw [madeLogs, List.foldl_append]
        rfl
      have hrun : rotationRun cfg files (events ++ [event]) =
          rotationStep cfg (rotationRun cfg files events) event := by
        rw [rotationRun, List.foldl_append]
        rfl
      have hmap' : (madeStep (madeLogs events) event).map Made.creation = creations events ++ creations [event] := by
        rw [map_creation_madeStep, hmap]
      rw [hlogs, hrun, hsplit]
      refine ⟨?_, hmap'⟩
      cases event with
      | create c =>
          refine hinv.create hcfg ?_
          rw [← hmap'] at hok
          exact hok
      | pin => exact hinv.pin hcfg

end Runs

/-- **Rotation keeps the last logs**: after any run of creations and pins, whatever the sessions and the versions, the
files of the run that exist are those of the last `s_logfile_num` logs and of the logs pinned as the current one, and
no file of another name has been removed. Only a file that was there before, and has the name of a third file of the
run but for the version, is mistaken for it. -/
theorem rotation_keeps_last {cfg : LogConfig} (hcfg : cfg.Valid) {files : List Name} {events : List RotationEvent}
    (hversions : ∀ c ∈ creations events, c.dplVersion = 4 ∨ c.dplVersion = 5)
    (hseq : (creations events).length ≤ 2 ^ 32) (hother : NoOtherVersion cfg files events) (f : Name) :
    f ∈ (rotationRun cfg files events).files ↔ ShouldExist cfg files (madeLogs events) f :=
  (rotationInv_run hcfg events ⟨hseq, hversions, hother⟩).1.files f

/-! ## Two logs, of which one is kept -/

def noon : Tm where
  year := 2024
  mon := 1
  mday := 1
  hour := 12
  min := 0
  sec := 0
  msec := 0
  year_lt := by decide
  fields_lt := by decide

def oneLog : LogConfig where
  logfileNum := 1
  logfileDir := ".".toList
  logfileSuffix := "qmdl".toList
  secondLogfileSuffix := none
  thirdLogfileSuffix := some ".adplv".toList
  readNmeaLog := false

/-- A creation with version 4, then one with version 5. -/
def versionChange : List RotationEvent := [.create ⟨.other, noon, 4⟩, .create ⟨.other, noon, 5⟩]

theorem oneLog_valid : oneLog.Valid := ⟨by decide, by decide, by decide, by decide, by decide⟩

/-- A file of another name, and one that has the name of a third file of the second log but for the day. -/
def foreignFiles : List Name := ["./notes.txt".toList, "./20240102_120000_0001.adplv4".toList]

/-- A directory with foreign files: they stay, and the first log goes with its third file, though the version has
changed. -/
theorem rotation_keeps_last_versionChange :
    (∀ f, f ∈ (rotationRun oneLog foreignFiles versionChange).files ↔
      ShouldExist oneLog foreignFiles (madeLogs versionChange) f) ∧
      (rotationRun oneLog foreignFiles versionChange).files =
        ["./20240101_120000_0001.adplv5".toList, "./20240101_120000_0001.qmdl".toList] ++ foreignFiles := by
  have hother : NoOtherVersion oneLog foreignFiles versionChange := by
    intro seq c hc
    match seq, hc with
    | 0, hc =>
        cases hc
        decide
    | 1, hc =>
        cases hc
        decide
    | seq + 2, hc => cases hc
  exact ⟨rotation_keeps_last oneLog_valid (by decide) (by decide) hother, by decide⟩

/-- Where a file with the other version was there before, that one is removed and the third file of the first log
stays. -/
theorem not_rotation_keeps_last :
    ¬ ∀ (cfg : LogConfig) (files : List Name) (events : List RotationEvent), cfg.Valid →
      (∀ c ∈ creations events, c.dplVersion = 4 ∨ c.dplVersion = 5) → (creations events).length ≤ 2 ^ 32 →
      ∀ f, f ∈ (rotationRun cfg files events).files ↔ ShouldExist cfg files (madeLogs events) f := by
  intro h
  set own := "./20240101_120000_0000.adplv4".toList with hown
  have hiff := h oneLog ["./20240101_120000_0000.adplv5".toList] versionChange oneLog_valid (by decide) (by decide) own
  have hstays : own ∈ (rotationRun oneLog ["./20240101_120000_0000.adplv5".toList] versionChange).files := by
    decide
  rcases hiff.mp hstays with ⟨seq, m, ⟨hm, hkept⟩, hf⟩ | ⟨hfile, -⟩
  · match seq, hm with
    | 0, hm =>
        cases hm
        exact absurd hkept (by decide)
    | 1, hm =>
        cases hm
        exact absurd hf (by decide)
    | seq + 2, hm => cases hm
  · exact absurd hfile (by decide)

end QLog.Rotation
