import Mathlib.Algebra.Ring.Nat
import Mathlib.Logic.Function.Basic
import QLog.Library.Transducer

/-! # The log files of `qsocket_server`

Every channel opens a file with its first buffer and closes it when the file is full, so that the next buffer opens
another. Whether it is full is told from a counter that closing the file does not set back, and for the channels of QDSS
and ADPL only where the counter of the first channel has got to a MiB.

The abstract file `Rolling` is closed by its own length. A channel writes the files of its `Rolling` as long as it meets
neither. -/

namespace QLog.QFile

open Library

/-- The three channels, by `type`. -/
inductive Channel
  | qxdm
  | qdss
  | adpl
deriving DecidableEq

/-- `qxdm_fd`, `qdss_fd` and `adpl_fd`: zero, a descriptor, or the result of an `open` that failed. -/
inductive Fd
  | zero
  | opened
  | failed
deriving DecidableEq

/-- The variables of the channels, and what has been written. -/
structure LogFiles where
  fd : Channel → Fd
  /-- `qxdm_size`, `qdss_size` and `adpl_size` -/
  size : Channel → Nat
  /-- the files that have been closed -/
  closed : Channel → List (List UInt8)
  /-- the bytes of the open file -/
  current : Channel → List UInt8

/-- A call of `qwriteData2File`. -/
structure Buffer where
  channel : Channel
  data : List UInt8
  /-- `createLogFile` succeeds, if it is called -/
  creates : Bool
  /-- what `write` returns: the length of what it has written, or nothing for an error -/
  writes : Option Nat

/-- `createLogFile`, where no file is open. -/
def openFile (c : Channel) (b : Buffer) (s : LogFiles) : LogFiles :=
  if s.fd c = .zero then { s with fd := Function.update s.fd c (if b.creates then .opened else .failed) } else s

/-- `1024 * 1024` -/
def mib : Nat := 1024 * 1024

/-- `num` in `checkFileSize`. All three cases look at `qxdm_size` first. -/
def wholeMiB (s : LogFiles) (c : Channel) : Nat :=
  if s.size .qxdm < mib then 0 else s.size c / mib % 2 ^ 32

/-- `checkFileSize` -/
def checkFileSize (maxSize : Nat) (s : LogFiles) (c : Channel) : Int := if maxSize < wholeMiB s c then 1 else -1

/-- `closeFile` -/
def closeFile (c : Channel) (s : LogFiles) : LogFiles where
  fd := Function.update s.fd c .zero
  size := s.size
  closed := Function.update s.closed c (s.closed c ++ [s.current c])
  current := Function.update s.current c []

/-- `write` -/
def writeFile (c : Channel) (b : Buffer) (s : LogFiles) : LogFiles :=
  { s with current := Function.update s.current c (s.current c ++ b.data.take (b.writes.getD 0)) }

/-- `qxdm_size += res`, and its copies. -/
def addSize (c : Channel) (b : Buffer) (s : LogFiles) : LogFiles :=
  { s with size := Function.update s.size c (s.size c + b.data.length) }

/-- The function that `write2QxdmFile`, `write2QdssFile` and `write2AdplFile` are copies of: the files, and the result
that is returned. -/
def write2File (maxSize : Nat) (c : Channel) (s : LogFiles) (b : Buffer) : LogFiles × List Int :=
  let s := openFile c b s
  if s.fd c = .failed then (s, [-1])
  else
    let s := writeFile c b s
    if b.writes ≠ some b.data.length then (s, [-1])
    else
      let s := addSize c b s
      if 0 < checkFileSize maxSize s c then (closeFile c s, [0]) else (s, [0])

/-- `write2QxdmFile` -/
def write2QxdmFile (maxSize : Nat) := write2File maxSize .qxdm

/-- `write2QdssFile` -/
def write2QdssFile (maxSize : Nat) := write2File maxSize .qdss

/-- `write2AdplFile` -/
def write2AdplFile (maxSize : Nat) := write2File maxSize .adpl

/-- `qwriteData2File` -/
def qwriteData2File (maxSize : Nat) (s : LogFiles) (b : Buffer) : LogFiles × List Int :=
  match b.channel with
  | .qxdm => write2QxdmFile maxSize s b
  | .qdss => write2QdssFile maxSize s b
  | .adpl => write2AdplFile maxSize s b

theorem qwriteData2File_eq (maxSize : Nat) (s : LogFiles) (b : Buffer) :
    qwriteData2File maxSize s b = write2File maxSize b.channel s b := by
  rw [qwriteData2File]
  cases b.channel <;> rfl

/-- The variables at the start of the program. -/
def filesStart : LogFiles where
  fd := fun _ => .zero
  size := fun _ => 0
  closed := fun _ => []
  current := fun _ => []

/-! ## The abstract file -/

/-- A stream that is written to one file after the other. -/
structure Rolling where
  closed : List (List UInt8)
  current : List UInt8

namespace Rolling

/-- The file is closed when its whole MiB exceed the limit. -/
def write (maxSize : Nat) (f : Rolling) (data : List UInt8) : Rolling :=
  if maxSize < (f.current ++ data).length / mib then ⟨f.closed ++ [f.current ++ data], []⟩
  else ⟨f.closed, f.current ++ data⟩

/-- All buffers, one after the other. -/
def writeAll (maxSize : Nat) (f : Rolling) (buffers : List (List UInt8)) : Rolling :=
  buffers.foldl (write maxSize) f

/-- No byte gets lost between two files. -/
theorem flatten_writeAll (maxSize : Nat) (f : Rolling) (buffers : List (List UInt8)) :
    (writeAll maxSize f buffers).closed.flatten ++ (writeAll maxSize f buffers).current
      = f.closed.flatten ++ f.current ++ buffers.flatten := by
  induction buffers generalizing f with
  | nil => simp [writeAll]
  | cons data buffers ih =>
      have hone : (write maxSize f data).closed.flatten ++ (write maxSize f data).current
          = f.closed.flatten ++ f.current ++ data := by
        rw [write]
        split <;> simp
      rw [writeAll, List.foldl_cons, ← writeAll, ih, hone, List.flatten_cons, List.append_assoc]

end Rolling

/-! ## Two runs -/

/-- How the bytes of a channel are split into files. -/
def split (s : LogFiles) (c : Channel) : Rolling := ⟨s.closed c, s.current c⟩

/-- The buffers of a channel. -/
def inputs (c : Channel) (bs : List Buffer) : List (List UInt8) := (bs.filter (·.channel = c)).map (·.data)

/-- The channel closes its file exactly when the whole MiB written to it exceed the limit. -/
def ClosesFile (maxSize : Nat) (c : Channel) (s : LogFiles) (b : Buffer) : Prop :=
  b.channel = c → ((qwriteData2File maxSize s b).1.closed c ≠ s.closed c ↔
    maxSize < (s.current c ++ b.data).length / mib)

/-- **A channel is independent of the others**: it closes its files by their own lengths, and its bytes are split in the
same way in both runs. -/
structure Independent (maxSize : Nat) (c : Channel) (bs bs' : List Buffer) : Prop where
  closes : Along (qwriteData2File maxSize) (ClosesFile maxSize c) filesStart bs
  closes' : Along (qwriteData2File maxSize) (ClosesFile maxSize c) filesStart bs'
  split_eq : split (runSteps (qwriteData2File maxSize) filesStart bs).1 c
    = split (runSteps (qwriteData2File maxSize) filesStart bs').1 c

/-- The file can be created, and everything is written. -/
def Buffer.Written (b : Buffer) : Prop := b.creates = true ∧ b.writes = some b.data.length

/-- A step of the channel whose file gets too long only when the counters close it: the first file with a MiB on the
first channel, a later one by a single buffer. -/
structure StepOk (maxSize : Nat) (c : Channel) (s : LogFiles) (b : Buffer) : Prop where
  /-- before the first file is closed: when the file gets too long the first channel has got a MiB -/
  first : b.channel = c → s.closed c = [] → maxSize < (s.size c + b.data.length) / mib →
    c = .qxdm ∨ mib ≤ s.size .qxdm
  /-- afterwards: every buffer fills a file by itself -/
  later : b.channel = c → s.closed c ≠ [] → maxSize < b.data.length / mib

section Step

theorem wholeMiB_congr {s s' : LogFiles} (h : s.size = s'.size) (c : Channel) : wholeMiB s c = wholeMiB s' c := by
  rw [wholeMiB, wholeMiB, h]

variable {maxSize : Nat} {c : Channel} {s : LogFiles} {b : Buffer}

/-- A step leaves the other channels alone. -/
theorem write2File_other (maxSize : Nat) (hc : c ≠ b.channel) :
    (write2File maxSize b.channel s b).1.fd c = s.fd c ∧ (write2File maxSize b.channel s b).1.size c = s.size c ∧
      split (write2File maxSize b.channel s b).1 c = split s c := by
  have hopen : (openFile b.channel b s).fd c = s.fd c ∧ (openFile b.channel b s).size = s.size ∧
      split (openFile b.channel b s) c = split s c := by
    rw [openFile]
    split
    · exact ⟨Function.update_of_ne hc _ _, rfl, rfl⟩
    · exact ⟨rfl, rfl, rfl⟩
  -- what `write2File` updates is at `b.channel`
  obtain ⟨hfd, hsize, hsplit⟩ := hopen
  have hsize' := congrFun hsize c
  rw [write2File]
  dsimp only
  split
  · exact ⟨hfd, hsize', hsplit⟩
  · split
    · refine ⟨hfd, hsize', ?_⟩
      rw [← hsplit]
      simp [writeFile, QFile.split, Function.update_of_ne hc]
    · split
      · refine ⟨?_, ?_, ?_⟩
        · simpa [closeFile, addSize, writeFile, Function.update_of_ne hc] using hfd
        · simpa [closeFile, addSize, writeFile, Function.update_of_ne hc] using hsize'
        · rw [← hsplit]
          simp [closeFile, addSize, writeFile, QFile.split, Function.update_of_ne hc]
      · refine ⟨hfd, ?_, ?_⟩
        · simpa [addSize, writeFile, Function.update_of_ne hc] using hsize'
        · rw [← hsplit]
          simp [addSize, writeFile, QFile.split, Function.update_of_ne hc]

/-- The counters only grow. -/
theorem size_le_write2File (maxSize : Nat) (s : LogFiles) (b : Buffer) (c : Channel) :
    s.size c ≤ (write2File maxSize b.channel s b).1.size c := by
  by_cases hc : c = b.channel
  · have hopen : (openFile b.channel b s).size = s.size := by
      rw [openFile]
      split <;> rfl
    rw [write2File]
    dsimp only
    split
    · exact Nat.le_of_eq (congrFun hopen c).symm
    · split
      · exact Nat.le_of_eq (congrFun hopen c).symm
      · split
        all_goals simp [closeFile, addSize, writeFile, hopen, hc]
  · exact Nat.le_of_eq (write2File_other maxSize hc).2.1.symm

/-- A file that can be created is open before the write. -/
theorem openFile_written (hb : b.Written) (hfd : s.fd b.channel ≠ .failed) :
    (openFile b.channel b s).fd b.channel = .opened ∧ (openFile b.channel b s).size = s.size ∧
      (openFile b.channel b s).closed = s.closed ∧ (openFile b.channel b s).current = s.current := by
  rw [openFile]
  split
  · simp [hb.1]
  · next hzero =>
      refine ⟨?_, rfl, rfl, rfl⟩
      cases hcase : s.fd b.channel with
      | zero => exact absurd hcase hzero
      | opened => rfl
      | failed => exact absurd hcase hfd

/-- The step of a channel whose file can be created and written: the file gets the data and is closed if it is found
full. -/
theorem write2File_written (maxSize : Nat) (hb : b.Written) (hfd : s.fd b.channel ≠ .failed) :
    (write2File maxSize b.channel s b).1.fd b.channel ≠ .failed ∧
      (write2File maxSize b.channel s b).1.size b.channel = s.size b.channel + b.data.length ∧
      split (write2File maxSize b.channel s b).1 b.channel
        = if maxSize < wholeMiB (addSize b.channel b s) b.channel then
            ⟨s.closed b.channel ++ [s.current b.channel ++ b.data], []⟩
          else ⟨s.closed b.channel, s.current b.channel ++ b.data⟩ := by
  obtain ⟨hfd', hsize, hclosed, hcurrent⟩ := openFile_written hb hfd
  have hnum : wholeMiB (addSize b.channel b (writeFile b.channel b (openFile b.channel b s))) b.channel
      = wholeMiB (addSize b.channel b s) b.channel := by
    apply wholeMiB_congr
    simp only [addSize, writeFile, hsize]
  have hall : b.data.take (b.writes.getD 0) = b.data := by
    rw [hb.2, Option.getD_some, List.take_length]
  have hnotFailed : ¬ (openFile b.channel b s).fd b.channel = .failed := by simp [hfd']
  rw [write2File]
  dsimp only
  rw [if_neg hnotFailed, if_neg (not_not_intro hb.2), checkFileSize, hnum]
  by_cases hfull : maxSize < wholeMiB (addSize b.channel b s) b.channel
  · rw [if_pos hfull, if_pos hfull, if_pos (by decide)]
    refine ⟨?_, ?_, ?_⟩
    · simp [closeFile]
    · simp [closeFile, addSize, writeFile, hsize]
    · simp [QFile.split, closeFile, addSize, writeFile, hclosed, hcurrent, hall]
  · rw [if_neg hfull, if_neg hfull, if_neg (by decide)]
    refine ⟨?_, ?_, ?_⟩
    · simp [addSize, writeFile, hfd']
    · simp [addSize, writeFile, hsize]
    · simp [QFile.split, addSize, writeFile, hclosed, hcurrent, hall]

theorem size_qwriteData2File (hb : b.Written) (hfd : s.fd b.channel ≠ .failed) :
    (qwriteData2File maxSize s b).1.size b.channel = s.size b.channel + b.data.length := by
  rw [qwriteData2File_eq]
  exact (write2File_written maxSize hb hfd).2.1

theorem qwriteData2File_other (hc : b.channel ≠ c) :
    (qwriteData2File maxSize s b).1.size c = s.size c ∧ split (qwriteData2File maxSize s b).1 c = split s c := by
  rw [qwriteData2File_eq]
  exact (write2File_other maxSize (Ne.symm hc)).2

/-- A step of another channel does no harm. -/
theorem stepOk_of_other (hc : b.channel ≠ c) : StepOk maxSize c s b :=
  ⟨fun hhere => absurd hhere hc, fun hhere => absurd hhere hc⟩

/-- A channel that closes its files when it has to: the counter is the length of the first file; behind it the open
file is empty and the counter is past the limit. -/
structure ChannelInv (maxSize : Nat) (c : Channel) (s : LogFiles) : Prop where
  fd_ne : s.fd c ≠ .failed
  counter : s.closed c = [] → s.size c = (s.current c).length
  passed : s.closed c ≠ [] → s.current c = [] ∧ maxSize < s.size c / mib ∧ mib ≤ s.size .qxdm

/-- The counter of the first channel, behind a buffer of one of the channels. -/
theorem wholeMiB_addSize (hfits : (s.size b.channel + b.data.length) / mib < 2 ^ 32) :
    maxSize < wholeMiB (addSize b.channel b s) b.channel ↔
      maxSize < (s.size b.channel + b.data.length) / mib ∧ (b.channel = .qxdm ∨ mib ≤ s.size .qxdm) := by
  have hown : (addSize b.channel b s).size b.channel = s.size b.channel + b.data.length :=
    Function.update_self _ _ _
  rw [wholeMiB, hown]
  -- the counter of the first channel is its own gate
  by_cases hfirst : b.channel = .qxdm
  · rw [← hfirst, hown]
    split
    · next hlt =>
        have hzero : (s.size b.channel + b.data.length) / mib = 0 := Nat.div_eq_of_lt hlt
        rw [hzero]
        simp
    · rw [Nat.mod_eq_of_lt hfits]
      simp
  · have hother : (addSize b.channel b s).size .qxdm = s.size .qxdm :=
      Function.update_of_ne (Ne.symm hfirst) _ _
    rw [hother]
    split
    · next hlt => simp [hfirst, Nat.not_le.mpr hlt]
    · next hge =>
        rw [Nat.mod_eq_of_lt hfits]
        simp [Nat.not_lt.mp hge]

/-- A step of the channel closes its file exactly if the file is found full. -/
theorem closed_ne_iff (hb : b.Written) (hfd : s.fd b.channel ≠ .failed) :
    (qwriteData2File maxSize s b).1.closed b.channel ≠ s.closed b.channel ↔
      maxSize < wholeMiB (addSize b.channel b s) b.channel := by
  obtain ⟨-, -, hsplit⟩ := write2File_written maxSize hb hfd
  have hclosed := congrArg Rolling.closed hsplit
  rw [qwriteData2File_eq]
  show (split (write2File maxSize b.channel s b).1 b.channel).closed ≠ _ ↔ _
  rw [hclosed]
  split
  · next hfull => simp [hfull]
  · next hfull => simp [hfull]

/-- A step of the channel closes the file when it has to exactly if the counters do no harm. -/
theorem ChannelInv.closesFile_iff (h : ChannelInv maxSize b.channel s) (hb : b.Written)
    (hfits : (s.size b.channel + b.data.length) / mib < 2 ^ 32) :
    ClosesFile maxSize b.channel s b ↔ StepOk maxSize b.channel s b := by
  rw [ClosesFile, imp_iff_right rfl, closed_ne_iff hb h.fd_ne, wholeMiB_addSize hfits, List.length_append]
  -- before the first file is closed the counter is the length of the open one
  by_cases hclosed : s.closed b.channel = []
  · rw [← h.counter hclosed]
    constructor
    · intro hiff
      exact ⟨fun _ _ hlong => (hiff.mpr hlong).2, fun _ hne => absurd hclosed hne⟩
    · intro hok
      exact ⟨fun hfull => hfull.1, fun hlong => ⟨hlong, hok.first rfl hclosed hlong⟩⟩
  · obtain ⟨hempty, hpassed, hgate⟩ := h.passed hclosed
    -- the counter has been passed, so that the file is found full
    have hfull : maxSize < (s.size b.channel + b.data.length) / mib :=
      Nat.lt_of_lt_of_le hpassed (Nat.div_le_div_right (Nat.le_add_right _ _))
    rw [hempty, List.length_nil, Nat.zero_add]
    constructor
    · intro hiff
      exact ⟨fun _ hnil => absurd hnil hclosed, fun _ _ => hiff.mp ⟨hfull, Or.inr hgate⟩⟩
    · intro hok
      exact ⟨fun _ => hok.later rfl hclosed, fun _ => ⟨hfull, Or.inr hgate⟩⟩

/-- Such a step does what the abstract file does. -/
theorem ChannelInv.step (h : ChannelInv maxSize b.channel s) (hb : b.Written)
    (hfits : (s.size b.channel + b.data.length) / mib < 2 ^ 32) (hok : StepOk maxSize b.channel s b) :
    ChannelInv maxSize b.channel (qwriteData2File maxSize s b).1 ∧
      split (qwriteData2File maxSize s b).1 b.channel = (split s b.channel).write maxSize b.data := by
  have hcloses := (h.closesFile_iff hb hfits).mpr hok rfl
  rw [closed_ne_iff hb h.fd_ne] at hcloses
  obtain ⟨hfd, hsize, hsplit⟩ := write2File_written maxSize hb h.fd_ne
  have hgrows := size_le_write2File maxSize s b .qxdm
  rw [qwriteData2File_eq]
  by_cases hfull : maxSize < wholeMiB (addSize b.channel b s) b.channel
  · rw [if_pos hfull] at hsplit
    obtain ⟨hclosed, hcurrent⟩ := Rolling.mk.inj hsplit
    obtain ⟨hlong, hgate⟩ := (wholeMiB_addSize hfits).mp hfull
    refine ⟨⟨hfd, fun hnil => ?_, fun _ => ⟨hcurrent, ?_, ?_⟩⟩, ?_⟩
    · rw [hclosed] at hnil
      exact absurd hnil (by simp)
    · rw [hsize]
      exact hlong
    · rcases hgate with hfirst | hgate
      · rw [← hfirst, hsize]
        by_contra hlt
        rw [Nat.div_eq_of_lt (Nat.not_le.mp hlt)] at hlong
        exact absurd hlong (Nat.not_lt_zero _)
      · exact Nat.le_trans hgate hgrows
    · rw [hsplit, Rolling.write]
      exact (if_pos (hcloses.mp hfull)).symm
  · rw [if_neg hfull] at hsplit
    obtain ⟨hclosed, hcurrent⟩ := Rolling.mk.inj hsplit
    -- the counter has not been passed before either
    have hnil : s.closed b.channel = [] := by
      by_contra hne
      obtain ⟨-, hpassed, hgate⟩ := h.passed hne
      apply hfull
      rw [wholeMiB_addSize hfits]
      exact ⟨Nat.lt_of_lt_of_le hpassed (Nat.div_le_div_right (Nat.le_add_right _ _)), Or.inr hgate⟩
    refine ⟨⟨hfd, fun _ => ?_, fun hne => ?_⟩, ?_⟩
    · rw [hsize, hcurrent, List.length_append, h.counter hnil]
    · rw [hclosed] at hne
      exact absurd hnil hne
    · rw [hsplit, Rolling.write]
      exact (if_neg fun hlong => hfull (hcloses.mpr hlong)).symm

/-- What is known of a channel does not change with the steps of the others. -/
theorem ChannelInv.other (h : ChannelInv maxSize c s) (hc : c ≠ b.channel) :
    ChannelInv maxSize c (qwriteData2File maxSize s b).1 := by
  obtain ⟨hfd, hsize, hsplit⟩ := write2File_other (s := s) maxSize hc
  obtain ⟨hclosed, hcurrent⟩ := Rolling.mk.inj hsplit
  have hgrows := size_le_write2File maxSize s b .qxdm
  rw [qwriteData2File_eq]
  refine ⟨?_, ?_, ?_⟩
  · rw [hfd]
    exact h.fd_ne
  · rw [hclosed, hsize, hcurrent]
    exact h.counter
  · rw [hclosed, hsize, hcurrent]
    intro hne
    obtain ⟨hempty, hpassed, hgate⟩ := h.passed hne
    exact ⟨hempty, hpassed, Nat.le_trans hgate hgrows⟩

end Step

section Run

variable {maxSize : Nat} {c : Channel}

theorem inputs_cons (b : Buffer) (bs : List Buffer) : inputs b.channel (b :: bs) = b.data :: inputs b.channel bs := by
  simp [inputs]

theorem inputs_cons_of_ne {b : Buffer} (hc : b.channel ≠ c) (bs : List Buffer) : inputs c (b :: bs) = inputs c bs := by
  simp [inputs, hc]

/-- Along a run that closes the files of the channel when it has to no step does harm, and the other way round; and then
the channel writes what the abstract file writes. -/
theorem along_closesFile_iff (bs : List Buffer) (s : LogFiles) (h : ChannelInv maxSize c s)
    (hwritten : ∀ b ∈ bs, b.channel = c → b.Written)
    (hfits : (s.size c + (inputs c bs).flatten.length) / mib < 2 ^ 32) :
    (Along (qwriteData2File maxSize) (ClosesFile maxSize c) s bs ↔
        Along (qwriteData2File maxSize) (StepOk maxSize c) s bs) ∧
      (Along (qwriteData2File maxSize) (StepOk maxSize c) s bs →
        split (runSteps (qwriteData2File maxSize) s bs).1 c
          = Rolling.writeAll maxSize (split s c) (inputs c bs)) := by
  -- on the buffers; those of other channels change neither side
  induction bs generalizing s with
  | nil => exact ⟨Iff.rfl, fun _ => rfl⟩
  | cons b bs ih =>
      have hwritten' : ∀ b' ∈ bs, b'.channel = c → b'.Written := fun b' hb' => hwritten b' (List.mem_cons_of_mem _ hb')
      by_cases hc : b.channel = c
      · subst hc
        have hb := hwritten b List.mem_cons_self rfl
        rw [inputs_cons, List.flatten_cons, List.length_append, ← Nat.add_assoc] at hfits
        have hhere : (s.size b.channel + b.data.length) / mib < 2 ^ 32 :=
          Nat.lt_of_le_of_lt (Nat.div_le_div_right (Nat.le_add_right _ _)) hfits
        have hsize : (qwriteData2File maxSize s b).1.size b.channel = s.size b.channel + b.data.length :=
          size_qwriteData2File hb h.fd_ne
        have hrest := fun hok : StepOk maxSize b.channel s b =>
          ih _ (h.step hb hhere hok).1 hwritten' (by rw [hsize]; exact hfits)
        refine ⟨?_, fun hok => ?_⟩
        · rw [Along, Along, h.closesFile_iff hb hhere]
          exact and_congr_right fun hok => (hrest hok).1
        · rw [runSteps_cons, prepend_fst, (hrest hok.1).2 hok.2, (h.step hb hhere hok.1).2, inputs_cons]
          rfl
      · obtain ⟨hsize, hsplit⟩ : (qwriteData2File maxSize s b).1.size c = s.size c ∧
            split (qwriteData2File maxSize s b).1 c = split s c := qwriteData2File_other hc
        rw [inputs_cons_of_ne hc] at hfits ⊢
        have hcloses : ClosesFile maxSize c s b := fun hhere => absurd hhere hc
        have hstep : StepOk maxSize c s b := stepOk_of_other hc
        obtain ⟨hiff, heq⟩ := ih _ (h.other (Ne.symm hc)) hwritten' (by rw [hsize]; exact hfits)
        refine ⟨?_, fun hok => ?_⟩
        · rw [Along, Along, and_iff_right hcloses, and_iff_right hstep, hiff]
        · rw [runSteps_cons, prepend_fst, heq hok.2, hsplit]

/-- At the start no file is open. -/
theorem channelInv_filesStart (maxSize : Nat) (c : Channel) : ChannelInv maxSize c filesStart :=
  ⟨fun h => Fd.noConfusion h, fun _ => rfl, fun hne => absurd rfl hne⟩

/-- **When a channel is independent of the others**: in both runs, before its first file is closed, a file of QDSS or
ADPL only gets too long when the first channel has got a MiB, and from then on every buffer of the channel fills a file
by itself. -/
theorem qwriteData2File_independent_iff (maxSize : Nat) (c : Channel) (bs bs' : List Buffer)
    (hsame : inputs c bs = inputs c bs') (hwritten : ∀ b ∈ bs, b.channel = c → b.Written)
    (hwritten' : ∀ b ∈ bs', b.channel = c → b.Written) (hfits : (inputs c bs).flatten.length / mib < 2 ^ 32) :
    Independent maxSize c bs bs' ↔
      Along (qwriteData2File maxSize) (StepOk maxSize c) filesStart bs ∧
        Along (qwriteData2File maxSize) (StepOk maxSize c) filesStart bs' := by
  have hstart : filesStart.size c = 0 := rfl
  obtain ⟨hiff, hsplit⟩ := along_closesFile_iff bs filesStart (channelInv_filesStart maxSize c) hwritten
    (by rw [hstart, Nat.zero_add]; exact hfits)
  obtain ⟨hiff', hsplit'⟩ := along_closesFile_iff bs' filesStart (channelInv_filesStart maxSize c) hwritten'
    (by rw [hstart, Nat.zero_add, ← hsame]; exact hfits)
  constructor
  · exact fun h => ⟨hiff.mp h.closes, hiff'.mp h.closes'⟩
  · rintro ⟨hok, hok'⟩
    refine ⟨hiff.mpr hok, hiff'.mpr hok', ?_⟩
    rw [hsplit hok, hsplit' hok', hsame]

/-- A channel that has got no more than a file may have has closed none, and no counter does harm. -/
theorem run_short (bs : List Buffer) (s : LogFiles) (h : ChannelInv maxSize c s) (hnil : s.closed c = [])
    (hwritten : ∀ b ∈ bs, b.channel = c → b.Written)
    (hshort : (s.size c + (inputs c bs).flatten.length) / mib ≤ maxSize) (hmax : maxSize < 2 ^ 32) :
    Along (qwriteData2File maxSize) (StepOk maxSize c) s bs ∧
      (runSteps (qwriteData2File maxSize) s bs).1.closed c = [] ∧
      (runSteps (qwriteData2File maxSize) s bs).1.size c = s.size c + (inputs c bs).flatten.length := by
  induction bs generalizing s with
  | nil => exact ⟨trivial, hnil, rfl⟩
  | cons b bs ih =>
      have hwritten' : ∀ b' ∈ bs, b'.channel = c → b'.Written := fun b' hb' => hwritten b' (List.mem_cons_of_mem _ hb')
      by_cases hc : b.channel = c
      · subst hc
        have hb := hwritten b List.mem_cons_self rfl
        rw [inputs_cons, List.flatten_cons, List.length_append, ← Nat.add_assoc] at hshort ⊢
        have hhere : (s.size b.channel + b.data.length) / mib ≤ maxSize :=
          Nat.le_trans (Nat.div_le_div_right (Nat.le_add_right _ _)) hshort
        have hfits := Nat.lt_of_le_of_lt hhere hmax
        have hok : StepOk maxSize b.channel s b :=
          ⟨fun _ _ hlong => absurd hlong (Nat.not_lt.mpr hhere), fun _ hne => absurd hnil hne⟩
        have hsize : (qwriteData2File maxSize s b).1.size b.channel = s.size b.channel + b.data.length :=
          size_qwriteData2File hb h.fd_ne
        have hclosed : (qwriteData2File maxSize s b).1.closed b.channel = [] := by
          by_contra hne
          rw [← hnil] at hne
          rw [← ne_eq, closed_ne_iff hb h.fd_ne, wholeMiB_addSize hfits] at hne
          exact absurd hne.1 (Nat.not_lt.mpr hhere)
        rw [← hsize] at hshort ⊢
        obtain ⟨hrest, hrun⟩ := ih _ (h.step hb hfits hok).1 hclosed hwritten' hshort
        exact ⟨⟨hok, hrest⟩, hrun⟩
      · obtain ⟨hsize, hsplit⟩ : (qwriteData2File maxSize s b).1.size c = s.size c ∧
            split (qwriteData2File maxSize s b).1 c = split s c := qwriteData2File_other hc
        have hclosed : (qwriteData2File maxSize s b).1.closed c = [] := (Rolling.mk.inj hsplit).1.trans hnil
        rw [inputs_cons_of_ne hc, ← hsize] at hshort ⊢
        obtain ⟨hrest, hrun⟩ := ih _ (h.other (Ne.symm hc)) hclosed hwritten' hshort
        exact ⟨⟨stepOk_of_other hc, hrest⟩, hrun⟩

/-- The counter of a channel that gets nothing stays as it is. -/
theorem size_runSteps_other (maxSize : Nat) (bs : List Buffer) (s : LogFiles) (hother : ∀ b ∈ bs, b.channel ≠ c) :
    (runSteps (qwriteData2File maxSize) s bs).1.size c = s.size c := by
  induction bs generalizing s with
  | nil => rfl
  | cons b bs ih =>
      rw [runSteps_cons, prepend_fst, ih _ fun b' hb' => hother b' (List.mem_cons_of_mem _ hb')]
      exact (qwriteData2File_other (hother b List.mem_cons_self)).1

/-- A buffer that is written in full. -/
def Buffer.full (c : Channel) (data : List UInt8) : Buffer := ⟨c, data, true, some data.length⟩

theorem written_full (c : Channel) (data : List UInt8) : (Buffer.full c data).Written := ⟨rfl, rfl⟩

/-- Once the first channel has a MiB, buffers that fill a file by themselves do no harm. -/
theorem along_stepOk_of_wholeFiles (bs : List Buffer) (s : LogFiles) (hgate : mib ≤ s.size .qxdm)
    (hwhole : ∀ b ∈ bs, b.channel = c → maxSize < b.data.length / mib) :
    Along (qwriteData2File maxSize) (StepOk maxSize c) s bs := by
  induction bs generalizing s with
  | nil => trivial
  | cons b bs ih =>
      have hgrows : mib ≤ (qwriteData2File maxSize s b).1.size .qxdm := by
        rw [qwriteData2File_eq]
        exact Nat.le_trans hgate (size_le_write2File maxSize s b .qxdm)
      exact ⟨⟨fun _ _ _ => Or.inr hgate, fun hc _ => hwhole b List.mem_cons_self hc⟩,
        ih _ hgrows fun b' hb' => hwhole b' (List.mem_cons_of_mem b hb')⟩

/-- So many MiB of one byte, which nothing should write out. -/
@[irreducible] def mibs (c : Channel) (n : Nat) (b : UInt8) : Buffer := .full c (List.replicate (n * mib) b)

@[simp] theorem mibs_channel (c : Channel) (n : Nat) (b : UInt8) : (mibs c n b).channel = c := by
  rw [mibs, Buffer.full]

@[simp] theorem full_channel (c : Channel) (data : List UInt8) : (Buffer.full c data).channel = c := rfl

theorem length_mibs (c : Channel) (n : Nat) (b : UInt8) : (mibs c n b).data.length = n * mib := by
  rw [mibs, Buffer.full, List.length_replicate]

theorem written_mibs (c : Channel) (n : Nat) (b : UInt8) : (mibs c n b).Written := by
  rw [mibs]
  exact written_full c _

/-- One MiB does not fill a file, more do. -/
theorem one_lt_mibs (c : Channel) {n : Nat} (hn : 1 < n) (b : UInt8) : 1 < (mibs c n b).data.length / mib := by
  rw [length_mibs, Nat.mul_div_cancel n (by decide : 0 < mib)]
  exact hn

/-- A MiB for the first channel, then two files for QDSS. -/
def twoFiles : List Buffer := [mibs .qxdm 1 9, mibs .qdss 2 1, mibs .qdss 3 2]

/-- The same for QDSS, with buffers of the other channels in between. -/
def twoFilesAmongOthers : List Buffer :=
  [mibs .qxdm 1 9, .full .adpl [7], mibs .qdss 2 1, mibs .qxdm 3 8, .full .adpl [], mibs .qdss 3 2]

/-- The channel of QDSS gets what fills two files. -/
structure FillsTwoFiles (bs : List Buffer) : Prop where
  inputs_eq : inputs .qdss bs = [(mibs .qdss 2 1).data, (mibs .qdss 3 2).data]
  written : ∀ b ∈ bs, b.channel = .qdss → b.Written
  ok : Along (qwriteData2File 1) (StepOk 1 .qdss) filesStart bs

/-- The first channel has a MiB, and every buffer of QDSS fills a file. -/
theorem fillsTwoFiles (rest : List Buffer)
    (hinputs : inputs .qdss rest = [(mibs .qdss 2 1).data, (mibs .qdss 3 2).data])
    (hfull : ∀ b ∈ rest, b.channel = .qdss → b = mibs .qdss 2 1 ∨ b = mibs .qdss 3 2) :
    FillsTwoFiles (mibs .qxdm 1 9 :: rest) where
  inputs_eq := by
    rw [inputs_cons_of_ne (by simp)]
    exact hinputs
  written b hb hc := by
    rcases List.mem_cons.mp hb with rfl | hb
    · exact written_mibs _ _ _
    · rcases hfull b hb hc with rfl | rfl
      · exact written_mibs _ _ _
      · exact written_mibs _ _ _
  ok := by
    refine ⟨stepOk_of_other (by simp), along_stepOk_of_wholeFiles rest _ ?_ fun b hb hc => ?_⟩
    · have hsize : (qwriteData2File 1 filesStart (mibs .qxdm 1 9)).1.size (mibs .qxdm 1 9).channel
          = filesStart.size (mibs .qxdm 1 9).channel + (mibs .qxdm 1 9).data.length :=
        size_qwriteData2File (written_mibs _ _ _) (by simp [filesStart])
      rw [mibs_channel, length_mibs, Nat.one_mul] at hsize
      rw [hsize]
      exact Nat.le_add_left _ _
    · rcases hfull b hb hc with rfl | rfl
      · exact one_lt_mibs _ (by decide) _
      · exact one_lt_mibs _ (by decide) _

/-- A buffer that fills a file by itself. -/
theorem Rolling.write_wholeFile (closed : List (List UInt8)) {data : List UInt8} (h : maxSize < data.length / mib) :
    Rolling.write maxSize ⟨closed, []⟩ data = ⟨closed ++ [data], []⟩ := by
  rw [Rolling.write, if_pos (by rwa [List.nil_append]), List.nil_append]

/-- Two runs in which QDSS gets the same two buffers, each of which fills a file. -/
theorem qwriteData2File_independent_twoFiles :
    Independent 1 .qdss twoFiles twoFilesAmongOthers ∧
      split (runSteps (qwriteData2File 1) filesStart twoFilesAmongOthers).1 .qdss
        = ⟨[(mibs .qdss 2 1).data, (mibs .qdss 3 2).data], []⟩ := by
  have htwo : FillsTwoFiles twoFiles := fillsTwoFiles _ (by simp [inputs]) (by simp)
  have hothers : FillsTwoFiles twoFilesAmongOthers := fillsTwoFiles _ (by simp [inputs]) (by simp)
  have hlength : [(mibs .qdss 2 1).data, (mibs .qdss 3 2).data].flatten.length / mib < 2 ^ 32 := by
    rw [List.flatten_cons, List.flatten_singleton, List.length_append, length_mibs, length_mibs, ← Nat.add_mul,
      Nat.mul_div_cancel _ (by decide : 0 < mib)]
    decide
  refine ⟨(qwriteData2File_independent_iff 1 .qdss _ _ (htwo.inputs_eq.trans hothers.inputs_eq.symm) htwo.written
    hothers.written (by rw [htwo.inputs_eq]; exact hlength)).mpr ⟨htwo.ok, hothers.ok⟩, ?_⟩
  have hzero : filesStart.size .qdss = 0 := rfl
  have hstart : split filesStart .qdss = ⟨[], []⟩ := rfl
  obtain ⟨-, hsplit⟩ := along_closesFile_iff twoFilesAmongOthers filesStart (channelInv_filesStart 1 .qdss)
    hothers.written (by rw [hothers.inputs_eq, hzero, Nat.zero_add]; exact hlength)
  rw [hsplit hothers.ok, hothers.inputs_eq, hstart, Rolling.writeAll, List.foldl_cons, List.foldl_cons,
    List.foldl_nil, Rolling.write_wholeFile [] (one_lt_mibs .qdss (by decide) 1),
    Rolling.write_wholeFile _ (one_lt_mibs .qdss (by decide) 2), List.nil_append, List.singleton_append]

/-- A KiB on the channel of QDSS. -/
def kib : Buffer := .full .qdss (List.replicate 1024 0)

theorem length_inputs_kib (n : Nat) : (inputs .qdss (List.replicate n kib)).flatten.length = n * 1024 := by
  have hchannel : kib.channel = .qdss := rfl
  have hlength : kib.data.length = 1024 := List.length_replicate
  simp [inputs, hchannel, hlength]

theorem written_kib (n : Nat) : ∀ b ∈ List.replicate n kib, b.channel = .qdss → b.Written := by
  intro b hb _
  rw [List.eq_of_mem_replicate hb]
  exact written_full _ _

/-- Fewer than 2048 of them fill no file, and the counter of the first channel stays 0. -/
theorem run_kib {n : Nat} (hn : n < 2048) :
    (runSteps (qwriteData2File 1) filesStart (List.replicate n kib)).1.closed .qdss = [] ∧
      (runSteps (qwriteData2File 1) filesStart (List.replicate n kib)).1.size .qdss = n * 1024 ∧
      (runSteps (qwriteData2File 1) filesStart (List.replicate n kib)).1.size .qxdm = 0 := by
  have hzero : filesStart.size .qdss = 0 := rfl
  have hshort : (filesStart.size .qdss + (inputs .qdss (List.replicate n kib)).flatten.length) / mib ≤ 1 := by
    apply Nat.le_of_lt_succ
    apply Nat.div_lt_of_lt_mul
    rw [hzero, length_inputs_kib, mib]
    omega
  obtain ⟨-, hclosed, hsize⟩ := run_short (List.replicate n kib) filesStart (channelInv_filesStart 1 .qdss) rfl
    (written_kib n) hshort (by simp)
  have hother : ∀ b ∈ List.replicate n kib, b.channel ≠ .qxdm := by
    intro b hb
    have hchannel : kib.channel = .qdss := rfl
    rw [List.eq_of_mem_replicate hb, hchannel]
    simp
  refine ⟨hclosed, ?_, size_runSteps_other 1 (List.replicate n kib) filesStart hother⟩
  rw [hsize, hzero, Nat.zero_add, length_inputs_kib]

/-- Two MiB on the channel of QDSS alone, in buffers of a KiB, do not close its file. -/
theorem not_qwriteData2File_independent :
    ¬ ∀ (maxSize : Nat) (c : Channel) (bs bs' : List Buffer), inputs c bs = inputs c bs' →
      (∀ b ∈ bs, b.channel = c → b.Written) → (∀ b ∈ bs', b.channel = c → b.Written) →
        (inputs c bs).flatten.length / mib < 2 ^ 32 → Independent maxSize c bs bs' := by
  intro h
  have hfits : (inputs .qdss (List.replicate 2048 kib)).flatten.length / mib < 2 ^ 32 := by
    rw [length_inputs_kib, mib]
    omega
  have hzero : filesStart.size .qdss = 0 := rfl
  have hindependent := h 1 .qdss (List.replicate 2048 kib) _ rfl (written_kib 2048) (written_kib 2048) hfits
  have hok := (along_closesFile_iff _ filesStart (channelInv_filesStart 1 .qdss) (written_kib 2048)
    (by rw [hzero, Nat.zero_add]; exact hfits)).1.mp hindependent.closes
  -- the state in front of the last buffer
  obtain ⟨hclosed, hsize, hfirst⟩ := run_kib (n := 2047) (by omega)
  have hkib : kib.data.length = 1024 := List.length_replicate
  rw [List.replicate_succ', along_append] at hok
  have hlong : 1 < ((runSteps (qwriteData2File 1) filesStart (List.replicate 2047 kib)).1.size .qdss
      + kib.data.length) / mib := by
    rw [hsize, hkib, mib]
    omega
  rcases hok.2.1.first rfl hclosed hlong with hqxdm | hgate
  · exact absurd hqxdm (by simp)
  · rw [hfirst, mib] at hgate
    omega

end Run

end QLog.QFile
