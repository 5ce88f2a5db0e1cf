import Mathlib.Data.List.Dedup
import Mathlib.Logic.Function.Basic
import QLog.Library.Transducer
import QLog.Rotation.FileNames

/-! # The TCP log receiver

`qWrite2File` appends what has come on a channel to the channel's file and starts a new one when the channel has got
more bytes than a file may have. The counter it looks at is never set back, what is written for the channels of QDSS
and ADPL is as long as a pointer, and a file that is created twice in a second is created empty.

The channels share nothing but the disk, and the ends of their names keep their files apart. -/

namespace QLog.QServer

open Library Rotation

/-- The three channels, by `flag`. -/
inductive Channel
  | dm
  | qdss
  | adpl
deriving DecidableEq

/-- `g_qserver` -/
structure Config where
  filePath : Name
  fileSize : Nat

/-- How the names of a channel end. -/
def suffix : Channel → Name
  | .dm => ".qmdl".toList
  | .qdss => "_qdss.bin".toList
  | .adpl => ".adplv".toList

/-- The name that `initFile` makes. The path is used where it is empty. -/
def fileName (cfg : Config) (c : Channel) (now : Tm) : Name :=
  (if cfg.filePath = [] then cfg.filePath ++ ['/'] else ['.', '/']) ++ (qlogTimeName 1 now).take 80 ++ suffix c

/-- The counters and the files of the receiver. -/
structure Receiver where
  /-- `file_fds`, as the names of the open files -/
  fileFds : Channel → Name
  /-- `dm_data_len`, `qdss_data_len` and `adpl_data_len` -/
  dataLen : Channel → Nat
  /-- the files that a channel has created, in order -/
  created : Channel → List Name
  disk : Name → List UInt8

/-- `initFile` -/
def initFile (cfg : Config) (c : Channel) (now : Tm) (s : Receiver) : Receiver where
  fileFds := Function.update s.fileFds c (fileName cfg c now)
  dataLen := s.dataLen
  created := Function.update s.created c (s.created c ++ [fileName cfg c now])
  disk := Function.update s.disk (fileName cfg c now) []

/-- A call of `qWrite2File`: what one `read` has brought, what stands behind it in `buffer`, and the time. -/
structure Received where
  channel : Channel
  data : List UInt8
  behind : List UInt8
  now : Tm
  data_ne : data ≠ []
  eight_le : 8 ≤ data.length + behind.length

/-- What is written: the data, or `sizeof(buf)` bytes. -/
def Received.written (r : Received) : List UInt8 :=
  match r.channel with
  | .dm => r.data
  | .qdss => (r.data ++ r.behind).take 8
  | .adpl => (r.data ++ r.behind).take 8

/-- `write`, and the counter. -/
def writeData (r : Received) (s : Receiver) : Receiver where
  fileFds := s.fileFds
  dataLen := Function.update s.dataLen r.channel (s.dataLen r.channel + r.written.length)
  created := s.created
  disk := Function.update s.disk (s.fileFds r.channel) (s.disk (s.fileFds r.channel) ++ r.written)

/-- `qWrite2File`, where the write succeeds in full: the receiver, and the files that are created. -/
def qWrite2File (cfg : Config) (s : Receiver) (r : Received) : Receiver × List Name :=
  -- the counter is that of all files of the channel so far
  if cfg.fileSize < (writeData r s).dataLen r.channel then
    (initFile cfg r.channel r.now (writeData r s), [fileName cfg r.channel r.now])
  else (writeData r s, [])

/-- The receiver behind `qSocketServerHandle`, which creates the first files one after the other. -/
def serverStart (cfg : Config) (disk : Name → List UInt8) (now : Channel → Tm) : Receiver :=
  initFile cfg .adpl (now .adpl) <| initFile cfg .qdss (now .qdss) <| initFile cfg .dm (now .dm)
    { fileFds := fun _ => [], dataLen := fun _ => 0, created := fun _ => [], disk := disk }

/-! ## What is kept -/

/-- The contents of the files of a channel, in the order they were created in. -/
def files (s : Receiver) (c : Channel) : List (List UInt8) := (s.created c).dedup.map s.disk

/-- What has come on a channel. -/
def received (c : Channel) (rs : List Received) : List UInt8 := (rs.filter (·.channel = c)).flatMap (·.data)

/-- A new file is started exactly if the one of the channel gets longer than it may be. -/
def StartsFile (cfg : Config) (s : Receiver) (r : Received) : Prop :=
  (qWrite2File cfg s r).2 ≠ [] ↔ cfg.fileSize < (s.disk (s.fileFds r.channel) ++ r.written).length

/-- **Nothing is lost**: at any time the files of every channel hold what has come on it, in order, and new files are
started when they have to be. -/
structure LosesNothing (cfg : Config) (s : Receiver) (rs : List Received) : Prop where
  kept : ∀ front, front <+: rs → ∀ c, (files (runSteps (qWrite2File cfg) s front).1 c).flatten = received c front
  starts : Along (qWrite2File cfg) (StartsFile cfg) s rs

/-- A step that loses nothing: it writes as many bytes as have come, the counter is that of the open file, and a new
file gets a name of its own. -/
structure StepOk (cfg : Config) (s : Receiver) (r : Received) : Prop where
  /-- what is written is as long as what has come -/
  size : r.channel = .dm ∨ r.data.length = 8
  /-- the counter is still that of the open file, or the file gets too long anyway -/
  counter : (s.created r.channel).length = 1 ∨ cfg.fileSize < r.data.length
  /-- a new file does not have the name of another -/
  name : cfg.fileSize < s.dataLen r.channel + r.data.length → fileName cfg r.channel r.now ∉ s.created r.channel

/-! ## The parts of a step -/

section Parts

variable (cfg : Config) (s : Receiver) (r : Received) (c : Channel) (now : Tm)

@[simp] theorem writeData_fileFds : (writeData r s).fileFds = s.fileFds := rfl

@[simp] theorem writeData_created : (writeData r s).created = s.created := rfl

@[simp] theorem writeData_dataLen :
    (writeData r s).dataLen r.channel = s.dataLen r.channel + r.written.length :=
  Function.update_self _ _ _

@[simp] theorem writeData_disk :
    (writeData r s).disk (s.fileFds r.channel) = s.disk (s.fileFds r.channel) ++ r.written :=
  Function.update_self _ _ _

theorem writeData_disk_of_ne {n : Name} (hn : n ≠ s.fileFds r.channel) : (writeData r s).disk n = s.disk n :=
  Function.update_of_ne hn _ _

@[simp] theorem initFile_fileFds : (initFile cfg c now s).fileFds c = fileName cfg c now :=
  Function.update_self _ _ _

@[simp] theorem initFile_created : (initFile cfg c now s).created c = s.created c ++ [fileName cfg c now] :=
  Function.update_self _ _ _

@[simp] theorem initFile_disk : (initFile cfg c now s).disk (fileName cfg c now) = [] :=
  Function.update_self _ _ _

theorem initFile_disk_of_ne {n : Name} (hn : n ≠ fileName cfg c now) : (initFile cfg c now s).disk n = s.disk n :=
  Function.update_of_ne hn _ _

/-- A new file leaves those of other names alone. -/
theorem initFile_disk_of_fresh {names : List Name} (hfresh : fileName cfg c now ∉ names) :
    ∀ n ∈ names, (initFile cfg c now s).disk n = s.disk n := by
  intro n hn
  apply initFile_disk_of_ne
  rintro rfl
  exact hfresh hn

end Parts

/-! ## Names -/

/-- The last character of a name tells the channel. -/
theorem channel_eq_of_suffix {c c' : Channel} {n : Name} (h : suffix c <:+ n) (h' : suffix c' <:+ n) : c = c' := by
  have hlast : ∀ c : Channel, suffix c <:+ n → n.getLast? = (suffix c).getLast? := by
    rintro c ⟨front, rfl⟩
    rw [List.getLast?_append]
    cases c <;> rfl
  have hsame := (hlast c h).symm.trans (hlast c' h')
  revert hsame
  cases c <;> cases c' <;> decide

theorem suffix_fileName (cfg : Config) (c : Channel) (now : Tm) : suffix c <:+ fileName cfg c now :=
  List.suffix_append _ _

/-- Creating a file again moves it behind the others. -/
theorem dedup_append_singleton {l : List Name} (n : Name) (hl : l.Nodup) :
    (l ++ [n]).dedup = l.filter (· ≠ n) ++ [n] := by
  -- `dedup` keeps the last of two equal names
  induction l with
  | nil => rfl
  | cons m l ih =>
      obtain ⟨hm, hl⟩ := List.nodup_cons.mp hl
      rw [List.cons_append]
      by_cases hmn : m = n
      · rw [List.dedup_cons_of_mem (by simp [hmn]), ih hl]
        simp [hmn]
      · rw [List.dedup_cons_of_notMem (by simp [hm, hmn]), ih hl]
        simp [hmn]

/-- Without one of the files its bytes are missing. -/
theorem length_flatMap_filter {n : Name} {l : List Name} (hl : l.Nodup) (hn : n ∈ l) (disk : Name → List UInt8) :
    ((l.filter (· ≠ n)).flatMap disk).length + (disk n).length = (l.flatMap disk).length := by
  induction l with
  | nil => exact absurd hn List.not_mem_nil
  | cons m l ih =>
      obtain ⟨hm, hl⟩ := List.nodup_cons.mp hl
      by_cases hmn : m = n
      · have hrest : l.filter (· ≠ n) = l := by
          rw [List.filter_eq_self]
          intro k hk
          have hkn : k ≠ n := fun hkn => hm (hmn ▸ hkn ▸ hk)
          simp [hkn]
        rw [List.filter_cons_of_neg (by simp [hmn]), hrest, List.flatMap_cons, List.length_append, hmn, Nat.add_comm]
      · have hn : n ∈ l := (List.mem_cons.mp hn).resolve_left (Ne.symm hmn)
        rw [List.filter_cons_of_pos (by simp [hmn]), List.flatMap_cons, List.flatMap_cons, List.length_append,
          List.length_append, Nat.add_assoc, ih hl hn]

/-- A file that is not among those that are read can change. -/
theorem flatMap_update {n : Name} {l : List Name} (hn : n ∉ l) (disk : Name → List UInt8) (bytes : List UInt8) :
    l.flatMap (Function.update disk n bytes) = l.flatMap disk := by
  apply List.flatMap_congr
  intro m hm
  have hmn : m ≠ n := fun hmn => hn (hmn ▸ hm)
  exact Function.update_of_ne hmn bytes disk

/-! ## The files of a channel -/

/-- The least that a step of the channel writes. -/
def shortest : Channel → Nat
  | .dm => 1
  | .qdss => 8
  | .adpl => 8

/-- What is known of a channel that has got these bytes, as long as nothing is lost: `old` are its files but for the
open one. -/
structure ChannelInv (cfg : Config) (s : Receiver) (c : Channel) (got : List UInt8) (old : List Name) : Prop where
  created : s.created c = old ++ [s.fileFds c]
  nodup : (s.created c).Nodup
  ends : ∀ n ∈ s.created c, suffix c <:+ n
  old_length : ∀ n ∈ old, shortest c ≤ (s.disk n).length
  contents : (s.created c).flatMap s.disk = got
  dataLen : s.dataLen c = got.length
  -- the counter has been passed once and for all
  passed : old ≠ [] → s.disk (s.fileFds c) = [] ∧ cfg.fileSize < s.dataLen c

section Step

variable {cfg : Config} {s : Receiver} {c : Channel} {got : List UInt8} {old : List Name} {r : Received}

theorem written_bounds (r : Received) :
    shortest r.channel ≤ r.written.length ∧ r.written.length < r.data.length + shortest r.channel := by
  have hpos := List.length_pos_iff.mpr r.data_ne
  have height := r.eight_le
  cases hc : r.channel
  all_goals simp only [Received.written, hc, shortest, List.length_take, List.length_append]
  all_goals omega

/-- What is written is the data exactly if it has the right length. -/
theorem written_eq_iff (r : Received) : r.written = r.data ↔ r.channel = .dm ∨ r.data.length = 8 := by
  have height := r.eight_le
  have htake : (r.data ++ r.behind).take 8 = r.data ↔ r.data.length = 8 := by
    constructor
    · intro h
      have hlength := congrArg List.length h
      rw [List.length_take, List.length_append] at hlength
      omega
    · intro h
      rw [← h, List.take_left]
  cases hc : r.channel
  all_goals simp [Received.written, hc, htake]

theorem ChannelInv.open_mem (h : ChannelInv cfg s c got old) : s.fileFds c ∈ s.created c := by
  rw [h.created]
  exact List.mem_append_right _ List.mem_cons_self

/-- A channel is left alone by what leaves its files and its counter alone. -/
theorem ChannelInv.frame {s' : Receiver} (h : ChannelInv cfg s c got old) (hfds : s'.fileFds c = s.fileFds c)
    (hlen : s'.dataLen c = s.dataLen c) (hcreated : s'.created c = s.created c)
    (hdisk : ∀ n ∈ s.created c, s'.disk n = s.disk n) : ChannelInv cfg s' c got old := by
  refine ⟨?_, ?_, ?_, ?_, ?_, ?_, ?_⟩
  · rw [hcreated, hfds, h.created]
  · rw [hcreated]
    exact h.nodup
  · rw [hcreated]
    exact h.ends
  · intro n hn
    have hmem : n ∈ s.created c := by
      rw [h.created]
      exact List.mem_append_left _ hn
    rw [hdisk n hmem]
    exact h.old_length n hn
  · rw [hcreated, List.flatMap_congr hdisk, h.contents]
  · rw [hlen, h.dataLen]
  · intro hold
    rw [hfds, hlen, hdisk _ h.open_mem]
    exact h.passed hold

/-- The other channels do not notice a step. -/
theorem ChannelInv.other (h : ChannelInv cfg s c got old) (hc : c ≠ r.channel)
    (hfd : suffix r.channel <:+ s.fileFds r.channel) : ChannelInv cfg (qWrite2File cfg s r).1 c got old := by
  have hwrite : ∀ n ∈ s.created c, (writeData r s).disk n = s.disk n := by
    intro n hn
    have hne : n ≠ s.fileFds r.channel := by
      rintro rfl
      exact hc (channel_eq_of_suffix (h.ends _ hn) hfd)
    exact writeData_disk_of_ne s r hne
  rw [qWrite2File]
  split
  · refine h.frame ?_ ?_ ?_ ?_
    · exact Function.update_of_ne hc _ _
    · exact Function.update_of_ne hc _ _
    · exact Function.update_of_ne hc _ _
    · intro n hn
      have hne : n ≠ fileName cfg r.channel r.now := by
        rintro rfl
        exact hc (channel_eq_of_suffix (h.ends _ hn) (suffix_fileName cfg r.channel r.now))
      rw [← hwrite n hn]
      exact initFile_disk_of_ne cfg _ r.channel r.now hne
  · refine h.frame rfl ?_ rfl hwrite
    exact Function.update_of_ne hc _ _

/-- What is written comes behind all that the files hold. -/
theorem ChannelInv.flatMap_writeData (h : ChannelInv cfg s r.channel got old) :
    (s.created r.channel).flatMap (writeData r s).disk = got ++ r.written := by
  have hlast : s.fileFds r.channel ∉ old := by
    have hnodup := h.nodup
    rw [h.created] at hnodup
    exact fun hmem => (List.nodup_append.mp hnodup).2.2 _ hmem _ List.mem_cons_self rfl
  have hgot := h.contents
  rw [h.created, List.flatMap_append, List.flatMap_singleton] at hgot ⊢
  rw [writeData_disk, ← hgot, writeData, flatMap_update hlast, List.append_assoc]

theorem ChannelInv.dataLen_writeData (h : ChannelInv cfg s r.channel got old) :
    (writeData r s).dataLen r.channel = got.length + r.written.length := by
  rw [writeData_dataLen, h.dataLen]

/-- Behind the write no file is shorter than what a step writes. -/
theorem ChannelInv.shortest_le (h : ChannelInv cfg s r.channel got old) {n : Name} (hn : n ∈ s.created r.channel) :
    shortest r.channel ≤ ((writeData r s).disk n).length := by
  by_cases hopen : n = s.fileFds r.channel
  · rw [hopen, writeData_disk, List.length_append]
    exact Nat.le_trans (written_bounds r).1 (Nat.le_add_left _ _)
  · rw [writeData_disk_of_ne s r hopen]
    rw [h.created, List.mem_append, List.mem_singleton] at hn
    exact h.old_length n (hn.resolve_right hopen)

/-- As long as the counter has not been passed it is the length of the one file. -/
theorem ChannelInv.length_open (h : ChannelInv cfg s c got []) : (s.disk (s.fileFds c)).length = s.dataLen c := by
  have hgot := h.contents
  rw [h.created, List.nil_append, List.flatMap_singleton] at hgot
  rw [h.dataLen, hgot]

theorem ChannelInv.length_created (h : ChannelInv cfg s c got old) : (s.created c).length = 1 ↔ old = [] := by
  rw [h.created, List.length_append, List.length_singleton, ← List.length_eq_zero_iff]
  omega

/-- A step starts a new file when it has to exactly if the counter does no harm. -/
theorem ChannelInv.startsFile_iff (h : ChannelInv cfg s r.channel got old) (hsize : r.written = r.data) :
    StartsFile cfg s r ↔ (s.created r.channel).length = 1 ∨ cfg.fileSize < r.data.length := by
  have hcounter := h.dataLen_writeData
  rw [hsize, ← h.dataLen] at hcounter
  have hnew : (qWrite2File cfg s r).2 ≠ [] ↔ cfg.fileSize < s.dataLen r.channel + r.data.length := by
    rw [qWrite2File, hcounter]
    split
    · next hlt => simp [hlt]
    · next hnot => simp [hnot]
  rw [StartsFile, hnew, hsize, List.length_append, h.length_created]
  rcases List.eq_nil_or_concat' old with rfl | ⟨front, n, rfl⟩
  · rw [h.length_open]
    simp
  · obtain ⟨hempty, hpassed⟩ := h.passed (by simp)
    rw [hempty]
    simp only [List.length_nil, Nat.zero_add, List.append_eq_nil_iff, List.cons_ne_self, and_false, false_or]
    constructor
    · intro hiff
      exact hiff.mp (by omega)
    · intro hlong
      exact ⟨fun _ => hlong, fun _ => by omega⟩

/-- What is known of the channel behind the start of a new file, when its name is new too. -/
theorem ChannelInv.newFile (h : ChannelInv cfg s r.channel got old) (hsize : r.written = r.data)
    (hpassed : cfg.fileSize < got.length + r.data.length)
    (hfresh : fileName cfg r.channel r.now ∉ s.created r.channel) :
    ChannelInv cfg (initFile cfg r.channel r.now (writeData r s)) r.channel (got ++ r.data) (s.created r.channel) := by
  have hgot := h.flatMap_writeData
  have hcounter := h.dataLen_writeData
  rw [hsize] at hgot hcounter
  have hdisk := initFile_disk_of_fresh cfg (writeData r s) r.channel r.now hfresh
  refine ⟨?_, ?_, ?_, ?_, ?_, ?_, ?_⟩
  · simp
  · simp only [initFile_created, writeData_created]
    exact List.nodup_append.mpr ⟨h.nodup, List.nodup_singleton _, fun n hn m hm hnm =>
      hfresh (List.mem_singleton.mp hm ▸ hnm ▸ hn)⟩
  · simp only [initFile_created, writeData_created]
    intro n hn
    rcases List.mem_append.mp hn with hn | hn
    · exact h.ends n hn
    · rw [List.mem_singleton.mp hn]
      exact suffix_fileName cfg r.channel r.now
  · intro n hn
    rw [hdisk n hn]
    exact h.shortest_le hn
  · rw [initFile_created, List.flatMap_append, List.flatMap_singleton, initFile_disk, List.append_nil,
      writeData_created, List.flatMap_congr hdisk, hgot]
  · rw [List.length_append]
    exact hcounter
  · intro hold
    rw [initFile_fileFds, initFile_disk]
    exact ⟨rfl, hcounter ▸ hpassed⟩

/-- What is known of the channel behind a write to the same file. -/
theorem ChannelInv.sameFile (h : ChannelInv cfg s r.channel got old) (hsize : r.written = r.data)
    (hpassed : ¬ cfg.fileSize < got.length + r.data.length) :
    ChannelInv cfg (writeData r s) r.channel (got ++ r.data) old := by
  have hgot := h.flatMap_writeData
  have hcounter := h.dataLen_writeData
  rw [hsize] at hgot hcounter
  -- the counter has not been passed before either
  have hold : old = [] := by
    by_contra hold
    have hlt := (h.passed hold).2
    rw [h.dataLen] at hlt
    omega
  refine ⟨h.created, h.nodup, h.ends, ?_, hgot, ?_, fun hne => absurd hold hne⟩
  · rw [hold]
    simp
  · rw [List.length_append]
    exact hcounter

/-- A step that does no harm keeps what is known of its channel. -/
theorem ChannelInv.step (h : ChannelInv cfg s r.channel got old) (hok : StepOk cfg s r) :
    ∃ old', ChannelInv cfg (qWrite2File cfg s r).1 r.channel (got ++ r.data) old' := by
  have hsize : r.written = r.data := (written_eq_iff r).mpr hok.size
  have hcounter := h.dataLen_writeData
  rw [hsize] at hcounter
  rw [qWrite2File, hcounter]
  by_cases hpassed : cfg.fileSize < got.length + r.data.length
  · rw [if_pos hpassed]
    refine ⟨s.created r.channel, h.newFile hsize hpassed (hok.name ?_)⟩
    rw [h.dataLen]
    exact hpassed
  · rw [if_neg hpassed]
    exact ⟨old, h.sameFile hsize hpassed⟩

/-- Where a file is created anew its bytes are missing. -/
theorem ChannelInv.length_files_of_mem (h : ChannelInv cfg s r.channel got old)
    (hmem : fileName cfg r.channel r.now ∈ s.created r.channel) :
    (files (initFile cfg r.channel r.now (writeData r s)) r.channel).flatten.length
        + ((writeData r s).disk (fileName cfg r.channel r.now)).length = got.length + r.written.length := by
  have hdisk : ∀ n ∈ (s.created r.channel).filter (· ≠ fileName cfg r.channel r.now),
      (initFile cfg r.channel r.now (writeData r s)).disk n = (writeData r s).disk n := by
    intro n hn
    apply initFile_disk_of_ne
    simpa using (List.mem_filter.mp hn).2
  have hlength := length_flatMap_filter h.nodup hmem (writeData r s).disk
  rw [h.flatMap_writeData, List.length_append] at hlength
  rw [files, ← List.flatMap_def, initFile_created, writeData_created, dedup_append_singleton _ h.nodup,
    List.flatMap_append, List.flatMap_singleton, initFile_disk, List.append_nil, List.flatMap_congr hdisk, hlength]

/-- Where it is not, the files hold what they held, and what is written. -/
theorem ChannelInv.flatten_files (h : ChannelInv cfg s r.channel got old)
    (hfresh : cfg.fileSize < (writeData r s).dataLen r.channel →
      fileName cfg r.channel r.now ∉ s.created r.channel) :
    (files (qWrite2File cfg s r).1 r.channel).flatten = got ++ r.written := by
  rw [qWrite2File]
  split
  · next hpassed =>
      have hnew := hfresh hpassed
      have hdisk := initFile_disk_of_fresh cfg (writeData r s) r.channel r.now hnew
      have hall : (s.created r.channel).filter (· ≠ fileName cfg r.channel r.now) = s.created r.channel := by
        rw [List.filter_eq_self]
        intro n hn
        have hne : n ≠ fileName cfg r.channel r.now := fun hn' => hnew (hn' ▸ hn)
        simp [hne]
      rw [files, ← List.flatMap_def, initFile_created, writeData_created, dedup_append_singleton _ h.nodup, hall,
        List.flatMap_append, List.flatMap_singleton, initFile_disk, List.append_nil, List.flatMap_congr hdisk,
        h.flatMap_writeData]
  · rw [files, ← List.flatMap_def, writeData_created, List.dedup_eq_self.mpr h.nodup, h.flatMap_writeData]

/-- A step that keeps everything does no harm. -/
theorem ChannelInv.stepOk (h : ChannelInv cfg s r.channel got old)
    (hkept : (files (qWrite2File cfg s r).1 r.channel).flatten = got ++ r.data) (hstarts : StartsFile cfg s r) :
    StepOk cfg s r := by
  -- a new file does not have the name of another, whose bytes would be missing
  have hfresh : cfg.fileSize < (writeData r s).dataLen r.channel →
      fileName cfg r.channel r.now ∉ s.created r.channel := by
    intro hpassed hmem
    have hmissing := h.length_files_of_mem hmem
    have hlong := h.shortest_le hmem
    have hshort := (written_bounds r).2
    rw [qWrite2File, if_pos hpassed] at hkept
    dsimp only at hkept
    rw [hkept, List.length_append] at hmissing
    omega
  -- and without a second file of that name the files hold what is written
  have hsize : r.written = r.data := by
    rw [h.flatten_files hfresh] at hkept
    exact List.append_cancel_left hkept
  refine ⟨(written_eq_iff r).mp hsize, (h.startsFile_iff hsize).mp hstarts, ?_⟩
  rw [← hsize, ← writeData_dataLen]
  exact hfresh

end Step

/-! ## Runs -/

/-- Every channel is in its `ChannelInv` with the bytes that it has got. -/
def ReceiverInv (cfg : Config) (s : Receiver) (got : Channel → List UInt8) : Prop :=
  ∀ c, ∃ old, ChannelInv cfg s c (got c) old

section Run

variable {cfg : Config} {s : Receiver} {got : Channel → List UInt8} {r : Received}

/-- What the channels have got behind a step. -/
def gotBehind (got : Channel → List UInt8) (r : Received) : Channel → List UInt8 :=
  fun c => if r.channel = c then got c ++ r.data else got c

theorem ReceiverInv.files_eq (h : ReceiverInv cfg s got) (c : Channel) : (files s c).flatten = got c := by
  obtain ⟨old, hc⟩ := h c
  rw [files, ← List.flatMap_def, List.dedup_eq_self.mpr hc.nodup, hc.contents]

theorem ReceiverInv.step (h : ReceiverInv cfg s got) (hok : StepOk cfg s r) :
    ReceiverInv cfg (qWrite2File cfg s r).1 (gotBehind got r) := by
  obtain ⟨hereOld, hhere⟩ := h r.channel
  intro c
  by_cases hc : r.channel = c
  · subst hc
    obtain ⟨old', hstep⟩ := hhere.step hok
    refine ⟨old', ?_⟩
    rwa [gotBehind, if_pos rfl]
  · obtain ⟨old, hother⟩ := h c
    refine ⟨old, ?_⟩
    rw [gotBehind, if_neg hc]
    exact hother.other (Ne.symm hc) (hhere.ends _ hhere.open_mem)

/-- What has come in all, from what the channels had before. -/
theorem received_cons (got : Channel → List UInt8) (r : Received) (rs : List Received) (c : Channel) :
    got c ++ received c (r :: rs) = gotBehind got r c ++ received c rs := by
  by_cases hc : r.channel = c
  · simp [received, gotBehind, hc]
  · simp [received, gotBehind, hc]

theorem keeps_of_stepOk (rs : List Received) (s : Receiver) (got : Channel → List UInt8)
    (h : ReceiverInv cfg s got) (hok : Along (qWrite2File cfg) (StepOk cfg) s rs) :
    (∀ front, front <+: rs → ∀ c,
        (files (runSteps (qWrite2File cfg) s front).1 c).flatten = got c ++ received c front) ∧
      Along (qWrite2File cfg) (StartsFile cfg) s rs := by
  -- on the buffers; the invariant holds behind each of them
  induction rs generalizing s got with
  | nil =>
      refine ⟨fun front hfront c => ?_, trivial⟩
      rw [List.prefix_nil.mp hfront]
      exact (h.files_eq c).trans (List.append_nil _).symm
  | cons r rs ih =>
      obtain ⟨hkept, hstarts⟩ := ih _ _ (h.step hok.1) hok.2
      refine ⟨fun front hfront c => ?_, ?_, hstarts⟩
      · cases front with
        | nil => exact (h.files_eq c).trans (List.append_nil _).symm
        | cons r' front =>
            obtain ⟨hr, hrest⟩ := List.cons_prefix_cons.mp hfront
            rw [hr, runSteps_cons, prepend_fst, hkept front hrest c, received_cons]
      · obtain ⟨old, hhere⟩ := h r.channel
        exact (hhere.startsFile_iff ((written_eq_iff r).mpr hok.1.size)).mpr hok.1.counter

theorem stepOk_of_keeps (rs : List Received) (s : Receiver) (got : Channel → List UInt8)
    (h : ReceiverInv cfg s got)
    (hkept : ∀ front, front <+: rs → ∀ c,
      (files (runSteps (qWrite2File cfg) s front).1 c).flatten = got c ++ received c front)
    (hstarts : Along (qWrite2File cfg) (StartsFile cfg) s rs) : Along (qWrite2File cfg) (StepOk cfg) s rs := by
  induction rs generalizing s got with
  | nil => trivial
  | cons r rs ih =>
      have hok : StepOk cfg s r := by
        obtain ⟨old, hhere⟩ := h r.channel
        have hone := hkept [r] (List.cons_prefix_cons.mpr ⟨rfl, List.nil_prefix⟩) r.channel
        rw [runSteps_singleton, received_cons] at hone
        apply hhere.stepOk ?_ hstarts.1
        simpa [gotBehind, received] using hone
      refine ⟨hok, ih _ _ (h.step hok) (fun front hfront c => ?_) hstarts.2⟩
      have hmore := hkept (r :: front) (List.cons_prefix_cons.mpr ⟨rfl, hfront⟩) c
      rwa [runSteps_cons, prepend_fst, received_cons] at hmore

end Run

/-- Behind the start every channel has an empty file. -/
theorem receiverInv_serverStart (cfg : Config) (disk : Name → List UInt8) (now : Channel → Tm) :
    ReceiverInv cfg (serverStart cfg disk now) fun _ => [] := by
  intro c
  have hfds : (serverStart cfg disk now).fileFds c = fileName cfg c (now c) := by
    cases c <;> rfl
  have hcreated : (serverStart cfg disk now).created c = [fileName cfg c (now c)] := by
    cases c <;> rfl
  have hdisk : (serverStart cfg disk now).disk (fileName cfg c (now c)) = [] := by
    simp only [serverStart, initFile, Function.update_apply]
    cases c <;> simp
  refine ⟨[], ?_, ?_, ?_, ?_, ?_, ?_, ?_⟩
  · rw [hcreated, hfds, List.nil_append]
  · rw [hcreated]
    exact List.nodup_singleton _
  · rw [hcreated]
    intro n hn
    rw [List.mem_singleton.mp hn]
    exact suffix_fileName cfg c (now c)
  · exact fun n hn => absurd hn List.not_mem_nil
  · rw [hcreated, List.flatMap_singleton, hdisk]
  · rfl
  · exact fun hne => absurd rfl hne

/-- **When the receiver loses nothing**: the buffers of QDSS and ADPL have eight bytes, a channel that has started a
second file gets only buffers that fill a file each, and no name is given twice. -/
theorem qWrite2File_losesNothing_iff (cfg : Config) (disk : Name → List UInt8) (now : Channel → Tm)
    (rs : List Received) :
    LosesNothing cfg (serverStart cfg disk now) rs ↔
      Along (qWrite2File cfg) (StepOk cfg) (serverStart cfg disk now) rs := by
  have hinv := receiverInv_serverStart cfg disk now
  constructor
  · intro h
    apply stepOk_of_keeps rs _ _ hinv ?_ h.starts
    intro front hfront c
    rw [h.kept front hfront c, List.nil_append]
  · intro hok
    obtain ⟨hkept, hstarts⟩ := keeps_of_stepOk rs _ _ hinv hok
    refine ⟨fun front hfront c => ?_, hstarts⟩
    rw [hkept front hfront c, List.nil_append]

/-- A time, to the second. -/
def midnight : Tm where
  year := 2022
  mon := 2
  mday := 28
  hour := 0
  min := 0
  sec := 0
  msec := 0
  year_lt := by decide
  fields_lt := by decide

/-- Three bytes on the channel of QDSS. -/
def threeBytes : Received where
  channel := .qdss
  data := [1, 2, 3]
  behind := [0, 0, 0, 0, 0]
  now := midnight
  data_ne := by decide
  eight_le := by decide

/-- Three bytes are written as eight. -/
theorem not_qWrite2File_losesNothing :
    ¬ ∀ (cfg : Config) (disk : Name → List UInt8) (now : Channel → Tm) (rs : List Received),
      LosesNothing cfg (serverStart cfg disk now) rs := by
  intro h
  have hlost := h ⟨[], 1048576⟩ (fun _ => []) (fun _ => midnight) [threeBytes]
  have hok := stepOk_of_keeps [threeBytes] _ _ (receiverInv_serverStart _ _ _)
    (fun front hfront c => by rw [hlost.kept front hfront c, List.nil_append]) hlost.starts
  exact absurd hok.1.size (by decide)

end QLog.QServer
