import QLog.Capture.Loop

/-! # The files of a capture loop

A loop counts what the saves of its module return, and nothing else: what a save does with the bytes is its own affair.
So the functions of `qlog_ops_t` stay what they are here, whatever they are, and a journal is kept beside them: for each
set of files its number, and what the saves to it have returned.

Whatever the loop reads and however long it runs, every set of files is counted full when the next one is made, is not
saved to any more once it is, and, in a module with `logfile_init`, has the next number. -/

namespace QLog.Capture

universe u v

/-- A set of files that is made and closed together: its number, and the port and the result of each save. -/
structure LogFile where
  seq : Nat
  saves : List (Port × Nat)
  deriving DecidableEq

/-- The sets that have been closed, and the one that is open. -/
structure Journal where
  done : List LogFile
  current : Option LogFile

def Journal.files (journal : Journal) : List LogFile := journal.done ++ journal.current.toList

/-- What the saves have counted. -/
def sizeOf (saves : List (Port × Nat)) : Nat := (saves.map Prod.snd).sum

/-- A save to the open files. -/
def Journal.save (journal : Journal) (port : Port) (wc : Nat) : Journal :=
  { journal with current := journal.current.map fun f => { f with saves := f.saves ++ [(port, wc)] } }

section JournalOps

variable {σ : Type u} {ε : Type v}

/-- The functions of a module, with a journal beside them. -/
def journalOps (ops : QlogOps σ ε) : QlogOps (σ × Journal) ε where
  logfileCreate env w seq :=
    ((((ops.logfileCreate env w.1 seq).1,
      if (ops.logfileCreate env w.1 seq).2.fd ≤ 0 then w.2 else { w.2 with current := some ⟨seq, []⟩ })),
      (ops.logfileCreate env w.1 seq).2)
  logfileInit w fd seq := (ops.logfileInit w.1 fd seq, w.2)
  logfileSave env w port fd buf :=
    (((ops.logfileSave env w.1 port fd buf).1, w.2.save port (ops.logfileSave env w.1 port fd buf).2),
      (ops.logfileSave env w.1 port fd buf).2)
  qlogLogfileSave env w port fd buf :=
    (((ops.qlogLogfileSave env w.1 port fd buf).1, w.2.save port (ops.qlogLogfileSave env w.1 port fd buf).2),
      (ops.qlogLogfileSave env w.1 port fd buf).2)
  logfileClose w files := (ops.logfileClose w.1 files, ⟨w.2.files, none⟩)
  rotated w := (ops.rotated w.1, w.2)
  cleanFilter w := (ops.cleanFilter w.1, w.2)

/-- The loop and its module without the journal. -/
def unjournaled (s : Loop × σ × Journal) : Loop × σ := (s.1, s.2.1)

variable (h : Handler) (ops : QlogOps σ ε)

theorem unjournaled_finish (s : Loop) (w : σ × Journal) :
    unjournaled (finish h (journalOps ops) s w) = finish h ops s w.1 := by
  rw [finish, finish, unjournaled]
  dsimp only [journalOps]
  split_ifs <;> rfl

theorem unjournaled_openFile (s : Loop) (w : σ × Journal) (env : ε) :
    unjournaled (openFile h (journalOps ops) s w env) = openFile h ops s w.1 env := by
  rw [openFile, openFile]
  dsimp only [journalOps]
  split_ifs <;> rfl

theorem unjournaled_save (s : Loop) (w : σ × Journal) (round : Round ε) :
    ((save h (journalOps ops) s w round).1.1, (save h (journalOps ops) s w round).2) = save h ops s w.1 round := by
  rw [save, save]
  cases h.sink round.port <;> rfl

theorem unjournaled_afterSave (s : Loop) (saved : (σ × Journal) × Nat) (round : Round ε) :
    unjournaled (afterSave h (journalOps ops) s saved round) = afterSave h ops s (saved.1.1, saved.2) round := by
  rw [afterSave, afterSave]
  dsimp only
  split_ifs
  · exact unjournaled_finish h ops _ _
  · rfl
  · rfl

theorem unjournaled_readRound (s : Loop) (w : σ × Journal) (round : Round ε) :
    unjournaled (readRound h (journalOps ops) s w round) = readRound h ops s w.1 round := by
  have hopened := unjournaled_openFile h ops s w round.env
  have hloop : (openFile h (journalOps ops) s w round.env).1 = (openFile h ops s w.1 round.env).1 :=
    congrArg Prod.fst hopened
  have hworld : (openFile h (journalOps ops) s w round.env).2.1 = (openFile h ops s w.1 round.env).2 :=
    congrArg Prod.snd hopened
  rw [readRound, readRound]
  dsimp only
  split_ifs with hbuf hdump hfd hfd' hfd'
  · exact unjournaled_finish h ops _ _
  · exact unjournaled_finish h ops _ _
  · rw [unjournaled_finish, hloop, hworld]
  · exact absurd (hloop ▸ hfd) hfd'
  · exact absurd (hloop.symm ▸ hfd') hfd
  · rw [unjournaled_afterSave, unjournaled_save, hloop, hworld]

/-- The journal does not change what is run. -/
theorem unjournaled_captureStep (s : Loop × σ × Journal) (event : Event ε) :
    unjournaled (captureStep h (journalOps ops) s event) = captureStep h ops (unjournaled s) event := by
  obtain ⟨s, w⟩ := s
  cases event with
  | exit => rfl
  | test =>
      by_cases hpc : s.pc = .testing
      · by_cases hexit : s.exitRequested = true
        · rw [captureStep, if_pos hpc, if_pos hexit, unjournaled_finish]
          exact ((if_pos hpc).trans (if_pos hexit)).symm
        · rw [captureStep, if_pos hpc, if_neg hexit]
          exact ((if_pos hpc).trans (if_neg hexit)).symm
      · rw [captureStep, if_neg hpc]
        exact (if_neg hpc).symm
  | poll ready =>
      by_cases hpc : s.pc = .polling
      · by_cases hready : (ready && !s.exitRequested) = true
        · rw [captureStep, if_pos hpc, if_pos hready]
          exact ((if_pos hpc).trans (if_pos hready)).symm
        · rw [captureStep, if_pos hpc, if_neg hready, unjournaled_finish]
          exact ((if_pos hpc).trans (if_neg hready)).symm
      · rw [captureStep, if_neg hpc]
        exact (if_neg hpc).symm
  | read round =>
      by_cases hpc : s.pc = .reading
      · rw [captureStep, if_pos hpc, unjournaled_readRound]
        exact (if_pos hpc).symm
      · rw [captureStep, if_neg hpc]
        exact (if_neg hpc).symm

theorem unjournaled_captureRun (s : Loop × σ × Journal) (events : List (Event ε)) :
    unjournaled (captureRun h (journalOps ops) s events) = captureRun h ops (unjournaled s) events := by
  induction events generalizing s with
  | nil => rfl
  | cons event events ih =>
      rw [captureRun, captureRun, List.foldl_cons, List.foldl_cons, ← unjournaled_captureStep]
      exact ih _

end JournalOps

/-- Before its last save the file was not full. -/
def LogFile.Fits (logfileSize : Nat) (f : LogFile) : Prop := sizeOf f.saves.dropLast < logfileSize

/-- The file is full. -/
def LogFile.IsFull (logfileSize : Nat) (f : LogFile) : Prop := logfileSize ≤ sizeOf f.saves

/-- The files have consecutive numbers. -/
def Numbered (seq : Nat) (files : List LogFile) : Prop := ∀ i f, files[i]? = some f → f.seq = (seq + i) % 2 ^ 32

/-- The files of a run: none was full before its last save, all but the last one are full, without splitting there is
one at most, and the numbers are consecutive where there is `logfile_init`. -/
structure Filed (args : Arguments) (numbered : Bool) (seq : Nat) (files : List LogFile) : Prop where
  fits : args.donotSplit = false → ∀ f ∈ files, f.Fits args.logfileSize
  isFull : ∀ f ∈ files.dropLast, f.IsFull args.logfileSize
  one : args.donotSplit = true → files.length ≤ 1
  number : numbered = true → Numbered seq files

/-- While the loop runs, the closed files have become full by their last save, the sizes are those of the open file,
which is not full, and the next file has the next number. -/
structure Running (args : Arguments) (numbered : Bool) (seq : Nat) (s : Loop) (journal : Journal) : Prop where
  done : ∀ f ∈ journal.done, f.Fits args.logfileSize ∧ f.IsFull args.logfileSize
  one : args.donotSplit = true → journal.done = []
  closed : journal.current = none → s.files.fd = -1 ∧ s.size = fun _ => 0
  opened : ∀ f, journal.current = some f → 0 < s.files.fd ∧
    sizeOf f.saves = savelogSizeTotal s.size ∧
    (args.donotSplit = false → sizeOf f.saves < args.logfileSize)
  number : numbered = true → Numbered seq journal.files ∧ s.seq = (seq + journal.files.length) % 2 ^ 32

section Journal

variable {args : Arguments} {numbered : Bool} {seq : Nat} {s : Loop} {journal : Journal}

@[simp] theorem sizeOf_nil : sizeOf [] = 0 := rfl

theorem sizeOf_concat (saves : List (Port × Nat)) (port : Port) (wc : Nat) :
    sizeOf (saves ++ [(port, wc)]) = sizeOf saves + wc := by
  rw [sizeOf, List.map_append, List.sum_append, sizeOf]
  rfl

theorem sizeOf_dropLast_le (saves : List (Port × Nat)) : sizeOf saves.dropLast ≤ sizeOf saves := by
  rcases List.eq_nil_or_concat' saves with rfl | ⟨init, ⟨port, wc⟩, rfl⟩
  · exact Nat.le_refl _
  · rw [List.dropLast_concat, sizeOf_concat]
    exact Nat.le_add_right _ _

/-- A size counts up by what is saved. -/
theorem savelogSizeTotal_update (size : Port → Nat) (port : Port) (n : Nat) :
    savelogSizeTotal (Function.update size port (size port + n)) = savelogSizeTotal size + n := by
  rw [savelogSizeTotal, savelogSizeTotal]
  cases port <;> simp <;> omega

theorem files_some {f : LogFile} (hcurrent : journal.current = some f) : journal.files = journal.done ++ [f] := by
  rw [Journal.files, hcurrent, Option.toList_some]

theorem files_none (hcurrent : journal.current = none) : journal.files = journal.done := by
  rw [Journal.files, hcurrent, Option.toList_none, List.append_nil]

/-- The open file with one save more. -/
theorem current_save {f : LogFile} (hcurrent : journal.current = some f) (port : Port) (wc : Nat) :
    (journal.save port wc).current = some ⟨f.seq, f.saves ++ [(port, wc)]⟩ := by
  rw [Journal.save, hcurrent, Option.map_some]

theorem files_save {f : LogFile} (hcurrent : journal.current = some f) (port : Port) (wc : Nat) :
    (journal.save port wc).files = journal.done ++ [⟨f.seq, f.saves ++ [(port, wc)]⟩] :=
  files_some (current_save hcurrent port wc)

theorem numbered_concat {files : List LogFile} (h : Numbered seq files) {f : LogFile}
    (hf : f.seq = (seq + files.length) % 2 ^ 32) : Numbered seq (files ++ [f]) := by
  intro i g hg
  rcases Nat.lt_trichotomy i files.length with hi | rfl | hi
  · rw [List.getElem?_append_left hi] at hg
    exact h i g hg
  · rw [List.getElem?_concat_length] at hg
    rw [← Option.some_inj.mp hg]
    exact hf
  · rw [List.getElem?_eq_none (by rw [List.length_append]; exact hi)] at hg
    exact absurd hg.symm (Option.some_ne_none g)

theorem numbered_front {files : List LogFile} {f : LogFile} (h : Numbered seq (files ++ [f])) : Numbered seq files := by
  intro i g hg
  refine h i g ?_
  rw [List.getElem?_append_left (List.getElem?_eq_some_iff.mp hg).1]
  exact hg

/-- The numbers of the files do not change with a save. -/
theorem numbered_save {f : LogFile} (hcurrent : journal.current = some f) (port : Port) (wc : Nat)
    (h : Numbered seq journal.files) : Numbered seq (journal.save port wc).files := by
  rw [files_some hcurrent] at h
  rw [files_save hcurrent]
  refine numbered_concat (numbered_front h) ?_
  exact h journal.done.length f (List.getElem?_concat_length ..)

/-- While the loop runs, the files are as they should be. -/
theorem Running.filed (h : Running args numbered seq s journal) : Filed args numbered seq journal.files := by
  cases hcurrent : journal.current with
  | none =>
      have hfiles := files_none hcurrent
      refine ⟨fun _ f hf => ?_, fun f hf => ?_, fun hone => ?_, fun hnumbered => (h.number hnumbered).1⟩
      · rw [hfiles] at hf
        exact (h.done f hf).1
      · rw [hfiles] at hf
        exact (h.done f (List.dropLast_subset _ hf)).2
      · rw [hfiles, h.one hone]
        exact Nat.zero_le 1
  | some g =>
      have hfiles := files_some hcurrent
      obtain ⟨-, -, hlt⟩ := h.opened g hcurrent
      refine ⟨fun hsplit f hf => ?_, fun f hf => ?_, fun hone => ?_, fun hnumbered => (h.number hnumbered).1⟩
      · rw [hfiles] at hf
        rcases List.mem_append.mp hf with hf | hf
        · exact (h.done f hf).1
        · rw [List.mem_singleton.mp hf]
          exact Nat.lt_of_le_of_lt (sizeOf_dropLast_le _) (hlt hsplit)
      · rw [hfiles, List.dropLast_concat] at hf
        exact (h.done f hf).2
      · rw [hfiles, h.one hone]
        exact Nat.le_refl 1

/-- The files behind a save, which may have failed. -/
theorem Running.filed_save (h : Running args numbered seq s journal) {f : LogFile}
    (hcurrent : journal.current = some f) (port : Port) (wc : Nat) :
    Filed args numbered seq (journal.save port wc).files := by
  obtain ⟨-, -, hlt⟩ := h.opened f hcurrent
  have hfiles := files_save hcurrent port wc
  refine ⟨fun hsplit g hg => ?_, fun g hg => ?_, fun hone => ?_,
    fun hnumbered => numbered_save hcurrent port wc (h.number hnumbered).1⟩
  · rw [hfiles] at hg
    rcases List.mem_append.mp hg with hg | hg
    · exact (h.done g hg).1
    · rw [List.mem_singleton.mp hg, LogFile.Fits, List.dropLast_concat]
      exact hlt hsplit
  · rw [hfiles, List.dropLast_concat] at hg
    exact (h.done g hg).2
  · rw [hfiles, h.one hone]
    exact Nat.le_refl 1

/-- The flags and the place of a loop do not matter for its files. -/
theorem Running.of_same (h : Running args numbered seq s journal) {s' : Loop} (hfiles : s'.files = s.files)
    (hsize : s'.size = s.size) (hseq : s'.seq = s.seq) : Running args numbered seq s' journal := by
  refine ⟨h.done, h.one, fun hnone => ?_, fun f hf => ?_, fun hnumbered => ?_⟩
  · rw [hfiles, hsize]
    exact h.closed hnone
  · rw [hfiles, hsize]
    exact h.opened f hf
  · rw [hseq]
    exact h.number hnumbered

/-- A file is made, with the next number. -/
theorem Running.create (h : Running args numbered seq s journal) (hcurrent : journal.current = none)
    (hpos : 0 < args.logfileSize) {opened : Opened} (hfd : 0 < opened.fd) {n : Nat}
    (hn : numbered = true → n = (s.seq + 1) % 2 ^ 32) :
    Running args numbered seq { s with files := opened, seq := n } { journal with current := some ⟨s.seq, []⟩ } := by
  have hfiles := files_none hcurrent
  refine ⟨h.done, h.one, fun hnone => absurd hnone (Option.some_ne_none _), ?_, fun hnumbered => ?_⟩
  · rintro f ⟨⟩
    refine ⟨hfd, ?_, fun _ => hpos⟩
    dsimp only
    rw [(h.closed hcurrent).2]
    rfl
  · obtain ⟨hall, hseq⟩ := h.number hnumbered
    rw [hfiles] at hall hseq
    refine ⟨numbered_concat hall hseq, ?_⟩
    show n = (seq + (journal.done ++ [(⟨s.seq, []⟩ : LogFile)]).length) % 2 ^ 32
    rw [hn hnumbered, hseq, List.length_append, List.length_singleton]
    omega

/-- A save that leaves room in the file. -/
theorem Running.saved (h : Running args numbered seq s journal) {f : LogFile} (hcurrent : journal.current = some f)
    (port counter : Port) (wc : Nat)
    (hroom : totalFull args.logfileSize args.donotSplit
      (Function.update s.size counter (s.size counter + wc)) = false) :
    Running args numbered seq { s with size := Function.update s.size counter (s.size counter + wc) }
      (journal.save port wc) := by
  obtain ⟨hfd, hsize, -⟩ := h.opened f hcurrent
  have hsome := current_save hcurrent port wc
  have hsaved : sizeOf (f.saves ++ [(port, wc)]) =
      savelogSizeTotal (Function.update s.size counter (s.size counter + wc)) := by
    rw [savelogSizeTotal_update, sizeOf_concat, hsize]
  refine ⟨h.done, h.one, fun hnone => absurd (hsome.symm.trans hnone) (Option.some_ne_none _), fun g hg => ?_,
    fun hnumbered => ?_⟩
  · obtain rfl := Option.some_inj.mp (hsome.symm.trans hg)
    refine ⟨hfd, hsaved, fun hsplit => ?_⟩
    rw [totalFull, hsplit, Bool.not_false, Bool.and_true, decide_eq_false_iff_not, Nat.not_le] at hroom
    exact hsaved ▸ hroom
  · obtain ⟨hall, hseq⟩ := h.number hnumbered
    refine ⟨numbered_save hcurrent port wc hall, ?_⟩
    rw [files_some hcurrent, List.length_append] at hseq
    rw [files_save hcurrent, List.length_append]
    exact hseq

/-- A save that fills the file, which is closed. -/
theorem Running.savedFull (h : Running args numbered seq s journal) {f : LogFile} (hcurrent : journal.current = some f)
    (port counter : Port) (wc : Nat)
    (hreached : totalFull args.logfileSize args.donotSplit
      (Function.update s.size counter (s.size counter + wc)) = true) :
    Running args numbered seq { s with size := fun _ => 0, files := noFiles } ⟨(journal.save port wc).files, none⟩ := by
  obtain ⟨-, hsize, hlt⟩ := h.opened f hcurrent
  have hfiles := files_save hcurrent port wc
  rw [totalFull, savelogSizeTotal_update, Bool.and_eq_true_iff, decide_eq_true_iff, Bool.not_eq_true'] at hreached
  obtain ⟨hreached, hsplit⟩ := hreached
  have hnone : Journal.files ⟨(journal.save port wc).files, none⟩ = (journal.save port wc).files := files_none rfl
  refine ⟨fun g hg => ?_, fun hone => absurd (hone.symm.trans hsplit) Bool.noConfusion, fun _ => ⟨rfl, rfl⟩,
    fun g hg => absurd hg.symm (Option.some_ne_none g), fun hnumbered => ?_⟩
  · dsimp only at hg
    rw [hfiles] at hg
    rcases List.mem_append.mp hg with hg | hg
    · exact h.done g hg
    · rw [List.mem_singleton.mp hg, LogFile.Fits, List.dropLast_concat, LogFile.IsFull, sizeOf_concat]
      exact ⟨hlt hsplit, hsize.symm ▸ hreached⟩
  · obtain ⟨hall, hseq⟩ := h.number hnumbered
    rw [hnone]
    refine ⟨numbered_save hcurrent port wc hall, ?_⟩
    rw [files_some hcurrent, List.length_append] at hseq
    rw [hfiles, List.length_append]
    exact hseq

end Journal

/-! ## A step of the loop -/

section Steps

variable {σ : Type u} {ε : Type v} {args : Arguments} {h : Handler} {ops : QlogOps σ ε} {seq : Nat} {s : Loop}
  {w : σ × Journal}

/-- Behind the loop the files are the same. -/
theorem files_finish : (finish h (journalOps ops) s w).2.2.files = w.2.files := by
  have hclose : Journal.files ⟨w.2.files, none⟩ = w.2.files := files_none rfl
  rw [finish]
  dsimp only [journalOps]
  split_ifs
  · exact hclose
  · rfl
  · exact hclose
  · rfl

theorem pc_finish : (finish h (journalOps ops) s w).1.pc = .stopped := rfl

/-- The files of a loop are as they should be, and while it runs it is `Running`. -/
def Kept (args : Arguments) (numbered : Bool) (seq : Nat) (s : Loop × σ × Journal) : Prop :=
  Filed args numbered seq s.2.2.files ∧ (s.1.pc ≠ .stopped → Running args numbered seq s.1 s.2.2)

theorem Kept.finish (hfiled : Filed args h.hasInit seq w.2.files) :
    Kept args h.hasInit seq (finish h (journalOps ops) s w) := by
  refine ⟨?_, fun hpc => absurd pc_finish hpc⟩
  rw [files_finish]
  exact hfiled

theorem Kept.of_running {s : Loop × σ × Journal} (hrunning : Running args h.hasInit seq s.1 s.2.2) :
    Kept args h.hasInit seq s :=
  ⟨hrunning.filed, fun _ => hrunning⟩

/-- A set of files is made when none is open, or it cannot be made. -/
theorem Running.openFile (ops : QlogOps σ ε) (hrunning : Running args h.hasInit seq s w.2)
    (hpos : 0 < args.logfileSize) (env : ε) :
    (openFile h (journalOps ops) s w env).1.files.fd ≤ 0 ∧ (openFile h (journalOps ops) s w env).2.2 = w.2 ∨
      Running args h.hasInit seq (openFile h (journalOps ops) s w env).1 (openFile h (journalOps ops) s w env).2.2 ∧
        (openFile h (journalOps ops) s w env).2.2.current ≠ none ∧
        0 < (openFile h (journalOps ops) s w env).1.files.fd := by
  rw [Capture.openFile]
  cases hcurrent : w.2.current with
  | some f =>
      obtain ⟨hfd, -⟩ := hrunning.opened f hcurrent
      rw [if_neg (by omega)]
      refine Or.inr ⟨hrunning, ?_, hfd⟩
      rw [hcurrent]
      exact Option.some_ne_none f
  | none =>
      rw [if_pos (hrunning.closed hcurrent).1]
      dsimp only [journalOps]
      by_cases hcreated : (ops.logfileCreate env w.1 s.seq).2.fd ≤ 0
      · rw [if_pos hcreated, if_pos hcreated]
        exact Or.inl ⟨hcreated, rfl⟩
      · rw [if_neg hcreated, if_neg hcreated]
        have hfd := Int.not_le.mp hcreated
        cases hinit : h.hasInit with
        | true =>
            rw [hinit] at hrunning
            exact Or.inr ⟨hrunning.create hcurrent hpos hfd fun _ => rfl, Option.some_ne_none _, hfd⟩
        | false =>
            rw [hinit] at hrunning
            exact Or.inr ⟨hrunning.create hcurrent hpos hfd fun htrue => absurd htrue Bool.false_ne_true,
              Option.some_ne_none _, hfd⟩

/-- A save is in the journal, if the port has a file. -/
theorem save_journal (h : Handler) (ops : QlogOps σ ε) (s : Loop) (w : σ × Journal) (round : Round ε) :
    save h (journalOps ops) s w round = (w, 0) ∨
      (save h (journalOps ops) s w round).1.2 =
        w.2.save round.port (save h (journalOps ops) s w round).2 := by
  rw [Capture.save]
  cases h.sink round.port with
  | ops file => exact Or.inr rfl
  | plain file => exact Or.inr rfl
  | nowhere => exact Or.inl rfl

/-- A round behind a save, in a loop that goes on or one that ends. -/
theorem Running.afterSave (hrunning : Running args h.hasInit seq s w.2)
    (hfull : h.full = totalFull args.logfileSize args.donotSplit) {f : LogFile} (hcurrent : w.2.current = some f)
    {round : Round ε} (hbuf : round.buf ≠ []) :
    Kept args h.hasInit seq (afterSave h (journalOps ops) s (save h (journalOps ops) s w round) round) := by
  have hlength : 0 < round.buf.length := List.length_pos_of_ne_nil hbuf
  rw [Capture.afterSave, hfull]
  rcases save_journal h ops s w round with hsave | hsave
  -- a port that is saved nowhere ends the loop
  · rw [hsave, if_pos (Nat.ne_of_lt hlength)]
    exact Kept.finish hrunning.filed
  · split_ifs with hwc hreached
    · refine Kept.finish ?_
      rw [hsave]
      exact hrunning.filed_save hcurrent _ _
    · refine Kept.of_running ?_
      show Running args h.hasInit seq _ ⟨(save h (journalOps ops) s w round).1.2.files, none⟩
      rw [hsave]
      exact (hrunning.savedFull hcurrent _ _ _ hreached).of_same rfl rfl rfl
    · refine Kept.of_running ?_
      dsimp only
      rw [hsave]
      exact (hrunning.saved hcurrent _ _ _ (Bool.not_eq_true _ ▸ hreached)).of_same rfl rfl rfl

/-- One step of a loop. -/
theorem Kept.step (hfull : h.full = totalFull args.logfileSize args.donotSplit) (hpos : 0 < args.logfileSize)
    {s : Loop × σ × Journal} (hkept : Kept args h.hasInit seq s) (event : Event ε) :
    Kept args h.hasInit seq (captureStep h (journalOps ops) s event) := by
  obtain ⟨s, w⟩ := s
  have hrunning : ∀ {pc}, s.pc = pc → pc ≠ .stopped → Running args h.hasInit seq s w.2 :=
    fun hpc hne => hkept.2 (hpc ▸ hne)
  cases event with
  | exit => exact ⟨hkept.1, fun hpc => (hkept.2 hpc).of_same rfl rfl rfl⟩
  | test =>
      rw [captureStep]
      split_ifs with hpc hexit
      · exact Kept.finish hkept.1
      · exact ⟨hkept.1, fun _ => (hrunning hpc Pc.noConfusion).of_same rfl rfl rfl⟩
      · exact hkept
  | poll ready =>
      rw [captureStep]
      split_ifs with hpc hready
      · exact ⟨hkept.1, fun _ => (hrunning hpc Pc.noConfusion).of_same rfl rfl rfl⟩
      · exact Kept.finish hkept.1
      · exact hkept
  | read round =>
      rw [captureStep]
      split_ifs with hpc
      · have hrun := hrunning hpc Pc.noConfusion
        rw [readRound]
        dsimp only
        split_ifs with hbuf hdump hcreated
        · exact Kept.finish hkept.1
        · exact Kept.finish hkept.1
        -- a file that cannot be made ends the loop
        · rcases hrun.openFile ops hpos round.env with ⟨-, hsame⟩ | ⟨-, -, hfd⟩
          · refine Kept.finish ?_
            rw [hsame]
            exact hkept.1
          · omega
        · rcases hrun.openFile ops hpos round.env with ⟨hfd, -⟩ | ⟨hopened, hcurrent, -⟩
          · exact absurd hfd hcreated
          · obtain ⟨f, hf⟩ := Option.ne_none_iff_exists'.mp hcurrent
            exact hopened.afterSave hfull hf hbuf
      · exact hkept

end Steps

/-- A file of three bytes, which a read of two and one of two more fill. -/
def threeBytes : Arguments := ⟨3, false, false, false, false, false, 0⟩

/-- A module that saves everything, and whose files can be made; it notes the saves. -/
def savesAll : QlogOps (List (Port × List UInt8)) Unit where
  logfileCreate _ saves _ := (saves, ⟨5, -1, -1⟩)
  logfileInit saves _ _ := saves
  logfileSave _ saves port _ buf := (saves ++ [(port, buf)], buf.length)
  qlogLogfileSave _ saves port _ buf := (saves ++ [(port, buf)], buf.length)
  logfileClose saves _ := saves
  rotated saves := saves
  cleanFilter saves := saves

/-- A round of the loop that reads these bytes. -/
def roundOf (buf : List UInt8) : List (Event Unit) := [.test, .poll true, .read ⟨.dm, buf, false, ()⟩]

/-- The loops that count all their ports. -/
example (args : Arguments) (useQmdl2V2 : Bool) (chip : Nat) :
    ∀ h ∈ [messageHandleAsr args, messageHandleEigen args, messageHandleMtk args, messageHandleMdm args useQmdl2V2,
        messageHandleUnisoc args (some chip)],
      h.full = totalFull args.logfileSize args.donotSplit := by
  simp only [List.forall_mem_cons]
  exact ⟨rfl, rfl, rfl, rfl, rfl, fun h hmem => absurd hmem List.not_mem_nil⟩

end QLog.Capture
