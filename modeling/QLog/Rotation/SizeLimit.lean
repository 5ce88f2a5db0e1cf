import Mathlib.Algebra.BigOperators.Group.List.Basic
import QLog.Rotation.RemoveLoop

/-! # The size that is left

The removals of `checkWorkDirSize`, for a directory whose files are known: what `stat` returns is read off the files
that are still there, and every `remove` of one of them succeeds. The sizes are added up in an `int`, and so is the
limit computed, but the files may have any size. -/

namespace QLog.Compress

open Library Rotation Cqueue

/-- A file of the log directory, one of those that `filter_logfile` lets through. -/
structure LogFile where
  dName : Name
  stSize : Nat
  listed : filterLogfile ⟨dName, none⟩ = true
deriving DecidableEq

/-- What `scandir` and `stat` say about a file. -/
def LogFile.entry (f : LogFile) : DirEntry := ⟨f.dName, some f.stSize⟩

/-- The path of a file. -/
def LogFile.path (dir : Name) (f : LogFile) : Name := dir ++ '/' :: f.dName

/-- The true size of a directory. -/
def totalSize (files : List LogFile) : Nat := (files.map LogFile.stSize).sum

/-- `stat` -/
def fileAt (dir : Name) (files : List LogFile) (path : Name) : Option LogFile :=
  files.find? fun f => f.path dir = path

/-- `remove` -/
def unlink (dir : Name) (files : List LogFile) (path : Name) : List LogFile :=
  files.eraseP fun f => f.path dir = path

/-- The path that a name of the queue stands for. -/
def frontPath (dir : Name) (files : List LogFile) (name : Name) : Name :=
  if (fileAt dir files (name ++ zip)).isSome then name ++ zip else name

/-- What `remove_oldest_logfile` meets. -/
def removalIn (dir : Name) (files : List LogFile) (queue : Queue Name) : Removal :=
  match peek queue with
  | none => ⟨none, true, none, true⟩
  | some lastFile =>
      ⟨(fileAt dir files (lastFile ++ zip)).map fun f => (f.stSize : Int), true,
        (fileAt dir files lastFile).map fun f => (f.stSize : Int), true⟩

/-- The files that are left. -/
def remaining (dir : Name) : List LogFile → List Moment → List LogFile
  | files, [] => files
  | files, m :: ms =>
      match m.event with
      | .removed file => remaining dir (unlink dir files file) ms
      | _ => remaining dir files ms

/-- The true sizes of the directory at the removals. -/
def sizesAtRemovals (dir : Name) : List LogFile → List Moment → List Nat
  | _, [] => []
  | files, m :: ms =>
      match m.event with
      | .removed file => totalSize files :: sizesAtRemovals dir (unlink dir files file) ms
      | _ => sizesAtRemovals dir files ms

/-- What a round of the loop meets. -/
def roundIn (cfg : LogConfig) (files : List LogFile) (queue : Queue Name) (total : Int) : Round :=
  let first := removalIn cfg.logfileDir files queue
  let r1 := removeOldestLogfile queue total first
  let files1 := remaining cfg.logfileDir files r1.2.2
  let second := removalIn cfg.logfileDir files1 r1.1
  let r2 := removeNext cfg.secondLogfileSuffix r1.1 r1.2.1 second
  ⟨first, second, removalIn cfg.logfileDir (remaining cfg.logfileDir files1 r2.2.2) r2.1⟩

/-- What the first `n` rounds meet. -/
def roundsIn (cfg : LogConfig) : Nat → List LogFile → Queue Name → Int → List Round
  | 0, _, _, _ => []
  | n + 1, files, queue, total =>
      let round := roundIn cfg files queue total
      let r := removeRound cfg queue total round
      round :: roundsIn cfg n (remaining cfg.logfileDir files r.2.2) r.1 r.2.1

/-- `g_use_compress_cmd`, for the number that `-C` gives. -/
def optionC (m : Int) : Int := int32 (int32 (m * 1024) * 1024)

/-- `checkWorkDirSize` for the files of the directory, with `n` rounds of its loop. -/
def checkFiles (cfg : LogConfig) (maxSize : Int) (queue : Queue Name) (files : List LogFile) (n : Nat) :
    Option (Queue Name × List Moment) :=
  let start := loopStart cfg queue (files.map LogFile.entry)
  checkWorkDirSize cfg maxSize queue (some (files.map LogFile.entry)) (roundsIn cfg n files start.1 start.2)

/-- **The limit is respected**: in the end the directory is below it, or no name is left, and a file is removed only
while the directory is not below it. -/
structure LimitRespected (dir : Name) (files : List LogFile) (limit : Nat) (queue : Queue Name) (ms : List Moment) :
    Prop where
  small : totalSize (remaining dir files ms) < limit ∨ isEmpty queue = true
  needed : ∀ size ∈ sizesAtRemovals dir files ms, limit ≤ size

/-! ## The files behind the names -/

/-- The files behind the removals for some names. -/
def evictAll (dir : Name) : List LogFile → List Name → List LogFile
  | files, [] => files
  | files, name :: names => evictAll dir (unlink dir files (frontPath dir files name)) names

/-- Every name of the queue has its file when its turn comes. -/
def RemovalsSucceed (dir : Name) : List LogFile → List Name → Prop
  | _, [] => True
  | files, name :: names =>
      (fileAt dir files (frontPath dir files name)).isSome ∧
        RemovalsSucceed dir (unlink dir files (frontPath dir files name)) names

/-- The true size of the directory behind the removals for the first `k` names. -/
def sizeAfter (dir : Name) (files : List LogFile) (names : List Name) (k : Nat) : Nat :=
  totalSize (evictAll dir files (names.take k))

/-- The number of the files of a log, which a round removes. -/
def logFiles (cfg : LogConfig) : Nat :=
  1 + (if cfg.secondLogfileSuffix.isSome then 1 else 0) + (if cfg.thirdLogfileSuffix.isSome then 1 else 0)

/-- The names in the queue in front of the loop. -/
def loopNames (cfg : LogConfig) (names : List Name) (files : List LogFile) : List Name :=
  if names = [] then files.map fun f => entryName cfg.logfileDir f.entry else names

/-- As long as all removals have been needed: where the loop is tested with a name left, the sizes compare as numbers
of 32 bits as they do in truth; and the removal that makes the directory small enough is the last one of its round,
or takes the last name. -/
structure CountsRight (cfg : LogConfig) (limit : Nat) (maxSize : Int) (files : List LogFile) (names : List Name) :
    Prop where
  test : ∀ k < names.length, logFiles cfg ∣ k →
    (∀ i < k, limit ≤ sizeAfter cfg.logfileDir files names i) →
      (maxSize ≤ int32 (sizeAfter cfg.logfileDir files names k) ↔ limit ≤ sizeAfter cfg.logfileDir files names k)
  round : ∀ k ≤ names.length, (∀ i < k, limit ≤ sizeAfter cfg.logfileDir files names i) →
    sizeAfter cfg.logfileDir files names k < limit → logFiles cfg ∣ k ∨ k = names.length

section Files

variable {dir : Name} {files : List LogFile} {path : Name}

@[simp] theorem remaining_nil : remaining dir files [] = files := rfl

@[simp] theorem sizesAtRemovals_nil : sizesAtRemovals dir files [] = [] := rfl

theorem remaining_append (files : List LogFile) (ms ms' : List Moment) :
    remaining dir files (ms ++ ms') = remaining dir (remaining dir files ms) ms' := by
  induction ms generalizing files with
  | nil => rfl
  | cons m ms ih =>
      rw [List.cons_append, remaining, remaining]
      cases m.event <;> exact ih _

theorem sizesAtRemovals_append (files : List LogFile) (ms ms' : List Moment) :
    sizesAtRemovals dir files (ms ++ ms') =
      sizesAtRemovals dir files ms ++ sizesAtRemovals dir (remaining dir files ms) ms' := by
  induction ms generalizing files with
  | nil => rfl
  | cons m ms ih =>
      rw [List.cons_append, sizesAtRemovals, sizesAtRemovals, remaining]
      cases m.event with
      | removed file => exact congrArg (totalSize files :: ·) (ih _)
      | filled => exact ih _
      | created file => exact ih _
      | enqueued name => exact ih _
      | dequeued name => exact ih _

/-- A file that is removed takes its size away. -/
theorem totalSize_unlink {f : LogFile} (h : fileAt dir files path = some f) :
    totalSize files = totalSize (unlink dir files path) + f.stSize := by
  induction files with
  | nil => cases h
  | cons f' files ih =>
      rw [fileAt, List.find?_cons] at h
      by_cases hpath : f'.path dir = path
      · rw [decide_eq_true hpath] at h
        obtain rfl : f' = f := by simpa using h
        simp [totalSize, unlink, hpath, Nat.add_comm]
      · rw [decide_eq_false hpath] at h
        have hrest := ih h
        simp only [totalSize, unlink, List.eraseP_cons, hpath, decide_false, cond_false, List.map_cons,
          List.sum_cons] at hrest ⊢
        rw [hrest, Nat.add_assoc]

theorem totalSize_unlink_le (dir : Name) (files : List LogFile) (path : Name) :
    totalSize (unlink dir files path) ≤ totalSize files := by
  induction files with
  | nil => exact Nat.le_refl _
  | cons f files ih =>
      by_cases hpath : f.path dir = path
      · simp [totalSize, unlink, hpath]
      · simpa [totalSize, unlink, List.eraseP_cons, hpath] using ih

theorem totalSize_evictAll_le (dir : Name) (files : List LogFile) (names : List Name) :
    totalSize (evictAll dir files names) ≤ totalSize files := by
  induction names generalizing files with
  | nil => exact Nat.le_refl _
  | cons name names ih => exact (ih _).trans (totalSize_unlink_le dir files _)

theorem evictAll_append (files : List LogFile) (names names' : List Name) :
    evictAll dir files (names ++ names') = evictAll dir (evictAll dir files names) names' := by
  induction names generalizing files with
  | nil => rfl
  | cons name names ih => exact ih _

/-- The removals for later names. -/
theorem RemovalsSucceed.drop {names : List Name} (h : RemovalsSucceed dir files names) (k : Nat) :
    RemovalsSucceed dir (evictAll dir files (names.take k)) (names.drop k) := by
  induction k generalizing files names with
  | zero => exact h
  | succ k ih =>
      cases names with
      | nil => exact h
      | cons name names => exact ih h.2

theorem sizeAfter_zero (dir : Name) (files : List LogFile) (names : List Name) :
    sizeAfter dir files names 0 = totalSize files := rfl

theorem int32_int32_sub (a b : Int) : int32 (int32 a - b) = int32 (a - b) := Int.bmod_sub_bmod

theorem int32_int32_add (a b : Int) : int32 (int32 a + b) = int32 (a + b) := Int.bmod_add_bmod

/-- The size of the directory as it is counted. -/
theorem workDirSize_files (files : List LogFile) :
    workDirSize (files.map LogFile.entry) = int32 (totalSize files) := by
  have hfold : ∀ (files : List LogFile) (total : Int),
      (files.map LogFile.entry).foldl (fun totalSize entry => int32 (totalSize + entry.stSize.getD 0)) (int32 total) =
        int32 (total + totalSize files) := by
    intro files
    induction files with
    | nil => simp [totalSize]
    | cons f files ih =>
        intro total
        rw [List.map_cons, List.foldl_cons, int32_int32_add, ih]
        simp [totalSize, LogFile.entry, Int.add_assoc]
  have h := hfold files 0
  rwa [Int.zero_add] at h

end Files

/-! ## One removal after the other -/

/-- Behind the removals for the first `k` names: the queue holds the others, and the counted size is what is left. -/
structure Evicted (dir : Name) (files : List LogFile) (names : List Name) (k : Nat)
    (r : Queue Name × Int × List Moment) : Prop where
  holds : Holds r.1 (names.drop k)
  total : r.2.1 = int32 (sizeAfter dir files names k)
  left : remaining dir files r.2.2 = evictAll dir files (names.take k)
  sizes : sizesAtRemovals dir files r.2.2 = (List.range k).map (sizeAfter dir files names)

section Evicted

variable {dir : Name} {cfg : LogConfig} {files : List LogFile} {names : List Name} {k : Nat}
  {r : Queue Name × Int × List Moment}

/-- The removal for the front of the queue. -/
theorem removeOldestLogfile_removalIn {name : Name} {rest : List Name} {queue : Queue Name}
    (hq : Holds queue (name :: rest)) (hfile : (fileAt dir files (frontPath dir files name)).isSome) (total : Int) :
    ∃ f, fileAt dir files (frontPath dir files name) = some f ∧
      removeOldestLogfile queue total (removalIn dir files queue) =
        ((dequeue queue).1, int32 (total - f.stSize),
          [⟨.removed (frontPath dir files name), queue⟩, ⟨.dequeued name, (dequeue queue).1⟩]) := by
  obtain ⟨f, hf⟩ := Option.isSome_iff_exists.mp hfile
  refine ⟨f, hf, ?_⟩
  rw [removeOldestLogfile, removalIn, hq.peek]
  rw [frontPath] at hf ⊢
  cases hzip : fileAt dir files (name ++ zip) with
  | some g =>
      simp only [hzip, Option.isSome_some, if_true, Option.some.injEq] at hf
      subst hf
      simp [hzip, removeAndDequeue]
  | none =>
      simp only [hzip, Option.isSome_none, Bool.false_eq_true, if_false] at hf
      simp [hzip, hf, removeAndDequeue]

/-- One more removal. -/
theorem Evicted.next (h : Evicted dir files names k r) (hsucceed : RemovalsSucceed dir files names)
    (hk : k < names.length) :
    let r' := removeOldestLogfile r.1 r.2.1 (removalIn dir (remaining dir files r.2.2) r.1)
    Evicted dir files names (k + 1) (r'.1, r'.2.1, r.2.2 ++ r'.2.2) := by
  have hdrop : names.drop k = names[k] :: names.drop (k + 1) := List.drop_eq_getElem_cons hk
  have hpresent := hsucceed.drop k
  rw [hdrop] at hpresent
  have hholds := h.holds
  rw [hdrop] at hholds
  obtain ⟨f, hf, hremove⟩ := removeOldestLogfile_removalIn hholds hpresent.1 r.2.1
  have htake : evictAll dir files (names.take (k + 1)) =
      unlink dir (evictAll dir files (names.take k))
        (frontPath dir (evictAll dir files (names.take k)) names[k]) := by
    rw [List.take_succ_eq_append_getElem hk, evictAll_append]
    rfl
  have hsize : sizeAfter dir files names k = sizeAfter dir files names (k + 1) + f.stSize := by
    rw [sizeAfter, sizeAfter, htake]
    exact totalSize_unlink hf
  dsimp only
  rw [h.left, hremove]
  refine ⟨hholds.dequeue.1, ?_, ?_, ?_⟩
  · show int32 (r.2.1 - f.stSize) = _
    rw [h.total, int32_int32_sub, hsize, Nat.cast_add, Int.add_sub_cancel]
  · rw [remaining_append, h.left, htake]
    rfl
  · rw [sizesAtRemovals_append, h.sizes, h.left, List.range_succ, List.map_append]
    rfl

/-- A further removal of a round. -/
theorem Evicted.further (h : Evicted dir files names k r) (hsucceed : RemovalsSucceed dir files names)
    (hk : k ≤ names.length) (suffix : Option Name) :
    let r' := removeNext suffix r.1 r.2.1 (removalIn dir (remaining dir files r.2.2) r.1)
    Evicted dir files names (if suffix.isSome then min (k + 1) names.length else k)
      (r'.1, r'.2.1, r.2.2 ++ r'.2.2) := by
  dsimp only
  rw [removeNext]
  cases suffix with
  | none =>
      simp only [Option.isSome_none, Bool.false_and, Bool.false_eq_true, if_false, List.append_nil]
      exact h
  | some suffix =>
      simp only [Option.isSome_some, Bool.true_and, if_true]
      rcases Nat.lt_or_eq_of_le hk with hlt | rfl
      · have hfull : isEmpty r.1 = false := by
          rw [← Bool.not_eq_true, h.holds.isEmpty, List.drop_eq_nil_iff]
          omega
        rw [hfull, Bool.not_false, if_pos rfl, Nat.min_eq_left hlt]
        exact h.next hsucceed hlt
      · have hempty : isEmpty r.1 = true := by
          rw [h.holds.isEmpty, List.drop_length]
        rw [hempty, Bool.not_true, if_neg Bool.false_ne_true, Nat.min_eq_right (Nat.le_succ _), List.append_nil]
        exact h

/-- A round removes the files of a log, as long as there are names. -/
theorem Evicted.round (h : Evicted cfg.logfileDir files names k r)
    (hsucceed : RemovalsSucceed cfg.logfileDir files names) (hk : k < names.length) :
    let r' := removeRound cfg r.1 r.2.1 (roundIn cfg (remaining cfg.logfileDir files r.2.2) r.1 r.2.1)
    Evicted cfg.logfileDir files names (min (k + logFiles cfg) names.length) (r'.1, r'.2.1, r.2.2 ++ r'.2.2) := by
  have h1 := h.next hsucceed hk
  have h2 := h1.further hsucceed hk cfg.secondLogfileSuffix
  have h3 := h2.further hsucceed (by split <;> omega) cfg.thirdLogfileSuffix
  dsimp only at h1 h2 h3 ⊢
  have hcount : (if cfg.thirdLogfileSuffix.isSome then
      min ((if cfg.secondLogfileSuffix.isSome then min (k + 1 + 1) names.length else k + 1) + 1) names.length
      else if cfg.secondLogfileSuffix.isSome then min (k + 1 + 1) names.length else k + 1) =
      min (k + logFiles cfg) names.length := by
    rw [logFiles]
    split <;> split <;> omega
  rw [hcount] at h3
  simp only [remaining_append, List.append_assoc] at h3
  simp only [removeRound, roundIn, List.append_assoc]
  exact h3

end Evicted

/-! ## The loop -/

/-- Where a loop stops that is tested behind every `group` of `m` removals, and goes on while `large` holds. -/
structure StopsAt (group m : Nat) (large : Nat → Prop) (k : Nat) : Prop where
  le : k ≤ m
  tested : group ∣ k ∨ k = m
  ended : k = m ∨ ¬ large k
  going : ∀ i < k, group ∣ i → large i

/-- A loop stops exactly where it should if and only if its tests are right up to there, and it is tested there. -/
theorem StopsAt.right_iff {group m k : Nat} {large : Nat → Prop} (h : StopsAt group m large k) (needed : Nat → Prop) :
    ((¬ needed k ∨ k = m) ∧ ∀ i < k, needed i) ↔
      (∀ i < m, group ∣ i → (∀ j < i, needed j) → (large i ↔ needed i)) ∧
        ∀ i ≤ m, (∀ j < i, needed j) → ¬ needed i → group ∣ i ∨ i = m := by
  constructor
  · rintro ⟨hover, hneeded⟩
    have hle : ∀ i, (∀ j < i, needed j) → i ≤ m → i ≤ k := by
      intro i hi him
      by_contra hgt
      rcases hover with hnot | rfl
      · exact hnot (hi k (Nat.not_le.mp hgt))
      · exact hgt him
    refine ⟨fun i hi hgroup hbefore => ?_, fun i hi hbefore hnot => ?_⟩
    · rcases Nat.lt_or_eq_of_le (hle i hbefore hi.le) with hlt | rfl
      · exact iff_of_true (h.going i hlt hgroup) (hneeded i hlt)
      · have hne : i ≠ m := Nat.ne_of_lt hi
        exact iff_of_false (h.ended.resolve_left hne) (hover.resolve_right hne)
    · rcases Nat.lt_or_eq_of_le (hle i hbefore hi) with hlt | rfl
      · exact absurd (hneeded i hlt) hnot
      · exact h.tested
  · rintro ⟨htest, hround⟩
    have hneeded : ∀ i < k, needed i := by
      intro i
      induction i using Nat.strong_induction_on with
      | _ i ih =>
          intro hi
          by_contra hnot
          have hbefore : ∀ j < i, needed j := fun j hj => ih j hj (hj.trans hi)
          have him : i < m := hi.trans_le h.le
          -- the first removal that is not needed comes behind a test that says it is
          have hgroup := (hround i him.le hbefore hnot).resolve_right (Nat.ne_of_lt him)
          exact hnot ((htest i him hgroup hbefore).mp (h.going i hi hgroup))
    refine ⟨?_, hneeded⟩
    rcases Nat.lt_or_eq_of_le h.le with hlt | heq
    · have hne := Nat.ne_of_lt hlt
      have hlarge := (htest k hlt (h.tested.resolve_right hne) hneeded).not.mp (h.ended.resolve_left hne)
      exact Or.inl hlarge
    · exact Or.inr heq

section Loop

variable {cfg : LogConfig} {maxSize : Int} {files : List LogFile} {names : List Name} {k : Nat}
  {r : Queue Name × Int × List Moment}

/-- The test of the loop behind `k` removals. -/
theorem Evicted.test_iff (h : Evicted cfg.logfileDir files names k r) :
    (maxSize ≤ r.2.1 ∧ isEmpty r.1 = false) ↔
      maxSize ≤ int32 (sizeAfter cfg.logfileDir files names k) ∧ k < names.length := by
  rw [h.total, ← Bool.not_eq_true, h.holds.isEmpty, List.drop_eq_nil_iff, Nat.not_le]

theorem logFiles_pos (cfg : LogConfig) : 0 < logFiles cfg := by
  rw [logFiles]
  omega

/-- Between two tests no number of removals is tested. -/
theorem going_round {group m : Nat} {large : Nat → Prop} (hgroup : group ∣ k) (hlarge : large k)
    (hgoing : ∀ i < k, group ∣ i → large i) : ∀ i < min (k + group) m, group ∣ i → large i := by
  intro i hi hdvd
  rcases Nat.lt_trichotomy i k with hlt | rfl | hgt
  · exact hgoing i hlt hdvd
  · exact hlarge
  · have hle := Nat.le_of_dvd (Nat.sub_pos_of_lt hgt) (Nat.dvd_sub hdvd hgroup)
    omega

/-- A test that fails ends the loop. -/
theorem Evicted.stopsAt (h : Evicted cfg.logfileDir files names k r) (hle : k ≤ names.length)
    (htested : logFiles cfg ∣ k ∨ k = names.length)
    (hgoing : ∀ i < k, logFiles cfg ∣ i → maxSize ≤ int32 (sizeAfter cfg.logfileDir files names i))
    (htest : ¬ (maxSize ≤ r.2.1 ∧ isEmpty r.1 = false)) :
    StopsAt (logFiles cfg) names.length (fun i => maxSize ≤ int32 (sizeAfter cfg.logfileDir files names i)) k ∧
      Evicted cfg.logfileDir files names k
        (r.1, int32 (sizeAfter cfg.logfileDir files names k), r.2.2 ++ []) := by
  rw [h.test_iff] at htest
  refine ⟨⟨hle, htested, ?_, hgoing⟩, ?_⟩
  · omega
  · rw [List.append_nil, ← h.total]
    exact h

/-- The loop ends where it stops. -/
theorem removeLoop_stopsAt (hsucceed : RemovalsSucceed cfg.logfileDir files names) (n : Nat)
    (h : Evicted cfg.logfileDir files names k r) (hle : k ≤ names.length)
    (htested : logFiles cfg ∣ k ∨ k = names.length)
    (hgoing : ∀ i < k, logFiles cfg ∣ i → maxSize ≤ int32 (sizeAfter cfg.logfileDir files names i))
    {result : Queue Name × List Moment}
    (hrun : removeLoop cfg maxSize r.1 r.2.1 (roundsIn cfg n (remaining cfg.logfileDir files r.2.2) r.1 r.2.1) =
      some result) :
    ∃ j, StopsAt (logFiles cfg) names.length (fun i => maxSize ≤ int32 (sizeAfter cfg.logfileDir files names i)) j ∧
      Evicted cfg.logfileDir files names j
        (result.1, int32 (sizeAfter cfg.logfileDir files names j), r.2.2 ++ result.2) := by
  induction n generalizing k r result with
  | zero =>
      rw [roundsIn, removeLoop] at hrun
      split at hrun
      · cases hrun
      · next hover =>
          obtain rfl := Option.some.inj hrun
          exact ⟨k, h.stopsAt hle htested hgoing hover⟩
  | succ n ih =>
      rw [roundsIn, removeLoop] at hrun
      split at hrun
      · next htest =>
          obtain ⟨hlarge, hlt⟩ := h.test_iff.mp htest
          have hgroup := htested.resolve_right (Nat.ne_of_lt hlt)
          obtain ⟨rest, hrest, rfl⟩ := Option.map_eq_some_iff.mp hrun
          have hround := h.round hsucceed hlt
          rw [← remaining_append] at hrest
          obtain ⟨j, hstops, hj⟩ := ih hround (Nat.min_le_right _ _)
            ((Nat.le_total (k + logFiles cfg) names.length).imp
              (fun hmin => by rw [Nat.min_eq_left hmin]; exact Nat.dvd_add hgroup (Nat.dvd_refl _))
              (fun hmin => Nat.min_eq_right hmin))
            (going_round hgroup hlarge hgoing) hrest
          refine ⟨j, hstops, ?_⟩
          rw [← List.append_assoc]
          exact hj
      · next hover =>
          obtain rfl := Option.some.inj hrun
          exact ⟨k, h.stopsAt hle htested hgoing hover⟩

/-- As many rounds as there are names are enough. -/
theorem removeLoop_isSome (hsucceed : RemovalsSucceed cfg.logfileDir files names) (n : Nat)
    (h : Evicted cfg.logfileDir files names k r) (hn : names.length ≤ k + n) :
    (removeLoop cfg maxSize r.1 r.2.1 (roundsIn cfg n (remaining cfg.logfileDir files r.2.2) r.1 r.2.1)).isSome := by
  induction n generalizing k r with
  | zero =>
      rw [roundsIn, removeLoop, if_neg]
      · rfl
      · rw [h.test_iff]
        omega
  | succ n ih =>
      rw [roundsIn, removeLoop]
      split
      · next htest =>
          have hround := h.round hsucceed (h.test_iff.mp htest).2
          have hpos := logFiles_pos cfg
          have hrest := ih hround (by omega)
          rw [remaining_append] at hrest
          rw [Option.isSome_map]
          exact hrest
      · rfl

end Loop

/-! ## The call -/

/-- Whether the limit is respected, by the number of names that files have been removed for. -/
theorem Evicted.limitRespected_iff {dir : Name} {files : List LogFile} {names : List Name} {j limit : Nat}
    {queue : Queue Name} {total : Int} {ms : List Moment} (h : Evicted dir files names j (queue, total, ms))
    (hle : j ≤ names.length) :
    LimitRespected dir files limit queue ms ↔
      (¬ limit ≤ sizeAfter dir files names j ∨ j = names.length) ∧ ∀ i < j, limit ≤ sizeAfter dir files names i := by
  have hempty : isEmpty queue = true ↔ j = names.length := by
    rw [h.holds.isEmpty, List.drop_eq_nil_iff]
    exact ⟨Nat.le_antisymm hle, fun heq => heq.ge⟩
  constructor
  · rintro ⟨hsmall, hneeded⟩
    rw [h.left, hempty] at hsmall
    rw [h.sizes] at hneeded
    exact ⟨hsmall.imp_left Nat.not_le.mpr, fun i hi => hneeded _ (List.mem_map_of_mem (List.mem_range.mpr hi))⟩
  · rintro ⟨hsmall, hneeded⟩
    refine ⟨?_, ?_⟩
    · rw [h.left, hempty]
      exact hsmall.imp_left Nat.not_le.mp
    · rw [h.sizes]
      intro size hsize
      obtain ⟨i, hi, rfl⟩ := List.mem_map.mp hsize
      exact hneeded i (List.mem_range.mp hi)

section Call

variable {cfg : LogConfig} {files : List LogFile} {queue : Queue Name} {names : List Name}

theorem listed_files (files : List LogFile) :
    (files.map LogFile.entry).filter filterLogfile = files.map LogFile.entry := by
  rw [List.filter_eq_self]
  intro entry hentry
  obtain ⟨f, -, rfl⟩ := List.mem_map.mp hentry
  exact f.listed

/-- Nothing is removed while the queue is filled. -/
theorem remaining_enqueueAll (dir : Name) (queue : Queue Name) (names : List Name) (files : List LogFile) :
    remaining dir files (enqueueAll queue names).2 = files ∧
      sizesAtRemovals dir files (enqueueAll queue names).2 = [] := by
  induction names generalizing queue with
  | nil => exact ⟨rfl, rfl⟩
  | cons name names ih => exact ih (enqueue queue name)

/-- The call, up to its loop. -/
theorem checkFiles_start (cfg : LogConfig) (maxSize : Int) (hqueue : Holds queue names) (files : List LogFile) :
    ∃ start : Queue Name × Int × List Moment,
      Evicted cfg.logfileDir files (loopNames cfg names files) 0 start ∧
        remaining cfg.logfileDir files start.2.2 = files ∧
        ∀ n, checkFiles cfg maxSize queue files n =
          (removeLoop cfg maxSize start.1 start.2.1 (roundsIn cfg n files start.1 start.2.1)).map fun rest =>
            (rest.1, start.2.2 ++ rest.2) := by
  by_cases hnil : names = []
  · have hempty : isEmpty queue = true := hqueue.isEmpty.mpr hnil
    have hfilled := (enqueueAll_follows hqueue [] (files.map fun f => entryName cfg.logfileDir f.entry)).1
    obtain ⟨hleft, hsizes⟩ := remaining_enqueueAll cfg.logfileDir queue
      (files.map fun f => entryName cfg.logfileDir f.entry) files
    rw [hnil, List.nil_append] at hfilled
    refine ⟨((enqueueAll queue (files.map fun f : LogFile => entryName cfg.logfileDir f.entry)).1,
      int32 (totalSize files),
      ⟨.filled, queue⟩ :: (enqueueAll queue (files.map fun f : LogFile => entryName cfg.logfileDir f.entry)).2),
      ⟨?_, by rw [sizeAfter_zero], hleft, hsizes⟩, hleft, fun n => ?_⟩
    · rwa [loopNames, if_pos hnil]
    · rw [checkFiles, checkWorkDirSize, loopStart]
      simp only [hempty, if_true, listed_files, workDirSize_files, List.map_map, Function.comp_def, List.cons_append]
  · have hfull : isEmpty queue = false := by
      rw [← Bool.not_eq_true, hqueue.isEmpty]
      exact hnil
    refine ⟨(queue, int32 (totalSize files), []), ⟨?_, by rw [sizeAfter_zero], rfl, rfl⟩, rfl, fun n => ?_⟩
    · rwa [loopNames, if_neg hnil]
    · rw [checkFiles, checkWorkDirSize, loopStart]
      simp [hfull, listed_files, workDirSize_files]

end Call

/-- **When the limit is respected**: exactly if the sizes of the directory, counted in an `int`, compare with the limit
as they do in truth, and no log is cut in the middle. -/
theorem checkFiles_limitRespected_iff (cfg : LogConfig) (m : Nat) {queue : Queue Name} {names : List Name}
    (hqueue : Holds queue names) (files : List LogFile)
    (hsucceed : RemovalsSucceed cfg.logfileDir files (loopNames cfg names files)) :
    (∀ n queue' ms, checkFiles cfg (optionC m) queue files n = some (queue', ms) →
      LimitRespected cfg.logfileDir files (m * 2 ^ 20) queue' ms) ↔
        CountsRight cfg (m * 2 ^ 20) (optionC m) files (loopNames cfg names files) := by
  obtain ⟨start, hstart, hleft, hcheck⟩ := checkFiles_start cfg (optionC m) hqueue files
  set held := loopNames cfg names files
  generalize m * 2 ^ 20 = limit
  -- a call that returns has stopped somewhere, and what it has done by then says whether the limit is respected
  have hreturned : ∀ n queue' ms, checkFiles cfg (optionC m) queue files n = some (queue', ms) →
      (LimitRespected cfg.logfileDir files limit queue' ms ↔
        CountsRight cfg limit (optionC m) files held) := by
    intro n queue' ms hrun
    rw [hcheck] at hrun
    obtain ⟨result, hloop, heq⟩ := Option.map_eq_some_iff.mp hrun
    obtain ⟨rfl, rfl⟩ := Prod.mk.inj heq
    rw [← hleft] at hloop
    obtain ⟨j, hstops, hj⟩ := removeLoop_stopsAt hsucceed n hstart (Nat.zero_le _) (Or.inl (Nat.dvd_zero _))
      (fun i hi => absurd hi (Nat.not_lt_zero i)) hloop
    calc LimitRespected cfg.logfileDir files limit result.1 (start.2.2 ++ result.2)
        ↔ (¬ limit ≤ sizeAfter cfg.logfileDir files held j ∨ j = held.length) ∧
            ∀ i < j, limit ≤ sizeAfter cfg.logfileDir files held i := hj.limitRespected_iff hstops.le
      _ ↔ _ := hstops.right_iff fun i => limit ≤ sizeAfter cfg.logfileDir files held i
      _ ↔ CountsRight cfg limit (optionC m) files held := by
          simp only [Nat.not_le]
          exact ⟨fun h => ⟨h.1, h.2⟩, fun h => ⟨h.test, h.round⟩⟩
  have hsome : (checkFiles cfg (optionC m) queue files held.length).isSome := by
    rw [hcheck, Option.isSome_map]
    rw [← hleft]
    exact removeLoop_isSome hsucceed held.length hstart (Nat.le_add_left _ _)
  obtain ⟨⟨queue', ms⟩, hrun⟩ := Option.isSome_iff_exists.mp hsome
  constructor
  · exact fun h => (hreturned _ _ _ hrun).mp (h _ _ _ hrun)
  · exact fun h n queue' ms hrun => (hreturned n queue' ms hrun).mpr h

/-- Two logs of three files, together a little less than 2 GiB. -/
def twoLogs : List LogFile :=
  [⟨"a.qmdl.zip".toList, 1000000, rfl⟩, ⟨"a_qdss.bin".toList, 8000, rfl⟩, ⟨"a.adplv4".toList, 40000, rfl⟩,
    ⟨"b.qmdl".toList, 2146000000, rfl⟩, ⟨"b_qdss.bin".toList, 300000, rfl⟩, ⟨"b.adplv4".toList, 100000, rfl⟩]

/-- With the largest limit that is counted right, the three files of the first log go, and the others stay. -/
theorem checkFiles_limitRespected_twoLogs :
    ∃ queue' ms, checkFiles threeFilesConfig (optionC (2047 : Nat)) createQueue twoLogs 1 = some (queue', ms) ∧
      LimitRespected threeFilesConfig.logfileDir twoLogs (2047 * 2 ^ 20) queue' ms ∧
      (remaining threeFilesConfig.logfileDir twoLogs ms).map LogFile.dName
        = ["b.qmdl".toList, "b_qdss.bin".toList, "b.adplv4".toList] := by
  have hright : CountsRight threeFilesConfig (2047 * 2 ^ 20) (optionC (2047 : Nat)) twoLogs
      (loopNames threeFilesConfig [] twoLogs) := by
    have htest : ∀ k < 6, 3 ∣ k → (optionC (2047 : Nat) ≤ int32
        (sizeAfter threeFilesConfig.logfileDir twoLogs (loopNames threeFilesConfig [] twoLogs) k) ↔
          2047 * 2 ^ 20 ≤ sizeAfter threeFilesConfig.logfileDir twoLogs
            (loopNames threeFilesConfig [] twoLogs) k) := by decide +kernel
    have hround : ∀ k ≤ 3, sizeAfter threeFilesConfig.logfileDir twoLogs (loopNames threeFilesConfig [] twoLogs) k
        < 2047 * 2 ^ 20 → 3 ∣ k := by decide +kernel
    have hthird : ¬ 2047 * 2 ^ 20 ≤ sizeAfter threeFilesConfig.logfileDir twoLogs
        (loopNames threeFilesConfig [] twoLogs) 3 := by decide +kernel
    refine ⟨fun k hk hdvd _ => htest k hk hdvd, fun k hk hneeded hsmall => Or.inl (hround k ?_ hsmall)⟩
    -- the fourth removal is not needed
    by_contra hlate
    exact hthird (hneeded 3 (by omega))
  have hlimit := (checkFiles_limitRespected_iff threeFilesConfig 2047 holds_createQueue twoLogs
    ⟨rfl, rfl, rfl, rfl, rfl, rfl, trivial⟩).mpr hright
  exact ⟨_, _, rfl, hlimit 1 _ _ rfl, rfl⟩

/-- Where the limit and the directory are smaller than 2 GiB, and a log is one file, the limit is respected. -/
theorem countsRight_of_small {cfg : LogConfig} {m : Nat} {files : List LogFile} (names : List Name) (hm : m < 2048)
    (hsize : totalSize files < 2 ^ 31) (hone : logFiles cfg = 1) :
    CountsRight cfg (m * 2 ^ 20) (optionC m) files names := by
  have hint : ∀ x : Nat, x < 2 ^ 31 → int32 (x : Int) = x := fun x hx =>
    Int.bmod_eq_of_le_mul_two (by omega) (by omega)
  have hlimit : optionC (m : Nat) = ((m * 2 ^ 20 : Nat) : Int) := by
    have hprod : (m : Int) * 1024 * 1024 = (m * 2 ^ 20 : Nat) := by omega
    rw [optionC, int32, int32, Int.bmod_mul_bmod, hprod]
    exact hint (m * 2 ^ 20) (by omega)
  refine ⟨fun k _ _ _ => ?_, fun k _ _ _ => ?_⟩
  · have hk : sizeAfter cfg.logfileDir files names k < 2 ^ 31 := (totalSize_evictAll_le _ _ _).trans_lt hsize
    rw [hlimit, hint _ hk, Int.ofNat_le]
  · rw [hone]
    exact Or.inl (Nat.one_dvd k)

/-- A file `a`. -/
def fileA (stSize : Nat) : LogFile := ⟨['a'], stSize, rfl⟩

/-- A file of 2 GiB makes the counted size negative, and stays. -/
theorem not_checkFiles_limitRespected :
    ¬ ∀ (cfg : LogConfig) (m : Nat), 1 ≤ m → ∀ (queue : Queue Name) (names : List Name), Holds queue names →
      ∀ files : List LogFile, RemovalsSucceed cfg.logfileDir files (loopNames cfg names files) →
        ∀ n queue' ms, checkFiles cfg (optionC m) queue files n = some (queue', ms) →
          LimitRespected cfg.logfileDir files (m * 2 ^ 20) queue' ms := by
  intro h
  have hlimit := h dirConfig 1 (Nat.le_refl 1) createQueue [] holds_createQueue [fileA 2147483648] ⟨rfl, trivial⟩ 0
    (enqueueAll createQueue [['d', '/', 'a']]).1 _ rfl
  rcases hlimit.small with hsmall | hempty
  · exact absurd hsmall (by decide)
  · cases hempty

end QLog.Compress
