import QLog.Rotation.Cqueue
import QLog.Rotation.Rotation

/-! # Removing the oldest logs

With `-C` the log directory may have a limited size. The names of its files stand in a queue: those that are there at
the start, in the order of their times, and the names of the logs that are created. Before a log is created files are
removed from the front of the queue until the directory is small enough.

What `scandir`, `stat` and `remove` return is an input. A call returns only if the removals make the directory small
enough or the queue empty; the rounds of a call that are given as inputs are then enough for it. -/

namespace QLog.Compress

open Library Rotation Cqueue

/-- What happens to the queue. -/
inductive QueueEvent
  /-- The queue is empty, and the names of the directory are put into it. -/
  | filled
  /-- `qlog_logfile_create_fullname` is called for a new file. -/
  | created (file : Name)
  | enqueued (name : Name)
  /-- `remove` succeeds. -/
  | removed (file : Name)
  | dequeued (name : Name)

/-- An event, and the queue behind it. -/
structure Moment where
  event : QueueEvent
  queue : Queue Name

/-- An entry of the directory, and its size if `stat` succeeds. -/
structure DirEntry where
  dName : Name
  stSize : Option Int

/-- What `stat` and `remove` return in `remove_oldest_logfile`, for the compressed file and for the file itself. -/
structure Removal where
  statZip : Option Int
  removeZip : Bool
  statFile : Option Int
  removeFile : Bool

/-- The results in a round of the loop, as far as they are asked for. -/
structure Round where
  first : Removal
  second : Removal
  third : Removal

/-- A number as an `int`. -/
def int32 (n : Int) : Int := n.bmod (2 ^ 32)

/-- `.zip` -/
def zip : Name := ['.', 'z', 'i', 'p']

/-- The part in front of the first `.zip`. -/
def cutZip : Name → Name
  | [] => []
  | c :: cs => if zip.isPrefixOf (c :: cs) then [] else c :: cutZip cs

/-- `filter_logfile` -/
def filterLogfile (entry : DirEntry) : Bool := entry.dName ≠ ['.'] && entry.dName ≠ ['.', '.']

/-- The name that is put into the queue for an entry of the directory. -/
def entryName (dir : Name) (entry : DirEntry) : Name := cutZip ((dir ++ '/' :: entry.dName).take 1023)

/-- `remove`, and `dequeue` if it succeeds: the queue, the total size and what happens. -/
def removeAndDequeue (queue : Queue Name) (totalSize : Int) (name file : Name) (stSize : Int) (removed : Bool) :
    Queue Name × Int × List Moment :=
  if removed then
    ((dequeue queue).1, int32 (totalSize - stSize), [⟨.removed file, queue⟩, ⟨.dequeued name, (dequeue queue).1⟩])
  -- a file that cannot be removed stays at the front
  else (queue, totalSize, [])

/-- `remove_oldest_logfile` -/
def removeOldestLogfile (queue : Queue Name) (totalSize : Int) (r : Removal) : Queue Name × Int × List Moment :=
  match peek queue with
  -- the callers have looked whether the queue is empty
  | none => (queue, totalSize, [])
  | some lastFile =>
      match r.statZip, r.statFile with
      | some stSize, _ => removeAndDequeue queue totalSize lastFile (lastFile ++ zip) stSize r.removeZip
      | none, some stSize => removeAndDequeue queue totalSize lastFile lastFile stSize r.removeFile
      | none, none => (queue, totalSize, [])

/-- `if (suffix && (is_empty(g_queue) == 0)) total_size = remove_oldest_logfile(total_size)` -/
def removeNext (suffix : Option Name) (queue : Queue Name) (totalSize : Int) (r : Removal) :
    Queue Name × Int × List Moment :=
  if suffix.isSome && !isEmpty queue then removeOldestLogfile queue totalSize r else (queue, totalSize, [])

/-- One round of the loop in `checkWorkDirSize`. -/
def removeRound (cfg : LogConfig) (queue : Queue Name) (totalSize : Int) (r : Round) : Queue Name × Int × List Moment :=
  let first := removeOldestLogfile queue totalSize r.first
  let second := removeNext cfg.secondLogfileSuffix first.1 first.2.1 r.second
  let third := removeNext cfg.thirdLogfileSuffix second.1 second.2.1 r.third
  (third.1, third.2.1, first.2.2 ++ second.2.2 ++ third.2.2)

/-- The loop, if it ends after these rounds. -/
def removeLoop (cfg : LogConfig) (maxSize : Int) : Queue Name → Int → List Round → Option (Queue Name × List Moment)
  | queue, totalSize, [] => if maxSize ≤ totalSize ∧ isEmpty queue = false then none else some (queue, [])
  | queue, totalSize, r :: rs =>
      if maxSize ≤ totalSize ∧ isEmpty queue = false then
        let round := removeRound cfg queue totalSize r
        (removeLoop cfg maxSize round.1 round.2.1 rs).map fun rest => (rest.1, round.2.2 ++ rest.2)
      else some (queue, [])

/-- `enqueue` for one name after the other. -/
def enqueueAll : Queue Name → List Name → Queue Name × List Moment
  | queue, [] => (queue, [])
  | queue, name :: names =>
      let rest := enqueueAll (enqueue queue name) names
      (rest.1, ⟨.enqueued name, enqueue queue name⟩ :: rest.2)

/-- The size of the directory, as it is counted. -/
def workDirSize (entries : List DirEntry) : Int :=
  entries.foldl (fun totalSize entry => int32 (totalSize + entry.stSize.getD 0)) 0

/-- `checkWorkDirSize`, for what `scandir` and the removals return. -/
def checkWorkDirSize (cfg : LogConfig) (maxSize : Int) (queue : Queue Name) (scan : Option (List DirEntry))
    (rounds : List Round) : Option (Queue Name × List Moment) :=
  match scan with
  | none => some (queue, [])
  | some entries =>
      let listed := entries.filter filterLogfile
      -- the names of the directory are only put into an empty queue
      if isEmpty queue then
        let filled := enqueueAll queue (listed.map (entryName cfg.logfileDir))
        (removeLoop cfg maxSize filled.1 (workDirSize listed) rounds).map fun rest =>
          (rest.1, ⟨.filled, queue⟩ :: (filled.2 ++ rest.2))
      else removeLoop cfg maxSize queue (workDirSize listed) rounds

/-- A call of `qlog_logfile_create`, and what it meets. -/
structure CreateCall where
  creation : Creation
  logfileSeq : Nat
  scan : Option (List DirEntry)
  rounds : List Round

/-- `qlog_logfile_create_fullname` for a new file, and `enqueue` for its name. -/
def createAndEnqueue (useCompressCmd : Int) (queue : Queue Name) (filename : Name) : Queue Name × List Moment :=
  if 0 < useCompressCmd then
    (enqueue queue filename, [⟨.created filename, queue⟩, ⟨.enqueued filename, enqueue queue filename⟩])
  else (queue, [⟨.created filename, queue⟩])

/-- The file of a suffix, where there is one. -/
def createSuffixed (useCompressCmd : Int) (queue : Queue Name) (suffix : Option Name) (filename : Name → Name) :
    Queue Name × List Moment :=
  match suffix with
  | none => (queue, [])
  | some suffix => createAndEnqueue useCompressCmd queue (filename suffix)

/-- The part of `qlog_logfile_create` that creates the main file, the second and the third one. -/
def createFiles (cfg : LogConfig) (useCompressCmd : Int) (queue : Queue Name) (call : CreateCall) :
    Queue Name × List Moment :=
  let short := shortname call.creation call.logfileSeq
  let main := createAndEnqueue useCompressCmd queue (mainName cfg short)
  let second := createSuffixed useCompressCmd main.1 cfg.secondLogfileSuffix fun suffix => newName cfg short suffix []
  let third := createSuffixed useCompressCmd second.1 cfg.thirdLogfileSuffix fun suffix =>
    newName cfg short suffix (if cfg.readNmeaLog then [] else fmtD 1 call.creation.dplVersion)
  (third.1, main.2 ++ (second.2 ++ third.2))

/-- `qlog_logfile_create`, as far as the queue is concerned: the limit, and the new files. -/
def qlogLogfileCreate (cfg : LogConfig) (useCompressCmd : Int) (queue : Queue Name) (call : CreateCall) :
    Option (Queue Name × List Moment) :=
  let checked :=
    if 0 < useCompressCmd then checkWorkDirSize cfg useCompressCmd queue call.scan call.rounds
    else some (queue, [])
  checked.map fun checked =>
    let created := createFiles cfg useCompressCmd checked.1 call
    (created.1, checked.2 ++ created.2)

/-- A run of calls that return. -/
def createRun (cfg : LogConfig) (useCompressCmd : Int) :
    Queue Name → List CreateCall → Option (Queue Name × List Moment)
  | queue, [] => some (queue, [])
  | queue, call :: calls =>
      match qlogLogfileCreate cfg useCompressCmd queue call with
      | none => none
      | some created =>
          (createRun cfg useCompressCmd created.1 calls).map fun rest => (rest.1, created.2 ++ rest.2)

/-! ## The order of the queue -/

/-- The names that have been put into the queue. -/
def enqueued (ms : List Moment) : List Name :=
  ms.filterMap fun m => match m.event with
    | .enqueued name => some name
    | _ => none

/-- The names that have been taken out of it. -/
def dequeued (ms : List Moment) : List Name :=
  ms.filterMap fun m => match m.event with
    | .dequeued name => some name
    | _ => none

/-- The files that have been created. -/
def created (ms : List Moment) : List Name :=
  ms.filterMap fun m => match m.event with
    | .created file => some file
    | _ => none

/-- The names of the directory at the first call, in the order of `scandir`. -/
def listing (cfg : LogConfig) : List CreateCall → List Name
  | [] => []
  | call :: _ =>
      match call.scan with
      | none => []
      | some entries => (entries.filter filterLogfile).map (entryName cfg.logfileDir)

/-- The files a call has to create, by the short name of its log. -/
def createdNames (cfg : LogConfig) (call : CreateCall) : List Name :=
  let short := shortname call.creation call.logfileSeq
  (cfg.logfileDir ++ '/' :: (short ++ '.' :: cfg.logfileSuffix)) ::
    ((match cfg.secondLogfileSuffix with
      | none => []
      | some suffix => [List.take 379 (cfg.logfileDir.take 240 ++ '/' :: (short.take 96 ++ suffix.take 12))]) ++
    (match cfg.thirdLogfileSuffix with
      | none => []
      | some suffix =>
          let version := if cfg.readNmeaLog then [] else fmtD 1 call.creation.dplVersion
          [List.take 379 (cfg.logfileDir.take 240 ++ '/' :: (short.take 96 ++ (suffix.take 12 ++ version)))]))

/-- The directory behind the calls, when nothing is removed from it. -/
def filesAfter (cfg : LogConfig) (calls : List CreateCall) (files : List Name) : List Name :=
  calls.foldl (fun files call =>
    createNew cfg (shortname call.creation call.logfileSeq) call.creation.dplVersion files) files

/-- **The oldest files go first**: what the queue gets are the names of the directory and then those of the files that
are created, and at any time it holds what it got but for a part at the front, which are the names that have been taken
out. A file that is created gets into the queue at once. Whatever is removed is the file at the front of the queue or
its compressed form; its name is taken out at once, and no name is taken out otherwise. The queue is filled from the
directory at the very beginning only. -/
structure EvictsOldest (cfg : LogConfig) (calls : List CreateCall) (queue : Queue Name) (ms : List Moment) : Prop where
  order : enqueued ms = listing cfg calls ++ created ms
  created_names : created ms = calls.flatMap (createdNames cfg)
  created_files : ∀ files f, f ∈ filesAfter cfg calls files ↔ f ∈ files ∨ f ∈ created ms
  created_next : ∀ front file q back, ms = front ++ ⟨.created file, q⟩ :: back →
    ∃ q' back', back = ⟨.enqueued file, q'⟩ :: back'
  evicted : ∀ front, front <+: ms → dequeued front <+: enqueued front
  held : ∀ front m, front ++ [m] <+: ms →
    Holds m.queue ((enqueued (front ++ [m])).drop (dequeued (front ++ [m])).length)
  held_end : Holds queue ((enqueued ms).drop (dequeued ms).length)
  removed : ∀ front file q back, ms = front ++ ⟨.removed file, q⟩ :: back →
    ∃ name rest q' back', Holds q (name :: rest) ∧ (file = name ∨ file = name ++ zip) ∧
      back = ⟨.dequeued name, q'⟩ :: back'
  dequeued_last : ∀ front name q back, ms = front ++ ⟨.dequeued name, q⟩ :: back →
    ∃ before file q', front = before ++ [⟨.removed file, q'⟩] ∧ (file = name ∨ file = name ++ zip)
  scanned : ∀ front q back, ms = front ++ ⟨.filled, q⟩ :: back → front = []

/-! ## One moment after the other -/

/-- From names taken out and names held to others, as a queue goes from one to the other. -/
inductive Follows : List Name → List Name → List Moment → List Name → List Name → Prop
  | nil {out held : List Name} : Follows out held [] out held
  | put {out held out' held' : List Name} {name : Name} {q : Queue Name} {ms : List Moment} :
      Holds q (held ++ [name]) → Follows out (held ++ [name]) ms out' held' →
        Follows out held (⟨.enqueued name, q⟩ :: ms) out' held'
  | create {out held out' held' : List Name} {name : Name} {q q' : Queue Name} {ms : List Moment} :
      Holds q held → Holds q' (held ++ [name]) → Follows out (held ++ [name]) ms out' held' →
        Follows out held (⟨.created name, q⟩ :: ⟨.enqueued name, q'⟩ :: ms) out' held'
  | evict {out held out' held' : List Name} {name file : Name} {q q' : Queue Name} {ms : List Moment} :
      file = name ∨ file = name ++ zip → Holds q (name :: held) → Holds q' held →
        Follows (out ++ [name]) held ms out' held' →
          Follows out (name :: held) (⟨.removed file, q⟩ :: ⟨.dequeued name, q'⟩ :: ms) out' held'

section Follows

variable {out held out' held' out'' held'' : List Name} {ms ms' : List Moment}

theorem Follows.append (h : Follows out held ms out' held') (h' : Follows out' held' ms' out'' held'') :
    Follows out held (ms ++ ms') out'' held'' := by
  induction h with
  | nil => exact h'
  | put hq _ ih => exact Follows.put hq (ih h')
  | create hq hq' _ ih => exact Follows.create hq hq' (ih h')
  | evict hfile hq hq' _ ih => exact Follows.evict hfile hq hq' (ih h')

/-- What has been taken out and what is held make up what has been put in. -/
theorem Follows.order (h : Follows out held ms out' held') :
    out' = out ++ dequeued ms ∧ out' ++ held' = out ++ held ++ enqueued ms := by
  induction h with
  | nil => simp [dequeued, enqueued]
  | put _ _ ih => simpa [dequeued, enqueued] using ih
  | create _ _ _ ih => simpa [dequeued, enqueued] using ih
  | evict _ _ _ _ ih => simpa [dequeued, enqueued] using ih

/-- The queue at every moment on the way, and the names taken out by then. -/
theorem Follows.held_at (h : Follows out held ms out' held') {front : List Moment} {m : Moment}
    (hfront : front ++ [m] <+: ms) :
    ∃ now, Holds m.queue now ∧ out ++ dequeued (front ++ [m]) ++ now = out ++ held ++ enqueued (front ++ [m]) := by
  -- on the moments of the walk; `front` ends in one of them
  induction h generalizing front with
  | nil => exact absurd (List.prefix_nil.mp hfront) (by simp)
  | @put out held out' held' name q ms hq _ ih =>
      cases front with
      | nil =>
          obtain ⟨rfl, -⟩ := List.cons_prefix_cons.mp hfront
          exact ⟨held ++ [name], hq, by simp [dequeued, enqueued]⟩
      | cons m' front =>
          obtain ⟨rfl, hrest⟩ := List.cons_prefix_cons.mp hfront
          obtain ⟨now, hnow, heq⟩ := ih hrest
          exact ⟨now, hnow, by simpa [dequeued, enqueued] using heq⟩
  | @create out held out' held' name q q' ms hq hq' _ ih =>
      cases front with
      | nil =>
          obtain ⟨rfl, -⟩ := List.cons_prefix_cons.mp hfront
          exact ⟨held, hq, by simp [dequeued, enqueued]⟩
      | cons m' front =>
          obtain ⟨rfl, hrest⟩ := List.cons_prefix_cons.mp hfront
          cases front with
          | nil =>
              obtain ⟨rfl, -⟩ := List.cons_prefix_cons.mp hrest
              exact ⟨held ++ [name], hq', by simp [dequeued, enqueued]⟩
          | cons m'' front =>
              obtain ⟨hm'', hback⟩ := List.cons_prefix_cons.mp hrest
              subst hm''
              obtain ⟨now, hnow, heq⟩ := ih hback
              exact ⟨now, hnow, by simpa [dequeued, enqueued] using heq⟩
  | @evict out held out' held' name file q q' ms hfile hq hq' _ ih =>
      cases front with
      | nil =>
          obtain ⟨rfl, -⟩ := List.cons_prefix_cons.mp hfront
          exact ⟨name :: held, hq, by simp [dequeued, enqueued]⟩
      | cons m' front =>
          obtain ⟨rfl, hrest⟩ := List.cons_prefix_cons.mp hfront
          cases front with
          | nil =>
              obtain ⟨rfl, -⟩ := List.cons_prefix_cons.mp hrest
              exact ⟨held, hq', by simp [dequeued, enqueued]⟩
          | cons m'' front =>
              obtain ⟨hm'', hback⟩ := List.cons_prefix_cons.mp hrest
              subst hm''
              obtain ⟨now, hnow, heq⟩ := ih hback
              exact ⟨now, hnow, by simpa [dequeued, enqueued] using heq⟩

/-- What stands around a moment of a walk: a file that is created is put in next, a removal is that of the name in
front, which is taken out next, and nothing else is taken out. -/
def InPlace (front : List Moment) (m : Moment) (back : List Moment) : Prop :=
  match m.event with
  | .filled => False
  | .created file => ∃ q back', back = ⟨.enqueued file, q⟩ :: back'
  | .enqueued _ => True
  | .removed file =>
      ∃ name rest q back', Holds m.queue (name :: rest) ∧ (file = name ∨ file = name ++ zip) ∧
        back = ⟨.dequeued name, q⟩ :: back'
  | .dequeued name => ∃ before file q, front = before ++ [⟨.removed file, q⟩] ∧ (file = name ∨ file = name ++ zip)

theorem InPlace.cons (first : List Moment) {front : List Moment} {m : Moment} {back : List Moment}
    (h : InPlace front m back) : InPlace (first ++ front) m back := by
  obtain ⟨event, q⟩ := m
  cases event with
  | dequeued name =>
      obtain ⟨before, file, q', rfl, hfile⟩ := h
      exact ⟨first ++ before, file, q', (List.append_assoc _ _ _).symm, hfile⟩
  | _ => exact h

theorem Follows.inPlace (h : Follows out held ms out' held') {front back : List Moment} {m : Moment}
    (hms : ms = front ++ m :: back) : InPlace front m back := by
  induction h generalizing front with
  | nil => exact absurd hms (by simp)
  | put _ _ ih =>
      cases front with
      | nil =>
          obtain ⟨rfl, -⟩ := List.cons.inj hms
          exact trivial
      | cons m' front =>
          obtain ⟨-, hrest⟩ := List.cons.inj hms
          exact (ih hrest).cons [m']
  | create _ _ _ ih =>
      cases front with
      | nil =>
          obtain ⟨rfl, rfl⟩ := List.cons.inj hms
          exact ⟨_, _, rfl⟩
      | cons m' front =>
          obtain ⟨-, hrest⟩ := List.cons.inj hms
          cases front with
          | nil =>
              obtain ⟨rfl, -⟩ := List.cons.inj hrest
              exact trivial
          | cons m'' front =>
              obtain ⟨-, hback⟩ := List.cons.inj hrest
              exact (ih hback).cons [m', m'']
  | evict hfile hq _ _ ih =>
      cases front with
      | nil =>
          obtain ⟨rfl, rfl⟩ := List.cons.inj hms
          exact ⟨_, _, _, _, hq, hfile, rfl⟩
      | cons m' front =>
          obtain ⟨rfl, hrest⟩ := List.cons.inj hms
          cases front with
          | nil =>
              obtain ⟨rfl, -⟩ := List.cons.inj hrest
              exact ⟨[], _, _, rfl, hfile⟩
          | cons m'' front =>
              obtain ⟨-, hback⟩ := List.cons.inj hrest
              exact (ih hback).cons [_, m'']

end Follows

/-- The moments put these names of the directory into the queue, and then those of the files they create. -/
def Puts (ms : List Moment) (listed names : List Name) : Prop := enqueued ms = listed ++ names ∧ created ms = names

theorem puts_nil : Puts [] [] [] := ⟨rfl, rfl⟩

theorem Puts.append {ms ms' : List Moment} {listed names names' : List Name} (h : Puts ms listed names)
    (h' : Puts ms' [] names') : Puts (ms ++ ms') listed (names ++ names') := by
  obtain ⟨henqueued, hcreated⟩ := h
  obtain ⟨henqueued', hcreated'⟩ := h'
  constructor
  · rw [enqueued, List.filterMap_append, ← enqueued, ← enqueued, henqueued, henqueued', List.append_assoc,
      List.nil_append]
  · rw [created, List.filterMap_append, ← created, ← created, hcreated, hcreated']

/-! ## The calls -/

section Calls

variable {cfg : LogConfig} {queue : Queue Name} {out held : List Name}

/-- A removal takes the front of the queue out, or changes nothing. -/
theorem removeOldestLogfile_follows (h : Holds queue held) (out : List Name) (totalSize : Int) (r : Removal) :
    ∃ out' held', Holds (removeOldestLogfile queue totalSize r).1 held' ∧
      Follows out held (removeOldestLogfile queue totalSize r).2.2 out' held' ∧
      Puts (removeOldestLogfile queue totalSize r).2.2 [] [] := by
  have hremove : ∀ name rest file stSize removed, held = name :: rest → (file = name ∨ file = name ++ zip) →
      ∃ out' held', Holds (removeAndDequeue queue totalSize name file stSize removed).1 held' ∧
        Follows out held (removeAndDequeue queue totalSize name file stSize removed).2.2 out' held' ∧
        Puts (removeAndDequeue queue totalSize name file stSize removed).2.2 [] [] := by
    rintro name rest file stSize removed rfl hfile
    rw [removeAndDequeue]
    by_cases hremoved : removed = true
    · rw [if_pos hremoved]
      exact ⟨out ++ [name], rest, h.dequeue.1, Follows.evict hfile h h.dequeue.1 Follows.nil, rfl, rfl⟩
    · rw [if_neg hremoved]
      exact ⟨out, name :: rest, h, Follows.nil, puts_nil⟩
  rw [removeOldestLogfile, h.peek]
  cases held with
  | nil => exact ⟨out, [], h, Follows.nil, puts_nil⟩
  | cons name rest =>
      rw [List.head?_cons]
      dsimp only
      split
      · exact hremove name rest _ _ _ rfl (Or.inr rfl)
      · exact hremove name rest _ _ _ rfl (Or.inl rfl)
      · exact ⟨out, name :: rest, h, Follows.nil, puts_nil⟩

theorem removeNext_follows (h : Holds queue held) (out : List Name) (suffix : Option Name) (totalSize : Int)
    (r : Removal) :
    ∃ out' held', Holds (removeNext suffix queue totalSize r).1 held' ∧
      Follows out held (removeNext suffix queue totalSize r).2.2 out' held' ∧
      Puts (removeNext suffix queue totalSize r).2.2 [] [] := by
  rw [removeNext]
  split
  · exact removeOldestLogfile_follows h out totalSize r
  · exact ⟨out, held, h, Follows.nil, puts_nil⟩

theorem removeRound_follows (cfg : LogConfig) (h : Holds queue held) (out : List Name) (totalSize : Int) (r : Round) :
    ∃ out' held', Holds (removeRound cfg queue totalSize r).1 held' ∧
      Follows out held (removeRound cfg queue totalSize r).2.2 out' held' ∧
      Puts (removeRound cfg queue totalSize r).2.2 [] [] := by
  obtain ⟨out1, held1, hq1, hms1, hnone1⟩ := removeOldestLogfile_follows h out totalSize r.first
  obtain ⟨out2, held2, hq2, hms2, hnone2⟩ := removeNext_follows hq1 out1 cfg.secondLogfileSuffix
    (removeOldestLogfile queue totalSize r.first).2.1 r.second
  obtain ⟨out3, held3, hq3, hms3, hnone3⟩ := removeNext_follows hq2 out2 cfg.thirdLogfileSuffix
    (removeNext cfg.secondLogfileSuffix (removeOldestLogfile queue totalSize r.first).1
      (removeOldestLogfile queue totalSize r.first).2.1 r.second).2.1 r.third
  exact ⟨out3, held3, hq3, (hms1.append hms2).append hms3, (hnone1.append hnone2).append hnone3⟩

/-- The loop only takes names out. -/
theorem removeLoop_follows {maxSize : Int} (rounds : List Round) (h : Holds queue held) (out : List Name)
    (totalSize : Int) {r : Queue Name × List Moment} (hloop : removeLoop cfg maxSize queue totalSize rounds = some r) :
    ∃ out' held', Holds r.1 held' ∧ Follows out held r.2 out' held' ∧ Puts r.2 [] [] := by
  -- on the rounds: each goes from one queue to the next
  induction rounds generalizing queue held out totalSize r with
  | nil =>
      rw [removeLoop] at hloop
      split at hloop
      · cases hloop
      · obtain rfl := Option.some.inj hloop
        exact ⟨out, held, h, Follows.nil, puts_nil⟩
  | cons round rounds ih =>
      rw [removeLoop] at hloop
      split at hloop
      · obtain ⟨out1, held1, hq1, hms1, hnone1⟩ := removeRound_follows cfg h out totalSize round
        obtain ⟨rest, hrest, rfl⟩ := Option.map_eq_some_iff.mp hloop
        obtain ⟨out', held', hq, hms, hnone⟩ := ih hq1 out1 _ hrest
        exact ⟨out', held', hq, hms1.append hms, hnone1.append hnone⟩
      · obtain rfl := Option.some.inj hloop
        exact ⟨out, held, h, Follows.nil, puts_nil⟩

/-- Names that are put in stand at the end. -/
theorem enqueueAll_follows (h : Holds queue held) (out names : List Name) :
    Holds (enqueueAll queue names).1 (held ++ names) ∧
      Follows out held (enqueueAll queue names).2 out (held ++ names) ∧
      Puts (enqueueAll queue names).2 names [] := by
  induction names generalizing queue held with
  | nil =>
      rw [List.append_nil]
      exact ⟨h, Follows.nil, puts_nil⟩
  | cons name names ih =>
      obtain ⟨hq, hms, hnames, hnone⟩ := ih (h.enqueue name)
      rw [List.append_assoc] at hq hms
      exact ⟨hq, Follows.put (h.enqueue name) hms, congrArg (name :: ·) hnames, hnone⟩

theorem createAndEnqueue_follows {useCompressCmd : Int} (huse : 0 < useCompressCmd) (h : Holds queue held)
    (out : List Name) (filename : Name) :
    Holds (createAndEnqueue useCompressCmd queue filename).1 (held ++ [filename]) ∧
      Follows out held (createAndEnqueue useCompressCmd queue filename).2 out (held ++ [filename]) ∧
      Puts (createAndEnqueue useCompressCmd queue filename).2 [] [filename] := by
  rw [createAndEnqueue, if_pos huse]
  exact ⟨h.enqueue filename, Follows.create h (h.enqueue filename) Follows.nil, rfl, rfl⟩

theorem createSuffixed_follows {useCompressCmd : Int} (huse : 0 < useCompressCmd) (h : Holds queue held)
    (out : List Name) (suffix : Option Name) (filename : Name → Name) :
    Holds (createSuffixed useCompressCmd queue suffix filename).1 (held ++ suffix.toList.map filename) ∧
      Follows out held (createSuffixed useCompressCmd queue suffix filename).2 out
        (held ++ suffix.toList.map filename) ∧
      Puts (createSuffixed useCompressCmd queue suffix filename).2 [] (suffix.toList.map filename) := by
  cases suffix with
  | none =>
      rw [Option.toList_none, List.map_nil, List.append_nil]
      exact ⟨h, Follows.nil, puts_nil⟩
  | some suffix => exact createAndEnqueue_follows huse h out (filename suffix)

/-- The new files of a call stand at the end, in the order of their creation. -/
theorem createFiles_follows (cfg : LogConfig) {useCompressCmd : Int} (huse : 0 < useCompressCmd) (h : Holds queue held)
    (out : List Name) (call : CreateCall) :
    Holds (createFiles cfg useCompressCmd queue call).1 (held ++ createdNames cfg call) ∧
      Follows out held (createFiles cfg useCompressCmd queue call).2 out (held ++ createdNames cfg call) ∧
      Puts (createFiles cfg useCompressCmd queue call).2 [] (createdNames cfg call) := by
  set short := shortname call.creation call.logfileSeq with hshort
  obtain ⟨hq1, hms1, hputs1⟩ := createAndEnqueue_follows huse h out (mainName cfg short)
  obtain ⟨hq2, hms2, hputs2⟩ := createSuffixed_follows huse hq1 out cfg.secondLogfileSuffix
    fun suffix => newName cfg short suffix []
  obtain ⟨hq3, hms3, hputs3⟩ := createSuffixed_follows huse hq2 out cfg.thirdLogfileSuffix
    fun suffix => newName cfg short suffix (if cfg.readNmeaLog then [] else fmtD 1 call.creation.dplVersion)
  have hnames : createdNames cfg call = [mainName cfg short] ++
      (cfg.secondLogfileSuffix.toList.map (fun suffix => newName cfg short suffix []) ++
        cfg.thirdLogfileSuffix.toList.map fun suffix =>
          newName cfg short suffix (if cfg.readNmeaLog then [] else fmtD 1 call.creation.dplVersion)) := by
    rw [createdNames, ← hshort]
    cases cfg.secondLogfileSuffix <;> cases cfg.thirdLogfileSuffix <;> simp [mainName, newName]
  rw [hnames, ← List.append_assoc, ← List.append_assoc]
  refine ⟨hq3, hms1.append (hms2.append hms3), ?_⟩
  exact hputs1.append (hputs2.append hputs3)

/-- A call whose queue is not empty takes names out and puts the new ones in. -/
theorem qlogLogfileCreate_follows {useCompressCmd : Int} (huse : 0 < useCompressCmd) (call : CreateCall)
    (h : Holds queue held) (hne : held ≠ []) (out : List Name) {r : Queue Name × List Moment}
    (hcall : qlogLogfileCreate cfg useCompressCmd queue call = some r) :
    ∃ out' held', held' ≠ [] ∧ Holds r.1 held' ∧ Follows out held r.2 out' held' ∧
      Puts r.2 [] (createdNames cfg call) := by
  rw [qlogLogfileCreate, if_pos huse] at hcall
  obtain ⟨checked, hcheck, rfl⟩ := Option.map_eq_some_iff.mp hcall
  have hchecked : ∃ out' held', Holds checked.1 held' ∧ Follows out held checked.2 out' held' ∧
      Puts checked.2 [] [] := by
    unfold checkWorkDirSize at hcheck
    split at hcheck
    · obtain rfl := Option.some.inj hcheck
      exact ⟨out, held, h, Follows.nil, puts_nil⟩
    · dsimp only at hcheck
      rw [if_neg (fun hempty => hne (h.isEmpty.mp hempty))] at hcheck
      exact removeLoop_follows call.rounds h out _ hcheck
  obtain ⟨out1, held1, hq1, hms1, hnone⟩ := hchecked
  obtain ⟨hq, hms, hnames⟩ := createFiles_follows cfg huse hq1 out1 call
  refine ⟨out1, held1 ++ createdNames cfg call, ?_, hq, hms1.append hms, hnone.append hnames⟩
  simp [createdNames]

/-- Calls whose queue is not empty. -/
theorem createRun_follows {useCompressCmd : Int} (huse : 0 < useCompressCmd) (calls : List CreateCall)
    (h : Holds queue held) (hne : held ≠ []) (out : List Name) {r : Queue Name × List Moment}
    (hrun : createRun cfg useCompressCmd queue calls = some r) :
    ∃ out' held', Holds r.1 held' ∧ Follows out held r.2 out' held' ∧
      Puts r.2 [] (calls.flatMap (createdNames cfg)) := by
  induction calls generalizing queue held out r with
  | nil =>
      obtain rfl := Option.some.inj hrun
      exact ⟨out, held, h, Follows.nil, puts_nil⟩
  | cons call calls ih =>
      rw [createRun] at hrun
      split at hrun
      · cases hrun
      · next created hcall =>
          obtain ⟨out1, held1, hne1, hq1, hms1, hnames1⟩ := qlogLogfileCreate_follows huse call h hne out hcall
          obtain ⟨rest, hrest, rfl⟩ := Option.map_eq_some_iff.mp hrun
          obtain ⟨out', held', hq, hms, hnames⟩ := ih hq1 hne1 out1 hrest
          exact ⟨out', held', hq, hms1.append hms, hnames1.append hnames⟩

/-- The first call fills the queue before it does what every call does. -/
theorem qlogLogfileCreate_first {useCompressCmd : Int} (huse : 0 < useCompressCmd) (call : CreateCall)
    {r : Queue Name × List Moment} (hcall : qlogLogfileCreate cfg useCompressCmd createQueue call = some r) :
    ∃ fill ms out' held', (∀ m ∈ fill, m = ⟨.filled, createQueue⟩) ∧ fill.length ≤ 1 ∧ r.2 = fill ++ ms ∧
      held' ≠ [] ∧ Holds r.1 held' ∧ Follows [] [] ms out' held' ∧
      Puts ms (listing cfg [call]) (createdNames cfg call) := by
  rw [qlogLogfileCreate, if_pos huse] at hcall
  obtain ⟨checked, hcheck, rfl⟩ := Option.map_eq_some_iff.mp hcall
  -- the call of `checkWorkDirSize`, up to the new files
  have hchecked : ∃ fill ms out' held', (∀ m ∈ fill, m = ⟨.filled, createQueue⟩) ∧ fill.length ≤ 1 ∧
      checked.2 = fill ++ ms ∧ Holds checked.1 held' ∧ Follows [] [] ms out' held' ∧
      Puts ms (listing cfg [call]) [] := by
    rw [listing]
    unfold checkWorkDirSize at hcheck
    cases hscan : call.scan with
    | none =>
        rw [hscan] at hcheck
        obtain rfl := Option.some.inj hcheck
        exact ⟨[], [], [], [], by simp, by simp, rfl, holds_createQueue, Follows.nil, puts_nil⟩
    | some entries =>
        rw [hscan] at hcheck
        dsimp only at hcheck
        rw [if_pos (holds_createQueue.isEmpty.mpr rfl)] at hcheck
        obtain ⟨rest, hrest, rfl⟩ := Option.map_eq_some_iff.mp hcheck
        obtain ⟨hq1, hms1, hnames⟩ := enqueueAll_follows holds_createQueue []
          ((entries.filter filterLogfile).map (entryName cfg.logfileDir))
        obtain ⟨out', held', hq, hms, hnone⟩ := removeLoop_follows call.rounds hq1 [] _ hrest
        exact ⟨[⟨.filled, createQueue⟩],
          (enqueueAll createQueue ((entries.filter filterLogfile).map (entryName cfg.logfileDir))).2 ++ rest.2,
          out', held', by simp, by simp, rfl, hq, hms1.append hms, hnames.append hnone⟩
  obtain ⟨fill, ms1, out1, held1, hfill, hlength, hms, hq1, hms1, hnames1⟩ := hchecked
  obtain ⟨hq, hms2, hnames⟩ := createFiles_follows cfg huse hq1 out1 call
  refine ⟨fill, ms1 ++ (createFiles cfg useCompressCmd checked.1 call).2, out1, held1 ++ createdNames cfg call, hfill,
    hlength, ?_, ?_, hq, hms1.append hms2, hnames1.append hnames⟩
  · dsimp only
    rw [hms, List.append_assoc]
  · simp [createdNames]

/-- The files of the directory behind the calls are those it had and the new ones. -/
theorem mem_filesAfter (cfg : LogConfig) (calls : List CreateCall) (files : List Name) (f : Name) :
    f ∈ filesAfter cfg calls files ↔ f ∈ files ∨ f ∈ calls.flatMap (createdNames cfg) := by
  induction calls generalizing files with
  | nil => simp [filesAfter]
  | cons call calls ih =>
      have hnew : f ∈ createNew cfg (shortname call.creation call.logfileSeq) call.creation.dplVersion files ↔
          f ∈ files ∨ f ∈ createdNames cfg call := by
        rw [createNew, createdNames]
        cases cfg.secondLogfileSuffix <;> cases cfg.thirdLogfileSuffix <;> simp [mainName, newName, or_assoc]
      rw [filesAfter, List.foldl_cons, ← filesAfter, ih, hnew, List.flatMap_cons, List.mem_append, or_assoc]

end Calls

section Run

variable {cfg : LogConfig} {calls : List CreateCall} {queue : Queue Name} {fill ms : List Moment}
  {out held : List Name}

/-- A moment is that of the filling, or comes behind it. -/
theorem moment_cases (hlength : fill.length ≤ 1) {front : List Moment} {m : Moment}
    (hfront : front ++ [m] <+: fill ++ ms) :
    (front = [] ∧ m ∈ fill) ∨ ∃ front', front = fill ++ front' ∧ front' ++ [m] <+: ms := by
  cases fill with
  | nil => exact Or.inr ⟨front, rfl, hfront⟩
  | cons f fill =>
      have hnil : fill = [] := by
        rw [List.length_cons] at hlength
        exact List.length_eq_zero_iff.mp (by omega)
      rw [hnil] at hfront ⊢
      cases front with
      | nil =>
          left
          obtain ⟨hm, -⟩ := List.cons_prefix_cons.mp hfront
          exact ⟨rfl, hm ▸ List.mem_cons_self⟩
      | cons m' front =>
          right
          obtain ⟨hm', hrest⟩ := List.cons_prefix_cons.mp hfront
          exact ⟨front, by rw [hm']; rfl, hrest⟩

/-- The filling by itself puts nothing in and takes nothing out. -/
theorem filterMap_fill {f : Moment → Option Name} (hf : f ⟨.filled, createQueue⟩ = none)
    (hfill : ∀ m ∈ fill, m = ⟨.filled, createQueue⟩) (ms : List Moment) :
    (fill ++ ms).filterMap f = ms.filterMap f := by
  have hnone : fill.filterMap f = [] := by
    rw [List.filterMap_eq_nil_iff]
    intro m hm
    rw [hfill m hm, hf]
  rw [List.filterMap_append, hnone, List.nil_append]

theorem enqueued_fill (hfill : ∀ m ∈ fill, m = ⟨.filled, createQueue⟩) (ms : List Moment) :
    enqueued (fill ++ ms) = enqueued ms := filterMap_fill rfl hfill ms

theorem dequeued_fill (hfill : ∀ m ∈ fill, m = ⟨.filled, createQueue⟩) (ms : List Moment) :
    dequeued (fill ++ ms) = dequeued ms := filterMap_fill rfl hfill ms

theorem created_fill (hfill : ∀ m ∈ fill, m = ⟨.filled, createQueue⟩) (ms : List Moment) :
    created (fill ++ ms) = created ms := filterMap_fill rfl hfill ms

/-- What the queue holds at a moment, and what has been taken out by then. -/
theorem held_at_moment (hfill : ∀ m ∈ fill, m = ⟨.filled, createQueue⟩) (hlength : fill.length ≤ 1)
    (hms : Follows [] [] ms out held) {front : List Moment} {m : Moment} (hfront : front ++ [m] <+: fill ++ ms) :
    ∃ now, Holds m.queue now ∧ dequeued (front ++ [m]) ++ now = enqueued (front ++ [m]) := by
  rcases moment_cases hlength hfront with ⟨rfl, hm⟩ | ⟨front', rfl, hfront'⟩
  · rw [hfill m hm]
    exact ⟨[], holds_createQueue, rfl⟩
  · obtain ⟨now, hnow, heq⟩ := hms.held_at hfront'
    refine ⟨now, hnow, ?_⟩
    rw [List.append_assoc, enqueued_fill hfill, dequeued_fill hfill]
    exact heq

/-- A moment behind the filling stands where it should. -/
theorem inPlace_moment (hlength : fill.length ≤ 1) (hfill : ∀ m ∈ fill, m = ⟨.filled, createQueue⟩)
    (hms : Follows [] [] ms out held) {front back : List Moment} {m : Moment} (heq : fill ++ ms = front ++ m :: back) :
    (front = [] ∧ m.event = .filled) ∨ InPlace front m back := by
  have hfront : front ++ [m] <+: fill ++ ms := ⟨back, by rw [heq, List.append_assoc]; rfl⟩
  rcases moment_cases hlength hfront with ⟨hnil, hm⟩ | ⟨front', rfl, -⟩
  · left
    rw [hfill m hm]
    exact ⟨hnil, rfl⟩
  · right
    rw [List.append_assoc] at heq
    exact (hms.inPlace (List.append_cancel_left heq)).cons fill

/-- A run that first fills the queue, if it does, and then goes on like a queue takes out the oldest first. -/
theorem evictsOldest_of_follows (hfill : ∀ m ∈ fill, m = ⟨.filled, createQueue⟩) (hlength : fill.length ≤ 1)
    (hq : Holds queue held) (hms : Follows [] [] ms out held)
    (hputs : Puts ms (listing cfg calls) (calls.flatMap (createdNames cfg))) :
    EvictsOldest cfg calls queue (fill ++ ms) where
  order := by rw [enqueued_fill hfill, created_fill hfill, hputs.2, hputs.1]
  created_names := by rw [created_fill hfill, hputs.2]
  created_files files f := by rw [created_fill hfill, hputs.2, mem_filesAfter]
  created_next front file q back heq := by
    rcases inPlace_moment hlength hfill hms heq with ⟨-, hm⟩ | hplace
    · cases hm
    · exact hplace
  evicted front hfront := by
    rcases List.eq_nil_or_concat' front with rfl | ⟨front, m, rfl⟩
    · exact List.nil_prefix
    · obtain ⟨now, -, heq⟩ := held_at_moment hfill hlength hms hfront
      exact ⟨now, heq⟩
  held front m hfront := by
    obtain ⟨now, hnow, heq⟩ := held_at_moment hfill hlength hms hfront
    rw [← heq, List.drop_left]
    exact hnow
  held_end := by
    obtain ⟨hout, heq⟩ := hms.order
    rw [List.nil_append] at hout heq
    rw [enqueued_fill hfill, dequeued_fill hfill, ← hout]
    rw [List.nil_append] at heq
    rw [← heq, List.drop_left]
    exact hq
  removed front file q back heq := by
    rcases inPlace_moment hlength hfill hms heq with ⟨-, hm⟩ | hplace
    · cases hm
    · exact hplace
  dequeued_last front name q back heq := by
    rcases inPlace_moment hlength hfill hms heq with ⟨-, hm⟩ | hplace
    · cases hm
    · exact hplace
  scanned front q back heq := by
    rcases inPlace_moment hlength hfill hms heq with ⟨hnil, -⟩ | hplace
    · exact hnil
    · exact absurd hplace not_false

/-- **The oldest files go first**, in every run of calls that return. -/
theorem createRun_evictsOldest (cfg : LogConfig) (useCompressCmd : Int) (huse : 0 < useCompressCmd)
    (calls : List CreateCall) {queue : Queue Name} {ms : List Moment}
    (hrun : createRun cfg useCompressCmd createQueue calls = some (queue, ms)) :
    EvictsOldest cfg calls queue ms := by
  cases calls with
  | nil =>
      obtain ⟨rfl, rfl⟩ := Prod.mk.inj (Option.some.inj hrun)
      show EvictsOldest cfg [] createQueue ([] ++ [])
      exact evictsOldest_of_follows (by simp) (by simp) holds_createQueue Follows.nil puts_nil
  | cons call calls =>
      rw [createRun] at hrun
      split at hrun
      · cases hrun
      · next created hcall =>
          obtain ⟨fill, ms1, out1, held1, hfill, hlength, hms1, hne1, hq1, hfollows, hnames1⟩ :=
            qlogLogfileCreate_first huse call hcall
          obtain ⟨rest, hrest, heq⟩ := Option.map_eq_some_iff.mp hrun
          obtain ⟨rfl, rfl⟩ := Prod.mk.inj heq
          obtain ⟨out', held', hq, hms, hnames⟩ := createRun_follows huse calls hq1 hne1 out1 hrest
          rw [hms1, List.append_assoc]
          exact evictsOldest_of_follows hfill hlength hq (hfollows.append hms) (hnames1.append hnames)

end Run

/-- A log in the directory `d`. -/
def dirConfig : LogConfig where
  logfileNum := 0
  logfileDir := ['d']
  logfileSuffix := "qmdl".toList
  secondLogfileSuffix := none
  thirdLogfileSuffix := none
  readNmeaLog := false

/-- A log of three files in the directory `d`. -/
def threeFilesConfig : LogConfig :=
  { dirConfig with
    secondLogfileSuffix := some "_qdss.bin".toList
    thirdLogfileSuffix := some ".adplv".toList }

/-- Of the two files that are there, the compressed one is removed at the second attempt. -/
def firstCall : CreateCall where
  creation := ⟨.other, ⟨2023, 5, 2, 9, 30, 0, 0, by decide, by decide⟩, 4⟩
  logfileSeq := 0
  scan := some [⟨['.'], some 4096⟩, ⟨['a', '.', 'z', 'i', 'p'], some 20⟩, ⟨['b'], some 30⟩]
  rounds := [⟨⟨some 20, false, none, false⟩, ⟨some 20, true, none, false⟩, ⟨none, false, some 30, false⟩⟩]

/-- The other one and the main file of the first log are removed, and the second file of that log is not. -/
def secondCall : CreateCall where
  creation := ⟨.other, ⟨2023, 5, 2, 9, 31, 0, 0, by decide, by decide⟩, 5⟩
  logfileSeq := 1
  scan := some [⟨['b'], some 30⟩, ⟨"20230502_093000_0000.qmdl.zip".toList, some 25⟩]
  rounds := [⟨⟨none, false, some 30, true⟩, ⟨some 25, true, none, false⟩, ⟨none, false, none, false⟩⟩]

theorem createRun_evictsOldest_twoCalls :
    ∃ queue ms, createRun threeFilesConfig 40 createQueue [firstCall, secondCall] = some (queue, ms) ∧
      EvictsOldest threeFilesConfig [firstCall, secondCall] queue ms ∧
      created ms = ["d/20230502_093000_0000.qmdl".toList, "d/20230502_093000_0000_qdss.bin".toList,
        "d/20230502_093000_0000.adplv4".toList, "d/20230502_093100_0001.qmdl".toList,
        "d/20230502_093100_0001_qdss.bin".toList, "d/20230502_093100_0001.adplv5".toList] ∧
      dequeued ms = ["d/a".toList, "d/b".toList, "d/20230502_093000_0000.qmdl".toList] :=
  ⟨_, _, rfl, createRun_evictsOldest threeFilesConfig 40 (by decide) [firstCall, secondCall] rfl, rfl, rfl⟩

end QLog.Compress
