import QLog.Capture.Loop
import QLog.Capture.Slots

/-! # From the device to the log files

A thread for each port reads the device and writes to a pair of sockets, and the capture loop polls the other ends and
saves what it reads. Both write through the table of caches. The trace says what became of the bytes: read from the
device, accepted by a log file, left behind in the cache of a file that is closed, read but not saved, or dropped by a
full cache. Where no cache drops, the bytes of a port are in one row through all of this, however the threads take turns
and however often the files change. -/

namespace QLog.Capture

open Library Kfifo KfifoTable

/-- What became of some bytes of a port. -/
inductive Fate where
  /-- read from the device -/
  | device
  /-- accepted by a log file -/
  | filed
  /-- in the cache of a file that is closed -/
  | left
  /-- read by the loop, and not saved -/
  | unsaved
  /-- dropped or refused by a cache -/
  | dropped
  deriving DecidableEq

structure Entry where
  port : Port
  fate : Fate
  bytes : List UInt8

/-- What is outside the loop. -/
structure World where
  table : KfifoTable
  trace : List Entry

/-- What a round meets: the descriptors of a new file, and the writes of the save. -/
structure Env where
  opened : Opened
  save : SaveEnv

/-- The file a port is saved to. -/
def Sink.file? : Sink → Option File
  | .ops file => some file
  | .plain file => some file
  | .nowhere => none

/-- The descriptor a port is saved to. -/
def sinkFd (h : Handler) (files : Opened) (port : Port) : Int :=
  match (h.sink port).file? with
  | some file => files.get file
  | none => -1

instance (f : Kfifo) (buf : List UInt8) (env : WriteEnv) : Decidable (f.Refused buf env) :=
  inferInstanceAs (Decidable (_ ∧ _ ∧ _))

/-- The end of a chunk that a cache dropped, if it did. -/
def dropEntry (port : Port) (buf : List UInt8) (dropped : Nat) : List Entry :=
  if dropped = 0 then [] else [⟨port, .dropped, buf.drop (buf.length - dropped)⟩]

/-- What a save does not take: a write that accepts less, or a chunk that is refused as a whole. -/
def unsaved (t : KfifoTable) (fd : Int) (buf : List UInt8) (env : SaveEnv) : List UInt8 :=
  match t.kfifoIdx fd with
  | none => buf.drop env.poll
  | some i => if (t i).Refused buf env.cache then buf else []

/-- `qlog_logfile_save`, with what became of the bytes. -/
def saveTraced (env : Env) (w : World) (port : Port) (fd : Int) (buf : List UInt8) : World × Nat :=
  let saved := qlogLogfileSave w.table fd buf env.save
  (⟨saved.1, w.trace ++ ([⟨port, .filed, saved.2.sent⟩, ⟨port, .unsaved, unsaved w.table fd buf env.save⟩]
    ++ dropEntry port buf saved.2.dropped)⟩, saved.2.ret)

/-- The ports, in any order. -/
def ports : List Port := [.dm, .general, .third]

/-- The functions of a module whose `logfile_save` hands on what it is given to `qlog_logfile_save`, and whose
`logfile_init` writes to no cache. The files are on the disk or on an FTP server, where each gets a cache. -/
def cacheOps (h : Handler) : QlogOps World Env where
  logfileCreate env w _ :=
    (⟨(((w.table.kfifoAlloc env.opened.fd).1.kfifoAlloc env.opened.second).1.kfifoAlloc env.opened.third).1, w.trace⟩,
      env.opened)
  logfileInit w _ _ := w
  logfileSave := saveTraced
  qlogLogfileSave := saveTraced
  logfileClose w files :=
    ⟨qlogLogfileClose w.table files.fd files.second files.third,
      w.trace ++ ports.map fun port => ⟨port, .left, cached w.table (sinkFd h files port)⟩⟩
  rotated w := w
  cleanFilter w := w

/-- The loops over such modules: their `logfile_save` is `asr_logfile_save`, `mtk_logfile_save`, or `mdm_logfile_save`
without `use_qmdl2_v2`. -/
def SavesAsRead (args : Arguments) (h : Handler) : Prop :=
  args.isTty2tcp = false ∧ (h = messageHandleAsr args ∨ h = messageHandleMtk args ∨ h = messageHandleMdm args false)

/-- Where the thread of a port is: not started, inside `kfifo_alloc` with the slot it has found, in its loop with its
`idx`, inside `kfifo_free` with a slot that it has given up, or over. -/
inductive Reader where
  | idle
  | allocating (found : Option (Fin fifoNum))
  | running (idx : Option (Fin fifoNum))
  | clearing (idx : Option (Fin fifoNum))
  | ended

/-- The thread is inside a call, with a free slot that it is going to store to. -/
def Reader.inside : Reader → Bool
  | .allocating _ | .clearing _ => true
  | _ => false

/-- The free slot that the thread is going to store to. -/
def Reader.storesTo : Reader → Option (Fin fifoNum)
  | .allocating found => found
  | .clearing idx => idx
  | _ => none

/-- The end of the thread has come. -/
def Reader.isOver : Reader → Bool
  | .clearing _ | .ended => true
  | _ => false

/-- Both sides of the sockets. -/
structure Pipeline where
  loop : Loop
  world : World
  /-- The bytes between the ends of a socket pair. -/
  socket : Port → List UInt8
  reader : Port → Reader
  /-- `g_is_usb_disconnect` -/
  isUsbDisconnect : Bool

/-- What happens: the thread of a port starts and looks for a slot, takes it, reads from the device, comes to its end
and gives its slot up, whether or not its byte is taken, or clears it; the end is asked for; or the loop makes a step.
-/
inductive PipeEvent where
  | start (port : Port)
  | take (port : Port)
  | usb (port : Port) (buf : List UInt8) (env : WriteEnv)
  | fail (port : Port) (woken : Bool)
  | clear (port : Port)
  | exit
  | test
  | poll (ready : Bool)
  | read (port : Port) (size : Nat) (dump : Bool) (env : Env)

/-- A round of `qlog_usbfs_read`: an empty packet is not written, and the thread does not look at what `kfifo_write`
returns. -/
def usbRead (s : Pipeline) (port : Port) (buf : List UInt8) (env : WriteEnv) : Pipeline :=
  match s.reader port with
  | .running (some i) =>
      if buf = [] then s
      else
        let written := (s.world.table i).kfifoWrite buf env
        { s with
          world := ⟨s.world.table.write i buf env, s.world.trace ++ (⟨port, .device, buf⟩ ::
            (if (s.world.table i).Refused buf env then [⟨port, .dropped, buf⟩]
              else dropEntry port buf written.dropped))⟩
          socket := Function.update s.socket port (s.socket port ++ written.sent) }
  | .running none =>
      if buf = [] then s
      else { s with world := ⟨s.world.table, s.world.trace ++ [⟨port, .device, buf⟩, ⟨port, .dropped, buf⟩]⟩ }
  | _ => s

/-- The end of `qlog_usbfs_read`: unless the end was asked for, the loop is woken up with a zero byte, and the slot is
given up. -/
def usbFail (s : Pipeline) (port : Port) (woken : Bool) : Pipeline :=
  match s.reader port with
  | .running idx =>
      { s with
        world := ⟨kfifoGive s.world.table idx, s.world.trace⟩
        socket := Function.update s.socket port
          (s.socket port ++ if woken && !s.loop.exitRequested then [0] else [])
        reader := Function.update s.reader port (.clearing idx)
        isUsbDisconnect := s.isUsbDisconnect || !s.loop.exitRequested }
  | _ => s

section Step

variable (h : Handler) (outfd : Port → Int)

/-- A read of the loop does not come to a save: it starts a dump, there is no file for it, or its port has none. -/
def notSaved (loop : Loop) (world : World) (round : Round Env) : Bool :=
  h.hasDump && round.dump || decide ((openFile h (cacheOps h) loop world round.env).1.files.fd ≤ 0) ||
    decide ((h.sink round.port).file? = none)

/-- The loop reads what is in the socket, up to the size that `read` returns. -/
def loopRead (s : Pipeline) (port : Port) (size : Nat) (dump : Bool) (env : Env) : Pipeline :=
  if s.loop.pc = .reading then
    let round : Round Env := ⟨port, (s.socket port).take size, dump, env⟩
    let next := captureStep h (cacheOps h) (s.loop, s.world) (.read round)
    { s with
      loop := next.1
      world := ⟨next.2.table, next.2.trace ++
        if notSaved h s.loop s.world round then [⟨port, .unsaved, round.buf⟩] else []⟩
      socket := Function.update s.socket port ((s.socket port).drop size) }
  else s

/-- A step of the loop that touches no socket. -/
def loopStep (s : Pipeline) (event : Event Env) : Pipeline :=
  let next := captureStep h (cacheOps h) (s.loop, s.world) event
  { s with loop := next.1, world := next.2 }

/-- One step of a thread or of the loop. -/
def pipeStep (s : Pipeline) : PipeEvent → Pipeline
  | .start port =>
      match s.reader port with
      | .idle => { s with reader := Function.update s.reader port (.allocating (s.world.table.find (-1))) }
      | _ => s
  | .take port =>
      match s.reader port with
      | .allocating found =>
          { s with
            world := ⟨kfifoTake s.world.table (outfd port) found, s.world.trace⟩
            reader := Function.update s.reader port (.running found) }
      | _ => s
  | .usb port buf env => usbRead s port buf env
  | .fail port woken => usbFail s port woken
  | .clear port =>
      match s.reader port with
      | .clearing idx =>
          { s with
            world := ⟨kfifoClear s.world.table idx, s.world.trace⟩
            reader := Function.update s.reader port .ended }
      | _ => s
  | .exit => loopStep h s .exit
  | .test => loopStep h s .test
  | .poll ready => loopStep h s (.poll (ready && !s.isUsbDisconnect))
  | .read port size dump env => loopRead h s port size dump env

/-- A run of the threads and the loop. -/
def pipeRun (s : Pipeline) (events : List PipeEvent) : Pipeline := events.foldl (pipeStep h outfd) s

/-- Before anything has started. -/
def pipeStart (args : Arguments) (seq : Nat) : Pipeline :=
  ⟨start args seq, ⟨kfifoTable, []⟩, fun _ => [], fun _ => .idle, false⟩

/-- A slot is looked for: by a thread, or for a file that the loop makes. -/
def Looks (s : Pipeline) : PipeEvent → Prop
  | .start _ => True
  | .read .. => s.loop.files.fd = -1
  | _ => False

/-- No slot is looked for while a thread is inside `kfifo_alloc` or `kfifo_free`. -/
def Undisturbed (s : Pipeline) (event : PipeEvent) : Prop := Looks s event → ∀ port, (s.reader port).inside = false

/-- No slot is looked for in a run while a thread is inside `kfifo_alloc` or `kfifo_free`. -/
def Exclusive : Pipeline → List PipeEvent → Prop
  | _, [] => True
  | s, event :: events => Undisturbed s event ∧ Exclusive (pipeStep h outfd s event) events

instance (s : Pipeline) : (event : PipeEvent) → Decidable (Looks s event)
  | .start _ => inferInstanceAs (Decidable True)
  | .read .. => inferInstanceAs (Decidable (s.loop.files.fd = -1))
  | .take _ | .usb .. | .fail .. | .clear _ | .exit | .test | .poll _ => inferInstanceAs (Decidable False)

instance (s : Pipeline) (event : PipeEvent) : Decidable (Undisturbed s event) :=
  decidable_of_iff (Looks s event → ∀ port ∈ ports, (s.reader port).inside = false)
    (imp_congr_right fun _ => ⟨fun h port => h port (by cases port <;> decide), fun h port _ => h port⟩)

instance decidableExclusive : (s : Pipeline) → (events : List PipeEvent) → Decidable (Exclusive h outfd s events)
  | _, [] => inferInstanceAs (Decidable True)
  | s, event :: events =>
      @instDecidableAnd _ _ inferInstance (decidableExclusive (pipeStep h outfd s event) events)

end Step

/-! ## The bytes of a port -/

/-- The loop has taken them. -/
def Fate.taken : Fate → Bool
  | .filed | .left | .unsaved => true
  | _ => false

/-- The bytes of a port with certain fates, in order. -/
def bytesOf (fates : Fate → Bool) (port : Port) (trace : List Entry) : List UInt8 :=
  trace.flatMap fun entry => if entry.port = port ∧ fates entry.fate then entry.bytes else []

/-- What the thread of a port has read. -/
def deviceOf (port : Port) (trace : List Entry) : List UInt8 := bytesOf (fun fate => fate = .device) port trace

/-- What the loop has taken from a port. -/
def takenOf (port : Port) (trace : List Entry) : List UInt8 := bytesOf Fate.taken port trace

/-- A cache has dropped something. -/
def HasDropped (trace : List Entry) : Prop := ∃ entry ∈ trace, entry.fate = .dropped

section Bytes

variable {fates : Fate → Bool} {port other : Port} {trace : List Entry}

theorem bytesOf_append (fates : Fate → Bool) (port : Port) (trace more : List Entry) :
    bytesOf fates port (trace ++ more) = bytesOf fates port trace ++ bytesOf fates port more := by
  rw [bytesOf, List.flatMap_append, bytesOf, bytesOf]

theorem takenOf_append (port : Port) (trace more : List Entry) :
    takenOf port (trace ++ more) = takenOf port trace ++ takenOf port more := bytesOf_append ..

theorem deviceOf_append (port : Port) (trace more : List Entry) :
    deviceOf port (trace ++ more) = deviceOf port trace ++ deviceOf port more := bytesOf_append ..

/-- Entries of another port, or of another fate, do not count. -/
theorem bytesOf_eq_nil (h : ∀ entry ∈ trace, entry.port = port → fates entry.fate = false) :
    bytesOf fates port trace = [] := by
  refine List.flatMap_eq_nil_iff.mpr fun entry hentry => if_neg ?_
  rintro ⟨hport, hfate⟩
  exact absurd (hfate.symm.trans (h entry hentry hport)) Bool.noConfusion

theorem hasDropped_append {more : List Entry} : HasDropped (trace ++ more) ↔ HasDropped trace ∨ HasDropped more := by
  constructor
  · rintro ⟨entry, hentry, hfate⟩
    exact (List.mem_append.mp hentry).imp (fun h => ⟨entry, h, hfate⟩) fun h => ⟨entry, h, hfate⟩
  · rintro (⟨entry, hentry, hfate⟩ | ⟨entry, hentry, hfate⟩)
    · exact ⟨entry, List.mem_append_left _ hentry, hfate⟩
    · exact ⟨entry, List.mem_append_right _ hentry, hfate⟩

/-- Without an entry nothing was dropped. -/
theorem dropEntry_eq_nil {buf : List UInt8} {dropped : Nat} (h : ¬HasDropped (dropEntry port buf dropped)) :
    dropped = 0 := by
  by_contra hne
  refine h ⟨⟨port, .dropped, buf.drop (buf.length - dropped)⟩, ?_, rfl⟩
  rw [dropEntry, if_neg hne]
  exact List.mem_singleton_self _

end Bytes

/-! ## What a step of the loop carries on -/

/-- The descriptors of a set of files are none of the threads', and no two are the same. -/
structure Opened.Apart (outfd : Port → Int) (opened : Opened) : Prop where
  outs : ∀ file port, opened.get file ≠ outfd port
  files : ∀ file other, file ≠ other → opened.get file ≠ -1 → opened.get file ≠ opened.get other

/-- What the table and the loop keep: the descriptors in the table are those of the threads that run and of the files
that are open. -/
structure Wired (outfd : Port → Int) (reader : Port → Reader) (s : Loop × World) : Prop where
  valid : s.2.table.Valid
  single : Single s.2.table
  known : ∀ fd, fd ≠ -1 → Uses s.2.table fd →
    (∃ port i, reader port = .running (some i) ∧ fd = outfd port) ∨ ∃ file, fd = s.1.files.get file
  running : ∀ port i, reader port = .running (some i) → (s.2.table i).fd = outfd port
  apart : s.1.files.Apart outfd

/-- While the loop runs, either a file is open or none of the set is. -/
def Tidy (s : Loop) : Prop := s.pc ≠ .stopped → 0 < s.files.fd ∨ s.files = noFiles

/-- What the loop has taken from a port, and what is cached of it for a file. -/
def flow (h : Handler) (port : Port) (s : Loop × World) : List UInt8 :=
  takenOf port s.2.trace ++ cached s.2.table (sinkFd h s.1.files port)

/-- A step of the loop carries on what it took from the ports, and leaves the threads alone. -/
structure Carries (h : Handler) (outfd : Port → Int) (reader : Port → Reader) (took : Port → List UInt8)
    (s s' : Loop × World) : Prop where
  wired : Wired outfd reader s'
  flow : ∀ port, flow h port s' = flow h port s ++ took port
  outs : ∀ port, cached s'.2.table (outfd port) = cached s.2.table (outfd port)
  device : ∀ port, deviceOf port s'.2.trace = deviceOf port s.2.trace

section Carries

variable {h : Handler} {outfd : Port → Int} {reader : Port → Reader} {loop loop' : Loop} {world : World}

theorem Carries.refl {s : Loop × World} (hwired : Wired outfd reader s) :
    Carries h outfd reader (fun _ => []) s s :=
  ⟨hwired, fun _ => (List.append_nil _).symm, fun _ => rfl, fun _ => rfl⟩

theorem Carries.trans {took took' : Port → List UInt8} {s s' s'' : Loop × World}
    (hfirst : Carries h outfd reader took s s') (hsecond : Carries h outfd reader took' s' s'') :
    Carries h outfd reader (fun port => took port ++ took' port) s s'' := by
  refine ⟨hsecond.wired, fun port => ?_, fun port => ?_, fun port => ?_⟩
  · rw [hsecond.flow, hfirst.flow, List.append_assoc]
  · rw [hsecond.outs, hfirst.outs]
  · rw [hsecond.device, hfirst.device]

/-- The flags of a loop do not matter. -/
theorem Carries.of_files {took : Port → List UInt8} {s : Loop × World}
    (hcarries : Carries h outfd reader took s (loop, world))
    (hfiles : loop'.files = loop.files) : Carries h outfd reader took s (loop', world) := by
  obtain ⟨hwired, hflow, houts, hdevice⟩ := hcarries
  refine ⟨⟨hwired.valid, hwired.single, ?_, hwired.running, ?_⟩, ?_, houts, hdevice⟩
  · rw [hfiles]
    exact hwired.known
  · rw [hfiles]
    exact hwired.apart
  · intro port
    rw [← hflow port, Capture.flow, Capture.flow, hfiles]

/-- The descriptor of a port is that of its file. -/
theorem sinkFd_cases (h : Handler) (files : Opened) (port : Port) :
    sinkFd h files port = -1 ∨ ∃ file, (h.sink port).file? = some file ∧ sinkFd h files port = files.get file := by
  rw [sinkFd]
  cases (h.sink port).file? with
  | none => exact Or.inl rfl
  | some file => exact Or.inr ⟨file, rfl, rfl⟩

@[simp] theorem get_noFiles (file : File) : noFiles.get file = -1 := by cases file <;> rfl

@[simp] theorem sinkFd_noFiles (port : Port) : sinkFd h noFiles port = -1 := by
  rcases sinkFd_cases h noFiles port with hnone | ⟨file, -, hfile⟩
  · exact hnone
  · rw [hfile, get_noFiles]

theorem apart_noFiles (hopen : ∀ port, outfd port ≠ -1) : noFiles.Apart outfd := by
  refine ⟨fun file port heq => ?_, fun file other _ hused => ?_⟩
  · exact hopen port (by rw [← heq, get_noFiles])
  · exact absurd (get_noFiles file) hused

/-- A set of files is closed: what was cached for them is left. -/
theorem carries_close (hopen : ∀ port, outfd port ≠ -1) (hwired : Wired outfd reader (loop, world))
    (hfiles : loop'.files = noFiles) :
    Carries h outfd reader (fun _ => []) (loop, world) (loop', (cacheOps h).logfileClose world loop.files) := by
  obtain ⟨hvalid, hsingle, hknown, hrunning, hapart⟩ := hwired
  obtain ⟨hsingle', huses⟩ := hsingle.close loop.files.fd loop.files.second loop.files.third
  have hsame : ∀ port, Apart (outfd port) world.table
      (qlogLogfileClose world.table loop.files.fd loop.files.second loop.files.third) := fun port =>
    apart_close world.table (hopen port) (hapart.outs .log port) (hapart.outs .second port) (hapart.outs .third port)
  refine ⟨⟨valid_close hvalid _ _ _, hsingle', fun fd hfd hused => ?_, fun port i hreader => ?_, ?_⟩, fun port => ?_,
    fun port => (hsame port).cached_eq, fun port => ?_⟩
  · obtain ⟨hused, hlog, hsecond, hthird⟩ := huses fd hfd hused
    rcases hknown fd hfd hused with hport | ⟨file, hfile⟩
    · exact Or.inl hport
    · cases file with
      | log => exact absurd hfile hlog
      | second => exact absurd hfile hsecond
      | third => exact absurd hfile hthird
  · have hfd := hrunning port i hreader
    exact (congrArg Kfifo.fd ((hsame port).same i hfd)).trans hfd
  · rw [hfiles]
    exact apart_noFiles hopen
  -- each port leaves what is cached of it behind
  · rw [List.append_nil, flow, hfiles, sinkFd_noFiles, cached_neg_one, List.append_nil, flow]
    show takenOf port (world.trace ++ _) = _
    rw [takenOf_append]
    refine congrArg (takenOf port world.trace ++ ·) ?_
    cases port <;> simp [takenOf, bytesOf, ports, Fate.taken]
  · show deviceOf port (world.trace ++ _) = _
    rw [deviceOf_append, deviceOf, deviceOf]
    refine (congrArg (_ ++ ·) (bytesOf_eq_nil fun entry hentry _ => ?_)).trans (List.append_nil _)
    obtain ⟨other, -, rfl⟩ := List.mem_map.mp hentry
    rfl

/-- What the end of the loop does here: no filter is cleaned. -/
theorem finish_cacheOps (h : Handler) (loop : Loop) (world : World) :
    finish h (cacheOps h) loop world =
      ({ loop with pc := .stopped, files := if loop.files.fd ≠ -1 then noFiles else loop.files },
        if loop.files.fd ≠ -1 then (cacheOps h).logfileClose world loop.files else world) := by
  have hclean : ∀ w : World, (if (loop.exitRequested && h.hasCleanFilter) = true then (cacheOps h).cleanFilter w else w)
      = w := fun w => by split_ifs <;> rfl
  rw [finish, hclean]

/-- Behind the loop. -/
theorem carries_finish (hopen : ∀ port, outfd port ≠ -1) (hwired : Wired outfd reader (loop, world)) :
    Carries h outfd reader (fun _ => []) (loop, world) (finish h (cacheOps h) loop world) := by
  rw [finish_cacheOps]
  by_cases hfd : loop.files.fd = -1
  · rw [if_neg (not_not.mpr hfd), if_neg (not_not.mpr hfd)]
    exact (Carries.refl hwired).of_files rfl
  · rw [if_pos hfd, if_pos hfd]
    exact carries_close hopen hwired rfl

/-- A descriptor that is not in use is given a cache, which is empty. -/
structure Allocated (t t' : KfifoTable) (fd : Int) : Prop where
  valid : t'.Valid
  single : Single t'
  uses : ∀ a, a ≠ -1 → Uses t' a → Uses t a ∨ a = fd
  empty : cached t' fd = []
  others : ∀ a, a ≠ -1 → a ≠ fd → Apart a t t'

theorem allocated_take {t : KfifoTable} (ht : t.Valid) (hsingle : Single t) {fd : Int} (hne : fd ≠ -1)
    (hfd : ¬Uses t fd) {found : Option (Fin fifoNum)} (hfree : ∀ i, found = some i → (t i).fd = -1) :
    Allocated t (kfifoTake t fd found) fd := by
  obtain ⟨hsingle', huses, hempty⟩ := hsingle.take hne hfd found
  exact ⟨valid_take ht fd found, hsingle', fun a _ ha => (huses a ha).imp_right And.left, hempty,
    fun a ha hother => apart_take ha hother.symm hfree⟩

theorem allocated {t : KfifoTable} (ht : t.Valid) (hsingle : Single t) {fd : Int} (hfd : fd = -1 ∨ ¬Uses t fd) :
    Allocated t (t.kfifoAlloc fd).1 fd := by
  by_cases hne : fd = -1
  · have hsame : (t.kfifoAlloc fd).1 = t := by rw [kfifoAlloc, if_pos hne]
    rw [hsame, hne]
    exact ⟨ht, hsingle, fun _ _ ha => Or.inl ha, cached_neg_one, fun a _ _ => Apart.refl a t⟩
  · rw [kfifoAlloc_eq_take t hne]
    exact allocated_take ht hsingle hne (hfd.resolve_left hne) fun i hi => find_fd hi

/-- A set of files is given caches. -/
theorem allocated_files {t : KfifoTable} (ht : t.Valid) (hsingle : Single t) {opened : Opened}
    (hnew : ∀ file, opened.get file = -1 ∨ ¬Uses t (opened.get file))
    (hapart : ∀ file other, file ≠ other → opened.get file ≠ -1 → opened.get file ≠ opened.get other) :
    let t' := (((t.kfifoAlloc opened.fd).1.kfifoAlloc opened.second).1.kfifoAlloc opened.third).1
    t'.Valid ∧ Single t' ∧ (∀ a, a ≠ -1 → Uses t' a → Uses t a ∨ ∃ file, a = opened.get file) ∧
      (∀ file, cached t' (opened.get file) = []) ∧
      ∀ a, a ≠ -1 → (∀ file, opened.get file ≠ a) → Apart a t t' := by
  intro t'
  have h₁ := allocated ht hsingle (hnew .log)
  have hsecond : opened.second = -1 ∨ ¬Uses (t.kfifoAlloc opened.fd).1 opened.second := by
    rcases hnew .second with hnone | hnot
    · exact Or.inl hnone
    · by_cases hnone : opened.second = -1
      · exact Or.inl hnone
      · refine Or.inr fun hused => ?_
        rcases h₁.uses _ hnone hused with hused | heq
        · exact hnot hused
        · exact hapart .second .log File.noConfusion hnone heq
  have h₂ := allocated h₁.valid h₁.single hsecond
  have hthird : opened.third = -1 ∨
      ¬Uses ((t.kfifoAlloc opened.fd).1.kfifoAlloc opened.second).1 opened.third := by
    rcases hnew .third with hnone | hnot
    · exact Or.inl hnone
    · by_cases hnone : opened.third = -1
      · exact Or.inl hnone
      · refine Or.inr fun hused => ?_
        rcases h₂.uses _ hnone hused with hused | heq
        · rcases h₁.uses _ hnone hused with hused | heq
          · exact hnot hused
          · exact hapart .third .log File.noConfusion hnone heq
        · exact hapart .third .second File.noConfusion hnone heq
  have h₃ := allocated h₂.valid h₂.single hthird
  refine ⟨h₃.valid, h₃.single, fun a ha hused => ?_, fun file => ?_, fun a ha hne => ?_⟩
  · rcases h₃.uses a ha hused with hused | heq
    · rcases h₂.uses a ha hused with hused | heq
      · exact (h₁.uses a ha hused).imp_right fun heq => ⟨.log, heq⟩
      · exact Or.inr ⟨.second, heq⟩
    · exact Or.inr ⟨.third, heq⟩
  -- a file that has been given its cache keeps it empty while the others are given theirs
  · by_cases hnone : opened.get file = -1
    · rw [hnone, cached_neg_one]
    · cases file with
      | log =>
          have hsecond := (h₂.others _ hnone (hapart .log .second File.noConfusion hnone)).cached_eq
          have hthird := (h₃.others _ hnone (hapart .log .third File.noConfusion hnone)).cached_eq
          exact (hthird.trans hsecond).trans h₁.empty
      | second =>
          have hthird := (h₃.others _ hnone (hapart .second .third File.noConfusion hnone)).cached_eq
          exact hthird.trans h₂.empty
      | third => exact h₃.empty
  · exact ((h₁.others a ha (hne .log).symm).trans (h₂.others a ha (hne .second).symm)).trans
      (h₃.others a ha (hne .third).symm)

/-- A set of files is made when none is open. -/
theorem carries_openFile (hopen : ∀ port, outfd port ≠ -1) (hwired : Wired outfd reader (loop, world)) (env : Env)
    (htidy : 0 < loop.files.fd ∨ loop.files = noFiles) (hopened : env.opened.Apart outfd) :
    Carries h outfd reader (fun _ => []) (loop, world) (openFile h (cacheOps h) loop world env) := by
  rcases htidy with hfd | hfiles
  · rw [openFile, if_neg (by omega)]
    exact Carries.refl hwired
  · have hnew : ∀ file, env.opened.get file = -1 ∨ ¬Uses world.table (env.opened.get file) := by
      intro file
      by_cases hnone : env.opened.get file = -1
      · exact Or.inl hnone
      · refine Or.inr fun hused => ?_
        rcases hwired.known _ hnone hused with ⟨port, i, -, heq⟩ | ⟨other, heq⟩
        · exact hopened.outs file port heq
        · exact hnone (heq.trans (by rw [hfiles, get_noFiles]))
    obtain ⟨hvalid, hsingle, huses, hempty, hothers⟩ :=
      allocated_files hwired.valid hwired.single hnew hopened.files
    have houts : ∀ port, Apart (outfd port) world.table _ := fun port =>
      hothers (outfd port) (hopen port) fun file => hopened.outs file port
    have hmade : Carries h outfd reader (fun _ => []) (loop, world)
        ({ loop with files := env.opened }, ((cacheOps h).logfileCreate env world loop.seq).1) := by
      refine ⟨⟨hvalid, hsingle, fun fd hne hused => ?_, fun port i hreader => ?_, hopened⟩, fun port => ?_,
        fun port => (houts port).cached_eq, fun port => rfl⟩
      · rcases huses fd hne hused with hused | hfile
        · rcases hwired.known fd hne hused with hport | ⟨other, heq⟩
          · exact Or.inl hport
          · exact absurd (heq.trans (by rw [hfiles, get_noFiles])) hne
        · exact Or.inr hfile
      · have hslot := hwired.running port i hreader
        exact (congrArg Kfifo.fd ((houts port).same i hslot)).trans hslot
      · rw [List.append_nil, flow, flow, hfiles, sinkFd_noFiles, cached_neg_one]
        refine congrArg (takenOf port world.trace ++ ·) ?_
        rcases sinkFd_cases h env.opened port with hnone | ⟨file, -, hfile⟩
        · rw [hnone, cached_neg_one]
        · rw [hfile]
          exact hempty file
    have hclosed : loop.files.fd = -1 := by rw [hfiles]; rfl
    rw [openFile, if_pos hclosed]
    dsimp only
    split_ifs
    · exact hmade
    · exact hmade.of_files rfl
    · exact hmade

/-- A save that drops nothing: what is accepted, what is not taken, and what is cached. -/
theorem save_conserves {t : KfifoTable} (ht : t.Valid) (fd : Int) (buf : List UInt8) (env : SaveEnv)
    (hdropped : (qlogLogfileSave t fd buf env).2.dropped = 0) :
    (qlogLogfileSave t fd buf env).2.sent ++ unsaved t fd buf env ++ cached (qlogLogfileSave t fd buf env).1 fd
      = cached t fd ++ buf := by
  cases hidx : t.kfifoIdx fd with
  | none =>
      rw [unsaved, hidx]
      simp only [qlogLogfileSave, hidx, cached]
      rw [List.take_append_drop, List.append_nil, List.nil_append]
  | some i =>
      rw [unsaved, hidx]
      simp only [qlogLogfileSave, hidx, cached, kfifoIdx_write hidx, write_self] at hdropped ⊢
      by_cases href : (t i).Refused buf env.cache
      · rw [if_pos href, kfifoWrite_refused href]
        dsimp only
        rw [pending_eq_nil href.1, List.append_nil]
      · rw [if_neg href, List.append_nil, (kfifoWrite_spec (ht i) buf env.cache).2 href, hdropped, Nat.sub_zero,
          List.take_length]

/-- What a port takes, and nothing for the others. -/
def only (port : Port) (buf : List UInt8) : Port → List UInt8 := fun other => if other = port then buf else []

theorem only_self (port : Port) (buf : List UInt8) : only port buf port = buf := if_pos rfl

theorem only_of_ne {port other : Port} (hne : other ≠ port) (buf : List UInt8) : only port buf other = [] := if_neg hne

/-- No two ports are saved to one file. -/
def Handler.Separate (h : Handler) : Prop :=
  ∀ port other file, (h.sink port).file? = some file → (h.sink other).file? = some file → port = other

theorem save_cacheOps (loop : Loop) (world : World) (round : Round Env) :
    save h (cacheOps h) loop world round = match (h.sink round.port).file? with
      | some file => saveTraced round.env world round.port (loop.files.get file) round.buf
      | none => (world, 0) := by
  rw [save]
  cases h.sink round.port <;> rfl

/-- A save that drops nothing takes what was read. -/
theorem carries_save (hsinks : h.Separate)
    (hwired : Wired outfd reader (loop, world)) {port : Port} {file : File} (hsink : (h.sink port).file? = some file)
    (buf : List UInt8) (env : Env)
    (hdropped : ¬HasDropped (saveTraced env world port (loop.files.get file) buf).1.trace) :
    Carries h outfd reader (only port buf) (loop, world)
      (loop, (saveTraced env world port (loop.files.get file) buf).1) := by
  have hself : sinkFd h loop.files port = loop.files.get file := by rw [sinkFd, hsink]
  have hfds := sameFds_save world.table (loop.files.get file) buf env.save
  have hzero : (qlogLogfileSave world.table (loop.files.get file) buf env.save).2.dropped = 0 :=
    dropEntry_eq_nil fun hdrop => hdropped (hasDropped_append.mpr (Or.inr (hasDropped_append.mpr (Or.inr hdrop))))
  have htrace : (saveTraced env world port (loop.files.get file) buf).1.trace
      = world.trace ++ [⟨port, .filed, (qlogLogfileSave world.table (loop.files.get file) buf env.save).2.sent⟩,
          ⟨port, .unsaved, unsaved world.table (loop.files.get file) buf env.save⟩] := by
    rw [saveTraced]
    dsimp only
    rw [hzero, dropEntry, if_pos rfl, List.append_nil]
  refine ⟨⟨valid_save hwired.valid _ _ _, hfds.single hwired.single, fun fd hfd hused => ?_, fun other i hreader => ?_,
    hwired.apart⟩, fun other => ?_, fun other => ?_, fun other => ?_⟩
  · exact hwired.known fd hfd (hfds.uses hused)
  · exact (hfds i).trans (hwired.running other i hreader)
  · rw [flow, flow, htrace, takenOf_append]
    rcases eq_or_ne other port with rfl | hne
    · rw [hself, only_self, List.append_assoc, List.append_assoc, ← save_conserves hwired.valid _ buf env.save hzero]
      refine congrArg (takenOf other world.trace ++ ·) ?_
      simp [takenOf, bytesOf, Fate.taken, saveTraced]
    -- the other ports have other files
    · have hnone : takenOf other [⟨port, .filed, (qlogLogfileSave world.table (loop.files.get file) buf
          env.save).2.sent⟩, ⟨port, .unsaved, unsaved world.table (loop.files.get file) buf env.save⟩] = [] :=
        bytesOf_eq_nil fun entry hentry hport => by
          rcases List.mem_cons.mp hentry with rfl | hentry
          · exact absurd hport.symm hne
          · rw [List.mem_singleton.mp hentry] at hport
            exact absurd hport.symm hne
      rw [hnone, List.append_nil, only_of_ne hne, List.append_nil]
      refine congrArg (takenOf other world.trace ++ ·) ?_
      rcases sinkFd_cases h loop.files other with hfd | ⟨file', hfile', hfd⟩
      · rw [hfd, cached_neg_one, cached_neg_one]
      · by_cases hused : loop.files.get file' = -1
        · rw [hfd, hused, cached_neg_one, cached_neg_one]
        · have hfiles : file' ≠ file := by
            rintro rfl
            exact hne (hsinks other port file' hfile' hsink)
          rw [hfd]
          exact (apart_save world.table (hwired.apart.files file' file hfiles hused).symm buf env.save).cached_eq
  · exact (apart_save world.table (hwired.apart.outs file other) buf env.save).cached_eq
  · rw [htrace, deviceOf_append]
    refine (congrArg (_ ++ ·) (bytesOf_eq_nil fun entry hentry _ => ?_)).trans (List.append_nil _)
    rcases List.mem_cons.mp hentry with rfl | hentry
    · rfl
    · rw [List.mem_singleton.mp hentry]
      rfl

theorem Carries.then {took : Port → List UInt8} {s s' s'' : Loop × World} (hfirst : Carries h outfd reader took s s')
    (hsecond : Carries h outfd reader (fun _ => []) s' s'') : Carries h outfd reader took s s'' := by
  have htrans := hfirst.trans hsecond
  simpa only [List.append_nil] using htrans

theorem Carries.after {took : Port → List UInt8} {s s' s'' : Loop × World}
    (hfirst : Carries h outfd reader (fun _ => []) s s') (hsecond : Carries h outfd reader took s' s'') :
    Carries h outfd reader took s s'' := by
  have htrans := hfirst.trans hsecond
  simpa only [List.nil_append] using htrans

/-- What comes behind a save. -/
theorem Carries.afterSave (hopen : ∀ port, outfd port ≠ -1) {took : Port → List UInt8} {s : Loop × World}
    {saved : World × Nat} (hcarried : Carries h outfd reader took s (loop, saved.1)) (round : Round Env) :
    Carries h outfd reader took s (afterSave h (cacheOps h) loop saved round) := by
  have hended : ∀ loop' : Loop, loop'.files = loop.files →
      Carries h outfd reader took s (finish h (cacheOps h) loop' saved.1) := fun loop' hfiles =>
    (hcarried.of_files hfiles).then (carries_finish hopen (hcarried.of_files hfiles).wired)
  rw [Capture.afterSave]
  split_ifs
  · exact hended _ (by rfl)
  · exact hcarried.then (carries_close hopen hcarried.wired rfl)
  · exact hcarried.of_files rfl

theorem trace_openFile (env : Env) : (openFile h (cacheOps h) loop world env).2.trace = world.trace := by
  rw [openFile]
  split_ifs <;> first | rfl | (dsimp only; split_ifs <;> rfl)

/-- The trace only grows behind a save. -/
theorem prefix_trace_finish : world.trace <+: (finish h (cacheOps h) loop world).2.trace := by
  rw [finish_cacheOps]
  split_ifs
  · exact List.prefix_append _ _
  · exact List.prefix_refl _

theorem prefix_trace_afterSave (saved : World × Nat) (round : Round Env) :
    saved.1.trace <+: (afterSave h (cacheOps h) loop saved round).2.trace := by
  rw [Capture.afterSave]
  split_ifs
  · exact prefix_trace_finish
  · exact List.prefix_append _ _
  · exact List.prefix_refl _

theorem HasDropped.mono {trace trace' : List Entry} (h : HasDropped trace) (hfront : trace <+: trace') :
    HasDropped trace' := by
  obtain ⟨entry, hentry, hfate⟩ := h
  exact ⟨entry, hfront.subset hentry, hfate⟩

/-- Behind the loop nothing is cached for the file of a port. -/
theorem cached_finish {port : Port}
    (hclosed : loop.files.fd = -1 → cached world.table (sinkFd h loop.files port) = []) :
    cached (finish h (cacheOps h) loop world).2.table
      (sinkFd h (finish h (cacheOps h) loop world).1.files port) = [] := by
  rw [finish_cacheOps]
  by_cases hfd : loop.files.fd = -1
  · rw [if_neg (not_not.mpr hfd), if_neg (not_not.mpr hfd)]
    exact hclosed hfd
  · rw [if_pos hfd, if_pos hfd, sinkFd_noFiles, cached_neg_one]

/-- A round of the loop: what is read is taken by a save, or it is not saved and nothing is cached for its port. -/
theorem carries_readRound (hopen : ∀ port, outfd port ≠ -1) (hsinks : h.Separate)
    (hwired : Wired outfd reader (loop, world)) (htidy : 0 < loop.files.fd ∨ loop.files = noFiles)
    {round : Round Env} (hopened : round.env.opened.Apart outfd)
    (hdropped : ¬HasDropped (readRound h (cacheOps h) loop world round).2.trace) :
    Carries h outfd reader (fun _ => []) (loop, world) (readRound h (cacheOps h) loop world round) ∧
        (round.buf = [] ∨ notSaved h loop world round = true) ∧
        cached (readRound h (cacheOps h) loop world round).2.table
          (sinkFd h (readRound h (cacheOps h) loop world round).1.files round.port) = [] ∨
      Carries h outfd reader (only round.port round.buf) (loop, world) (readRound h (cacheOps h) loop world round) ∧
        notSaved h loop world round = false := by
  have hfinish : ∀ loop' : Loop, loop'.files = loop.files →
      Carries h outfd reader (fun _ => []) (loop, world) (finish h (cacheOps h) loop' world) ∧
        cached (finish h (cacheOps h) loop' world).2.table
          (sinkFd h (finish h (cacheOps h) loop' world).1.files round.port) = [] := by
    intro loop' hfiles
    have hsame := (Carries.refl (h := h) hwired).of_files hfiles
    refine ⟨hsame.then (carries_finish hopen hsame.wired), cached_finish fun hclosed => ?_⟩
    rw [hfiles] at hclosed ⊢
    rcases htidy with hfd | hnone
    · omega
    · rw [hnone, sinkFd_noFiles, cached_neg_one]
  have hmade := carries_openFile (h := h) hopen hwired round.env htidy hopened
  rw [readRound] at hdropped ⊢
  dsimp only at hdropped ⊢
  by_cases hbuf : round.buf = []
  · rw [if_pos hbuf]
    obtain ⟨hcarries, hcached⟩ :=
      hfinish { loop with abnormalExit := loop.abnormalExit || !loop.exitRequested } rfl
    exact Or.inl ⟨hcarries, Or.inl hbuf, hcached⟩
  rw [if_neg hbuf] at hdropped ⊢
  cases hdump : h.hasDump && round.dump with
  | true =>
      rw [if_pos rfl]
      obtain ⟨hcarries, hcached⟩ :=
        hfinish { loop with exitRequested := loop.exitRequested || !h.dumpContinues } rfl
      refine Or.inl ⟨hcarries, Or.inr ?_, hcached⟩
      rw [notSaved, hdump, Bool.true_or, Bool.true_or]
  | false =>
      rw [hdump, if_neg Bool.false_ne_true] at hdropped
      rw [if_neg Bool.false_ne_true]
      by_cases hfd : (openFile h (cacheOps h) loop world round.env).1.files.fd ≤ 0
      -- there is no file
      · rw [if_pos hfd]
        refine Or.inl ⟨hmade.then (carries_finish hopen hmade.wired), Or.inr ?_, cached_finish fun hclosed => ?_⟩
        · rw [notSaved, decide_eq_true hfd, Bool.or_true, Bool.true_or]
        · have hflow := hmade.flow round.port
          rw [List.append_nil, flow, flow, trace_openFile, List.append_cancel_left_eq] at hflow
          rw [hflow]
          rcases htidy with hpos | hnone
          · rw [openFile, if_neg (by omega)] at hfd
            exact absurd hpos hfd.not_gt
          · rw [hnone, sinkFd_noFiles, cached_neg_one]
      · rw [if_neg hfd] at hdropped ⊢
        have hnot : notSaved h loop world round = decide ((h.sink round.port).file? = none) := by
          rw [notSaved, hdump, decide_eq_false hfd, Bool.false_or, Bool.false_or]
        rw [save_cacheOps] at hdropped ⊢
        cases hfile : (h.sink round.port).file? with
        | none =>
            refine Or.inl ⟨Carries.afterSave hopen hmade round, Or.inr (by rw [hnot, hfile]; rfl), ?_⟩
            rw [sinkFd, hfile]
            exact cached_neg_one
        | some file =>
            rw [hfile] at hdropped
            have hsaved := carries_save hsinks hmade.wired hfile round.buf round.env
              fun hdrop => hdropped (hdrop.mono (prefix_trace_afterSave _ _))
            exact Or.inr ⟨Carries.afterSave hopen (hmade.after hsaved) round, by rw [hnot, hfile]; rfl⟩

end Carries

end QLog.Capture
