import QLog.Capture.Pipeline

/-! # No byte is lost between the device and the files

The invariant of the threads and the loop: the descriptors in the table are apart, a thread inside `kfifo_alloc` or
`kfifo_free` has a free slot for itself, and the bytes of a port are in one row, from what the loop has taken over the
cache of the file and the socket to the cache of the thread. A thread that ends strands what it had cached, and wakes
the loop up with a byte that is saved like the others. -/

namespace QLog.Capture

open Library Kfifo KfifoTable

section Tidy

variable {h : Handler} {loop : Loop} {world : World}

theorem stopped_finish : (finish h (cacheOps h) loop world).1.pc = .stopped := by rw [finish_cacheOps]

theorem tidy_finish : Tidy (finish h (cacheOps h) loop world).1 := fun hrunning => absurd stopped_finish hrunning

theorem tidy_afterSave (hfd : 0 < loop.files.fd) (saved : World × Nat) (round : Round Env) :
    Tidy (afterSave h (cacheOps h) loop saved round).1 := by
  rw [afterSave]
  split_ifs
  · exact tidy_finish
  · exact fun _ => Or.inr rfl
  · exact fun _ => Or.inl hfd

/-- A round leaves a set of files open, or none. -/
theorem tidy_readRound (round : Round Env) : Tidy (readRound h (cacheOps h) loop world round).1 := by
  rw [readRound]
  split_ifs
  · exact tidy_finish
  · exact tidy_finish
  · dsimp only
    split_ifs with hfd
    · exact tidy_finish
    · exact tidy_afterSave (not_le.mp hfd) _ round

end Tidy

/-! ## The invariant -/

/-- The bytes of a port are in one row; only the end of its thread leaves some out, and adds one. -/
def Row (h : Handler) (outfd : Port → Int) (s : Pipeline) (port : Port) : Prop :=
  ∃ kept stranded wake, deviceOf port s.world.trace = kept ++ stranded ∧
    flow h port (s.loop, s.world) ++ s.socket port ++ cached s.world.table (outfd port) = kept ++ wake ∧
    ((s.reader port).isOver = false → stranded = [] ∧ wake = []) ∧ (wake = [] ∨ wake = [0])

/-- The descriptors and the rows are as they should be, and the slots that the threads are going to store to are free,
and no two threads have the same one. -/
structure Flowing (h : Handler) (outfd : Port → Int) (s : Pipeline) : Prop where
  wired : Wired outfd s.reader (s.loop, s.world)
  tidy : Tidy s.loop
  row : ∀ port, Row h outfd s port
  free : ∀ port i, (s.reader port).storesTo = some i → (s.world.table i).fd = -1
  alone : ∀ port other i, (s.reader port).storesTo = some i → (s.reader other).storesTo = some i → port = other

section Flowing

variable {h : Handler} {outfd : Port → Int} {s : Pipeline}

/-- The descriptor of a thread that does not run is not in the table. -/
theorem Wired.not_uses {reader : Port → Reader} {w : Loop × World} (hwired : Wired outfd reader w)
    (hinj : Function.Injective outfd) (hopen : ∀ port, outfd port ≠ -1) {port : Port}
    (hreader : ∀ i, reader port ≠ .running (some i)) : ¬Uses w.2.table (outfd port) := by
  intro hused
  rcases hwired.known (outfd port) (hopen port) hused with ⟨other, i, hrunning, heq⟩ | ⟨file, heq⟩
  · exact hreader i (hinj heq ▸ hrunning)
  · exact hwired.apart.outs file port heq.symm

/-- The descriptor of a file is not that of a thread. -/
theorem Wired.sinkFd_ne {reader : Port → Reader} {w : Loop × World} (hwired : Wired outfd reader w)
    (hopen : ∀ port, outfd port ≠ -1) (h : Handler) (port other : Port) :
    sinkFd h w.1.files port ≠ outfd other := by
  rcases sinkFd_cases h w.1.files port with hnone | ⟨file, -, hfile⟩
  · rw [hnone]
    exact (hopen other).symm
  · rw [hfile]
    exact hwired.apart.outs file other

/-- A step of the loop keeps the rows: what it takes from a port comes out of its socket. -/
theorem Flowing.loop {took socket : Port → List UInt8} {loop : Loop} {world : World} (hflowing : Flowing h outfd s)
    (hcarries : Carries h outfd s.reader took (s.loop, s.world) (loop, world)) (htidy : Tidy loop)
    (hsocket : ∀ port, took port ++ socket port = s.socket port)
    (hfree : ∀ port i, (s.reader port).storesTo = some i → (world.table i).fd = -1) :
    Flowing h outfd { s with loop := loop, world := world, socket := socket } := by
  refine ⟨hcarries.wired, htidy, fun port => ?_, hfree, hflowing.alone⟩
  obtain ⟨kept, stranded, wake, hdevice, hrow, hended, hwake⟩ := hflowing.row port
  refine ⟨kept, stranded, wake, (hcarries.device port).trans hdevice, ?_, hended, hwake⟩
  dsimp only
  rw [hcarries.flow, List.append_assoc (flow h port _), hsocket, hcarries.outs]
  exact hrow

/-- What a thread does to the table concerns its own descriptor, so the flow of no port changes. -/
theorem flow_of_apart {loop : Loop} {table : KfifoTable} {trace : List Entry} {port : Port}
    (htaken : takenOf port trace = takenOf port s.world.trace)
    (hcached : cached table (sinkFd h loop.files port) = cached s.world.table (sinkFd h loop.files port)) :
    flow h port (loop, ⟨table, trace⟩) = flow h port (loop, s.world) := by
  rw [flow, flow]
  dsimp only
  rw [htaken, hcached]

end Flowing

/-! ## The steps of a thread -/

section Threads

variable {h : Handler} {outfd : Port → Int} {s : Pipeline}

/-- A step in which the thread of a port does something to the table, up to its descriptor and the slot that it is going
to store to. -/
structure ThreadStep (outfd : Port → Int) (s : Pipeline) (port : Port) (table : KfifoTable) (reader : Reader) :
    Prop where
  valid : table.Valid
  single : Single table
  uses : ∀ fd, fd ≠ -1 → Uses table fd →
    Uses s.world.table fd ∧ fd ≠ outfd port ∨ fd = outfd port ∧ ∃ i, reader = .running (some i)
  running : ∀ i, reader = .running (some i) → (table i).fd = outfd port
  apart : ∀ fd, fd ≠ -1 → fd ≠ outfd port → Apart fd s.world.table table
  free : ∀ i, reader.storesTo = some i → (table i).fd = -1
  others : ∀ other i, other ≠ port → (s.reader other).storesTo = some i →
    (table i).fd = -1 ∧ reader.storesTo ≠ some i

/-- The bytes of a port that the loop has do not change in a step of a thread. -/
theorem ThreadStep.flow {port : Port} {table : KfifoTable} {reader : Reader}
    (hstep : ThreadStep outfd s port table reader) (hopen : ∀ port, outfd port ≠ -1)
    (hwired : Wired outfd s.reader (s.loop, s.world)) (other : Port) :
    flow h other (s.loop, ⟨table, s.world.trace⟩) = Capture.flow h other (s.loop, s.world) := by
  refine flow_of_apart rfl ?_
  by_cases hnone : sinkFd h s.loop.files other = -1
  · rw [hnone, cached_neg_one, cached_neg_one]
  · exact (hstep.apart _ hnone (hwired.sinkFd_ne hopen h other port)).cached_eq

/-- A step of a thread, if the row of its own port is kept. -/
theorem Flowing.thread (hinj : Function.Injective outfd) (hopen : ∀ port, outfd port ≠ -1)
    (hflowing : Flowing h outfd s) {port : Port} {table : KfifoTable} {reader : Reader}
    (hstep : ThreadStep outfd s port table reader) {socket : Port → List UInt8} {disconnect : Bool}
    (hsocket : ∀ other, other ≠ port → socket other = s.socket other)
    (hrow : ∃ kept stranded wake, deviceOf port s.world.trace = kept ++ stranded ∧
      flow h port (s.loop, s.world) ++ socket port ++ cached table (outfd port) = kept ++ wake ∧
      (reader.isOver = false → stranded = [] ∧ wake = []) ∧ (wake = [] ∨ wake = [0])) :
    Flowing h outfd
      { s with
        world := ⟨table, s.world.trace⟩
        socket := socket
        reader := Function.update s.reader port reader
        isUsbDisconnect := disconnect } := by
  have hwired := hflowing.wired
  refine ⟨⟨hstep.valid, hstep.single, fun fd hfd hused => ?_, fun other i hreader => ?_, hwired.apart⟩, hflowing.tidy,
    fun other => ?_, fun other i hfound => ?_, fun one other i hone hother => ?_⟩
  · rcases hstep.uses fd hfd hused with ⟨hused, hne⟩ | ⟨heq, i, hi⟩
    · rcases hwired.known fd hfd hused with ⟨other, i, hrunning, heq⟩ | hfile
      · have hother : other ≠ port := by
          rintro rfl
          exact hne heq
        exact Or.inl ⟨other, i, (Function.update_of_ne hother _ _).trans hrunning, heq⟩
      · exact Or.inr hfile
    · exact Or.inl ⟨port, i, (Function.update_self _ _ _).trans hi, heq⟩
  · dsimp only at hreader
    rcases eq_or_ne other port with rfl | hne
    · rw [Function.update_self] at hreader
      exact hstep.running i hreader
    · rw [Function.update_of_ne hne] at hreader
      have hslot := hwired.running other i hreader
      have hsame := (hstep.apart _ (hopen other) fun heq => hne (hinj heq)).same i hslot
      exact (congrArg Kfifo.fd hsame).trans hslot
  · rcases eq_or_ne other port with rfl | hne
    · obtain ⟨kept, stranded, wake, hdevice, hbytes, hover, hwake⟩ := hrow
      refine ⟨kept, stranded, wake, hdevice, ?_, fun hreader => hover ?_, hwake⟩
      · dsimp only
        rw [hstep.flow hopen hwired]
        exact hbytes
      · dsimp only at hreader
        rwa [Function.update_self] at hreader
    · obtain ⟨kept, stranded, wake, hdevice, hbytes, hover, hwake⟩ := hflowing.row other
      refine ⟨kept, stranded, wake, hdevice, ?_, fun hreader => hover ?_, hwake⟩
      · dsimp only
        rw [hstep.flow hopen hwired, hsocket other hne,
          (hstep.apart _ (hopen other) fun heq => hne (hinj heq)).cached_eq]
        exact hbytes
      · dsimp only at hreader
        rwa [Function.update_of_ne hne] at hreader
  · dsimp only at hfound
    rcases eq_or_ne other port with rfl | hne
    · rw [Function.update_self] at hfound
      exact hstep.free i hfound
    · rw [Function.update_of_ne hne] at hfound
      exact (hstep.others other i hne hfound).1
  · dsimp only at hone hother
    rcases eq_or_ne one port with hport | hport <;> rcases eq_or_ne other port with hport' | hport'
    · exact hport.trans hport'.symm
    · rw [hport, Function.update_self] at hone
      rw [Function.update_of_ne hport'] at hother
      exact absurd hone (hstep.others other i hport' hother).2
    · rw [hport', Function.update_self] at hother
      rw [Function.update_of_ne hport] at hone
      exact absurd hother (hstep.others one i hport hone).2
    · rw [Function.update_of_ne hport] at hone
      rw [Function.update_of_ne hport'] at hother
      exact hflowing.alone one other i hone hother

theorem storesTo_eq_none {reader : Reader} (hinside : reader.inside = false) : reader.storesTo = none := by
  cases reader with
  | idle => rfl
  | allocating found => exact absurd hinside Bool.noConfusion
  | running idx => rfl
  | clearing idx => exact absurd hinside Bool.noConfusion
  | ended => rfl

/-- A thread starts and finds a free slot, if there is one. -/
theorem Flowing.start (hinj : Function.Injective outfd) (hopen : ∀ port, outfd port ≠ -1)
    (hflowing : Flowing h outfd s) {port : Port} (hidle : s.reader port = .idle)
    (hinside : ∀ port, (s.reader port).inside = false) : Flowing h outfd (pipeStep h outfd s (.start port)) := by
  have hwired := hflowing.wired
  have hnot : ¬Uses s.world.table (outfd port) :=
    hwired.not_uses hinj hopen fun i => by rw [hidle]; exact Reader.noConfusion
  have hstep : ThreadStep outfd s port s.world.table (.allocating (s.world.table.find (-1))) := by
    refine ⟨hwired.valid, hwired.single, fun fd _ hused => Or.inl ⟨hused, ?_⟩,
      fun i hreader => Reader.noConfusion hreader, fun fd _ _ => Apart.refl fd _, fun i hfound => find_fd hfound,
      fun other i _ hfound => ?_⟩
    · rintro rfl
      exact hnot hused
    · rw [storesTo_eq_none (hinside other)] at hfound
      exact absurd hfound.symm (Option.some_ne_none i)
  have heq : pipeStep h outfd s (.start port) =
      { s with
        world := ⟨s.world.table, s.world.trace⟩
        reader := Function.update s.reader port (.allocating (s.world.table.find (-1))) } := by
    rw [pipeStep, hidle]
  rw [heq]
  obtain ⟨kept, stranded, wake, hdevice, hbytes, hover, hwake⟩ := hflowing.row port
  exact hflowing.thread hinj hopen hstep (fun _ _ => rfl)
    ⟨kept, stranded, wake, hdevice, hbytes, fun _ => hover (by rw [hidle]; rfl), hwake⟩

/-- A thread takes the slot that it has found, with an empty cache. -/
theorem Flowing.take (hinj : Function.Injective outfd) (hopen : ∀ port, outfd port ≠ -1)
    (hflowing : Flowing h outfd s) {port : Port} {found : Option (Fin fifoNum)}
    (hreader : s.reader port = .allocating found) : Flowing h outfd (pipeStep h outfd s (.take port)) := by
  have hwired := hflowing.wired
  have hnot : ¬Uses s.world.table (outfd port) :=
    hwired.not_uses hinj hopen fun i => by rw [hreader]; exact Reader.noConfusion
  have hstores : (s.reader port).storesTo = found := by rw [hreader]; rfl
  have hnew := allocated_take hwired.valid hwired.single (hopen port) hnot fun i hi =>
    hflowing.free port i (hstores.trans hi)
  have hstep : ThreadStep outfd s port (kfifoTake s.world.table (outfd port) found) (.running found) := by
    refine ⟨hnew.valid, hnew.single, fun fd hfd hused => ?_, fun i hi => ?_, hnew.others,
      fun i hi => absurd hi.symm (Option.some_ne_none i), fun other i hne hfound => ⟨?_, (Option.some_ne_none i).symm⟩⟩
    · obtain ⟨-, huses, -⟩ := hwired.single.take (hopen port) hnot found
      rcases huses fd hused with hused | ⟨heq, hsome⟩
      · refine Or.inl ⟨hused, ?_⟩
        rintro rfl
        exact hnot hused
      · obtain ⟨i, hi⟩ := Option.isSome_iff_exists.mp hsome
        exact Or.inr ⟨heq, i, congrArg Reader.running hi⟩
    · rw [Reader.running.injEq] at hi
      rw [hi]
      exact kfifoTake_self _ _ i
    -- another thread has found another slot
    · have hfree := hflowing.free other i hfound
      cases found with
      | none => exact hfree
      | some j =>
          have hji : i ≠ j := by
            rintro rfl
            exact hne (hflowing.alone other port i hfound hstores)
          rw [kfifoTake_of_ne hji]
          exact hfree
  have heq : pipeStep h outfd s (.take port) =
      { s with
        world := ⟨kfifoTake s.world.table (outfd port) found, s.world.trace⟩
        reader := Function.update s.reader port (.running found) } := by
    rw [pipeStep, hreader]
  rw [heq]
  obtain ⟨kept, stranded, wake, hdevice, hbytes, hover, hwake⟩ := hflowing.row port
  rw [cached_of_not_uses hnot] at hbytes
  refine hflowing.thread hinj hopen hstep (fun _ _ => rfl)
    ⟨kept, stranded, wake, hdevice, ?_, fun _ => hover (by rw [hreader]; rfl), hwake⟩
  rw [hnew.empty]
  exact hbytes

/-- A thread clears the slot that it has given up. -/
theorem Flowing.clear (hinj : Function.Injective outfd) (hopen : ∀ port, outfd port ≠ -1)
    (hflowing : Flowing h outfd s) {port : Port} {idx : Option (Fin fifoNum)}
    (hreader : s.reader port = .clearing idx) :
    Flowing h outfd (pipeStep h outfd s (.clear port)) := by
  have hwired := hflowing.wired
  have hnot : ¬Uses s.world.table (outfd port) :=
    hwired.not_uses hinj hopen fun i => by rw [hreader]; exact Reader.noConfusion
  have hfds := sameFds_clear s.world.table idx
  have hfree : ∀ i, idx = some i → (s.world.table i).fd = -1 := fun i hi =>
    hflowing.free port i (by rw [hreader]; exact hi)
  have hnot' : ¬Uses (kfifoClear s.world.table idx) (outfd port) := fun hused => hnot (hfds.uses hused)
  have hstep : ThreadStep outfd s port (kfifoClear s.world.table idx) .ended := by
    refine ⟨valid_clear hwired.valid idx, hfds.single hwired.single, fun fd _ hused => Or.inl ⟨hfds.uses hused, ?_⟩,
      fun i hi => Reader.noConfusion hi, fun fd hfd _ => apart_clear hfd hfree,
      fun i hi => absurd hi.symm (Option.some_ne_none i),
      fun other i _ hfound => ⟨(hfds i).trans (hflowing.free other i hfound), (Option.some_ne_none i).symm⟩⟩
    rintro rfl
    exact hnot' hused
  have heq : pipeStep h outfd s (.clear port) =
      { s with
        world := ⟨kfifoClear s.world.table idx, s.world.trace⟩
        reader := Function.update s.reader port .ended } := by
    rw [pipeStep, hreader]
  rw [heq]
  obtain ⟨kept, stranded, wake, hdevice, hbytes, -, hwake⟩ := hflowing.row port
  rw [cached_of_not_uses hnot] at hbytes
  refine hflowing.thread hinj hopen hstep (fun _ _ => rfl) ⟨kept, stranded, wake, hdevice, ?_, fun hover => ?_, hwake⟩
  · rw [cached_of_not_uses hnot']
    exact hbytes
  · exact Bool.noConfusion hover

/-- A write to a slot concerns its descriptor only. -/
theorem apart_write (t : KfifoTable) {i : Fin fifoNum} {fd : Int} (hi : (t i).fd ≠ fd) (buf : List UInt8)
    (env : WriteEnv) : Apart fd t (t.write i buf env) :=
  apart_update t hi (by rwa [kfifoWrite_fd])

/-- What a thread that drops nothing does with a chunk. -/
theorem usbRead_kept {port : Port} {buf : List UInt8} {env : WriteEnv} {i : Fin fifoNum}
    (hreader : s.reader port = .running (some i)) (hbuf : buf ≠ [])
    (hdropped : ¬HasDropped (usbRead s port buf env).world.trace) :
    ¬(s.world.table i).Refused buf env ∧ ((s.world.table i).kfifoWrite buf env).dropped = 0 ∧
      usbRead s port buf env =
        { s with
          world := ⟨s.world.table.write i buf env, s.world.trace ++ [⟨port, .device, buf⟩]⟩
          socket := Function.update s.socket port (s.socket port ++ ((s.world.table i).kfifoWrite buf env).sent) } := by
  rw [usbRead, hreader] at hdropped ⊢
  dsimp only at hdropped ⊢
  rw [if_neg hbuf] at hdropped ⊢
  have href : ¬(s.world.table i).Refused buf env := by
    intro href
    refine hdropped ⟨⟨port, .dropped, buf⟩, ?_, rfl⟩
    dsimp only
    rw [if_pos href]
    exact List.mem_append_right _ (List.mem_cons_of_mem _ (List.mem_singleton_self _))
  dsimp only at hdropped
  rw [if_neg href] at hdropped ⊢
  have hnone : ¬HasDropped (dropEntry port buf ((s.world.table i).kfifoWrite buf env).dropped) := fun hdrop =>
    hdropped (hasDropped_append.mpr (Or.inr (hdrop.imp fun _ h => ⟨List.mem_cons_of_mem _ h.1, h.2⟩)))
  have hzero := dropEntry_eq_nil hnone
  refine ⟨href, hzero, ?_⟩
  rw [hzero, dropEntry, if_pos rfl]

/-- A thread without a cache drops what it reads. -/
theorem hasDropped_usbRead {port : Port} {buf : List UInt8} {env : WriteEnv}
    (hreader : s.reader port = .running none) (hbuf : buf ≠ []) :
    HasDropped (usbRead s port buf env).world.trace := by
  rw [usbRead, hreader]
  dsimp only
  rw [if_neg hbuf]
  exact ⟨⟨port, .dropped, buf⟩, List.mem_append_right _ (List.mem_cons_of_mem _ (List.mem_singleton_self _)), rfl⟩

/-- A chunk goes to the end of the row of its port. -/
theorem Flowing.written (hinj : Function.Injective outfd) (hopen : ∀ port, outfd port ≠ -1)
    (hflowing : Flowing h outfd s) {port : Port} {buf : List UInt8} {env : WriteEnv} {i : Fin fifoNum}
    (hreader : s.reader port = .running (some i)) (href : ¬(s.world.table i).Refused buf env)
    (hzero : ((s.world.table i).kfifoWrite buf env).dropped = 0) :
    Flowing h outfd
      { s with
        world := ⟨s.world.table.write i buf env, s.world.trace ++ [⟨port, .device, buf⟩]⟩
        socket := Function.update s.socket port (s.socket port ++ ((s.world.table i).kfifoWrite buf env).sent) } := by
  have hwired := hflowing.wired
  have hi := hwired.running port i hreader
  have hfds := sameFds_write s.world.table i buf env
  have hsingle := hfds.single hwired.single
  have hapart : ∀ fd, fd ≠ outfd port → Apart fd s.world.table (s.world.table.write i buf env) := fun fd hne =>
    apart_write s.world.table (fun heq => hne (heq.symm.trans hi)) buf env
  refine ⟨⟨hwired.valid.update i (kfifoWrite_spec (hwired.valid i) buf env).1, hsingle,
    fun fd hfd hused => hwired.known fd hfd (hfds.uses hused),
    fun other j hrunning => (hfds j).trans (hwired.running other j hrunning), hwired.apart⟩, hflowing.tidy,
    fun other => ?_, fun other j hfound => (hfds j).trans (hflowing.free other j hfound), hflowing.alone⟩
  have hflow : flow h other (s.loop, ⟨s.world.table.write i buf env, s.world.trace ++ [⟨port, .device, buf⟩]⟩)
      = flow h other (s.loop, s.world) := by
    refine flow_of_apart ?_ (hapart _ (hwired.sinkFd_ne hopen h other port)).cached_eq
    rw [takenOf_append]
    simp [takenOf, bytesOf, Fate.taken]
  obtain ⟨kept, stranded, wake, hdevice, hrow, hended, hwake⟩ := hflowing.row other
  rcases eq_or_ne other port with rfl | hne
  · obtain ⟨rfl, rfl⟩ := hended (by rw [hreader]; rfl)
    have hspec := (kfifoWrite_spec (hwired.valid i) buf env).2 href
    rw [hzero, Nat.sub_zero, List.take_length] at hspec
    refine ⟨kept ++ buf, [], [], ?_, ?_, fun _ => ⟨rfl, rfl⟩, Or.inl rfl⟩
    · dsimp only
      rw [deviceOf_append, hdevice]
      simp [deviceOf, bytesOf]
    · dsimp only
      rw [hwired.single.cached_eq hi (hopen other)] at hrow
      rw [hflow, Function.update_self, hsingle.cached_eq ((hfds i).trans hi) (hopen other), write_self,
        ← List.append_assoc (flow h other _), List.append_assoc (_ ++ s.socket other), hspec, ← List.append_assoc,
        hrow, List.append_nil, List.append_nil]
  · refine ⟨kept, stranded, wake, ?_, ?_, hended, hwake⟩
    · dsimp only
      rw [deviceOf_append, hdevice]
      simp [deviceOf, bytesOf, hne.symm]
    · dsimp only
      rw [hflow, Function.update_of_ne hne, (hapart _ fun heq => hne (hinj heq)).cached_eq]
      exact hrow

/-- A thread that drops nothing hands on what it reads, or caches it. -/
theorem Flowing.usb (hinj : Function.Injective outfd) (hopen : ∀ port, outfd port ≠ -1) (hflowing : Flowing h outfd s)
    (port : Port) (buf : List UInt8) (env : WriteEnv) (hdropped : ¬HasDropped (usbRead s port buf env).world.trace) :
    Flowing h outfd (usbRead s port buf env) := by
  by_cases hbuf : buf = []
  · have hsame : usbRead s port buf env = s := by
      unfold usbRead
      split <;> simp only [if_pos hbuf]
    rw [hsame]
    exact hflowing
  cases hreader : s.reader port with
  | idle | allocating _ | clearing _ | ended =>
      rw [usbRead, hreader]
      exact hflowing
  | running idx =>
      cases idx with
      | none => exact absurd (hasDropped_usbRead hreader hbuf) hdropped
      | some i =>
          obtain ⟨href, hzero, hstep⟩ := usbRead_kept hreader hbuf hdropped
          rw [hstep]
          exact hflowing.written hinj hopen hreader href hzero

/-- A thread that ends strands what it has cached, and its slot is free. -/
theorem Flowing.fail (hinj : Function.Injective outfd) (hopen : ∀ port, outfd port ≠ -1) (hflowing : Flowing h outfd s)
    (port : Port) (woken : Bool) : Flowing h outfd (usbFail s port woken) := by
  have hwired := hflowing.wired
  cases hreader : s.reader port with
  | idle | allocating _ | clearing _ | ended =>
      rw [usbFail, hreader]
      exact hflowing
  | running idx =>
      have hslot : ∀ i, idx = some i → (s.world.table i).fd = outfd port := fun i hi =>
        hwired.running port i (hreader.trans (congrArg Reader.running hi))
      have hidx : s.world.table.kfifoFree idx = s.world.table.kfifoFree (s.world.table.kfifoIdx (outfd port)) := by
        cases idx with
        | none =>
            have hnot : ¬Uses s.world.table (outfd port) := hwired.not_uses hinj hopen fun i => by
              rw [hreader, ne_eq, Reader.running.injEq]
              exact (Option.some_ne_none i).symm
            rw [kfifoIdx_of_not_uses hnot]
        | some i => rw [hwired.single.kfifoIdx (hslot i rfl) (hopen port)]
      obtain ⟨hsingle, huses⟩ := hwired.single.free (outfd port)
      rw [← hidx] at hsingle huses
      have hfds := sameFds_give s.world.table idx
      have hnot : ¬Uses (kfifoGive s.world.table idx) (outfd port) := fun hused =>
        (huses _ (hopen port) (hfds.uses hused)).2 rfl
      have hgiven : ∀ i, idx = some i → (kfifoGive s.world.table idx i).fd = -1 := fun i hi => by
        rw [hi, kfifoGive, Function.update_self]
      have hstep : ThreadStep outfd s port (kfifoGive s.world.table idx) (.clearing idx) := by
        refine ⟨valid_give hwired.valid idx, hfds.single hsingle, fun fd hfd hused => Or.inl ?_,
          fun i hi => Reader.noConfusion hi, fun fd hfd hne => apart_give (fun i hi => ?_) hfd, hgiven,
          fun other i hne hfound => ?_⟩
        · exact huses fd hfd (hfds.uses hused)
        · rw [hslot i hi]
          exact hne.symm
        -- the slot that is given up was not free
        · have hfree := hflowing.free other i hfound
          have hother : idx ≠ some i := fun hi => hopen port ((hslot i hi).symm.trans hfree)
          refine ⟨?_, hother⟩
          cases idx with
          | none => exact hfree
          | some j =>
              rw [kfifoGive, Function.update_of_ne fun hij => hother (congrArg some hij.symm)]
              exact hfree
      have heq : usbFail s port woken =
          { s with
            world := ⟨kfifoGive s.world.table idx, s.world.trace⟩
            socket := Function.update s.socket port
              (s.socket port ++ if woken && !s.loop.exitRequested then [0] else [])
            reader := Function.update s.reader port (.clearing idx)
            isUsbDisconnect := s.isUsbDisconnect || !s.loop.exitRequested } := by
        rw [usbFail, hreader]
      rw [heq]
      obtain ⟨kept, stranded, wake, hdevice, hbytes, hover, -⟩ := hflowing.row port
      obtain ⟨rfl, rfl⟩ := hover (by rw [hreader]; rfl)
      refine hflowing.thread hinj hopen hstep (fun other hne => Function.update_of_ne hne _ _)
        ⟨flow h port (s.loop, s.world) ++ s.socket port, cached s.world.table (outfd port),
          if woken && !s.loop.exitRequested then [0] else [], ?_, ?_, fun hover => Bool.noConfusion hover, ?_⟩
      · rw [hdevice, List.append_nil, hbytes, List.append_nil]
      · rw [Function.update_self, cached_of_not_uses hnot, List.append_nil, List.append_assoc]
      · split_ifs
        · exact Or.inr rfl
        · exact Or.inl rfl

end Threads

/-! ## The steps of the loop -/

section Steps

variable {h : Handler} {outfd : Port → Int} {s : Pipeline} {loop : Loop} {world : World}

/-- Bytes that are read and not saved are taken as well, where nothing is cached ahead of them. -/
theorem Carries.unsaved {reader : Port → Reader} {w w' : Loop × World}
    (hcarries : Carries h outfd reader (fun _ => []) w w') {port : Port}
    (hcached : cached w'.2.table (sinkFd h w'.1.files port) = []) (buf : List UInt8) :
    Carries h outfd reader (only port buf) w (w'.1, ⟨w'.2.table, w'.2.trace ++ [⟨port, .unsaved, buf⟩]⟩) := by
  obtain ⟨⟨hvalid, hsingle, hknown, hrunning, hapart⟩, hflow, houts, hdevice⟩ := hcarries
  refine ⟨⟨hvalid, hsingle, hknown, hrunning, hapart⟩, fun other => ?_, houts, fun other => ?_⟩
  · have hother := hflow other
    rw [List.append_nil, Capture.flow] at hother
    rw [Capture.flow, takenOf_append]
    rcases eq_or_ne other port with rfl | hne
    · rw [hcached, List.append_nil] at hother ⊢
      rw [hother, only_self]
      simp [takenOf, bytesOf, Fate.taken]
    · rw [only_of_ne hne, List.append_nil, ← hother]
      simp [takenOf, bytesOf, hne.symm]
  · rw [deviceOf_append, ← hdevice other]
    simp [deviceOf, bytesOf]

/-- A read of the loop takes what it reads. -/
theorem carries_read (hopen : ∀ port, outfd port ≠ -1) (hsinks : h.Separate) {reader : Port → Reader}
    (hwired : Wired outfd reader (loop, world)) (htidy : 0 < loop.files.fd ∨ loop.files = noFiles)
    {round : Round Env} (hopened : round.env.opened.Apart outfd)
    (hdropped : ¬HasDropped (readRound h (cacheOps h) loop world round).2.trace) :
    Carries h outfd reader (only round.port round.buf) (loop, world)
      ((readRound h (cacheOps h) loop world round).1,
        ⟨(readRound h (cacheOps h) loop world round).2.table, (readRound h (cacheOps h) loop world round).2.trace ++
          if notSaved h loop world round then [⟨round.port, .unsaved, round.buf⟩] else []⟩) := by
  rcases carries_readRound hopen hsinks hwired htidy hopened hdropped with ⟨hcarries, hnot, hcached⟩ | ⟨hcarries, hnot⟩
  · rcases hnot with hbuf | hnot
    -- the end of a socket is no bytes at all
    · have hsaved := hcarries.unsaved hcached []
      rw [hbuf]
      split_ifs
      · exact hsaved
      · have hnone : only round.port [] = fun _ => [] := funext fun other => ite_self _
        rw [hnone, List.append_nil]
        exact hcarries
    · rw [if_pos hnot]
      exact hcarries.unsaved hcached round.buf
  · rw [hnot, if_neg Bool.false_ne_true, List.append_nil]
    exact hcarries

/-- A step of the loop without a read. -/
def Event.Dry {ε : Type} : Event ε → Prop
  | .read _ => False
  | _ => True

theorem carries_captureStep (hopen : ∀ port, outfd port ≠ -1) {reader : Port → Reader}
    (hwired : Wired outfd reader (loop, world)) (htidy : Tidy loop) {event : Event Env} (hevent : event.Dry) :
    Carries h outfd reader (fun _ => []) (loop, world) (captureStep h (cacheOps h) (loop, world) event) ∧
      Tidy (captureStep h (cacheOps h) (loop, world) event).1 := by
  have hsame := Carries.refl (h := h) hwired
  have hfinish : ∀ loop' : Loop, loop'.files = loop.files →
      Carries h outfd reader (fun _ => []) (loop, world) (finish h (cacheOps h) loop' world) := fun loop' hfiles =>
    (hsame.of_files hfiles).then (carries_finish hopen (hsame.of_files hfiles).wired)
  cases event with
  | exit => exact ⟨hsame.of_files rfl, htidy⟩
  | test =>
      rw [captureStep]
      split_ifs with hpc
      · exact ⟨hfinish _ rfl, tidy_finish⟩
      · exact ⟨hsame.of_files rfl, fun _ => htidy (by rw [hpc]; exact Pc.noConfusion)⟩
      · exact ⟨hsame, htidy⟩
  | poll ready =>
      rw [captureStep]
      split_ifs with hpc
      · exact ⟨hsame.of_files rfl, fun _ => htidy (by rw [hpc]; exact Pc.noConfusion)⟩
      · exact ⟨hfinish _ (by rfl), tidy_finish⟩
      · exact ⟨hsame, htidy⟩
  | read round => exact hevent.elim

/-- A slot that is free stays free. -/
def FreeStays (t t' : KfifoTable) : Prop := ∀ i, (t i).fd = -1 → (t' i).fd = -1

theorem freeStays_free (t : KfifoTable) (idx : Option (Fin fifoNum)) : FreeStays t (t.kfifoFree idx) := by
  intro i hi
  cases idx with
  | none => exact hi
  | some j =>
      rw [kfifoFree]
      rcases eq_or_ne i j with rfl | hne
      · rw [Function.update_self]
      · rw [Function.update_of_ne hne]
        exact hi

theorem freeStays_close (t : KfifoTable) (logfd second third : Int) :
    FreeStays t (qlogLogfileClose t logfd second third) := fun i hi =>
  freeStays_free _ _ i (freeStays_free _ _ i (freeStays_free t _ i hi))

theorem freeStays_finish : FreeStays world.table (finish h (cacheOps h) loop world).2.table := by
  rw [finish_cacheOps]
  split_ifs
  · exact freeStays_close world.table _ _ _
  · exact fun _ hi => hi

/-- A loop that makes no file takes no slot. -/
theorem freeStays_readRound (hfd : loop.files.fd ≠ -1) (round : Round Env) :
    FreeStays world.table (readRound h (cacheOps h) loop world round).2.table := by
  have hsave : FreeStays world.table (save h (cacheOps h) loop world round).1.table := by
    rw [save_cacheOps]
    split
    · exact fun i hi => (sameFds_save world.table _ round.buf round.env.save i).trans hi
    · exact fun _ hi => hi
  have hopened : openFile h (cacheOps h) loop world round.env = (loop, world) := by rw [openFile, if_neg hfd]
  rw [readRound]
  dsimp only
  rw [hopened]
  split_ifs
  · exact freeStays_finish
  · exact freeStays_finish
  · exact freeStays_finish
  · rw [afterSave]
    split_ifs
    · exact fun i hi => freeStays_finish i (hsave i hi)
    · exact fun i hi => freeStays_close _ _ _ _ i (hsave i hi)
    · exact hsave

theorem freeStays_captureStep {event : Event Env} (hevent : event.Dry) :
    FreeStays world.table (captureStep h (cacheOps h) (loop, world) event).2.table := by
  cases event with
  | exit => exact fun _ hi => hi
  | test =>
      rw [captureStep]
      split_ifs
      · exact freeStays_finish
      · exact fun _ hi => hi
      · exact fun _ hi => hi
  | poll ready =>
      rw [captureStep]
      split_ifs
      · exact fun _ hi => hi
      · exact freeStays_finish
      · exact fun _ hi => hi
  | read round => exact hevent.elim

/-- The trace only grows. -/
theorem prefix_trace_readRound (round : Round Env) :
    world.trace <+: (readRound h (cacheOps h) loop world round).2.trace := by
  have hopened : world.trace = (openFile h (cacheOps h) loop world round.env).2.trace := (trace_openFile _).symm
  have hsaved : world.trace <+: (save h (cacheOps h) (openFile h (cacheOps h) loop world round.env).1
      (openFile h (cacheOps h) loop world round.env).2 round).1.trace := by
    rw [save_cacheOps, hopened]
    split
    · exact List.prefix_append _ _
    · exact List.prefix_refl _
  rw [readRound]
  split_ifs
  · exact prefix_trace_finish
  · exact prefix_trace_finish
  · dsimp only
    split_ifs
    · rw [hopened]
      exact prefix_trace_finish
    · exact hsaved.trans (prefix_trace_afterSave _ round)

theorem prefix_trace_loopStep (event : Event Env) (hevent : event.Dry) :
    s.world.trace <+: (loopStep h s event).world.trace := by
  rw [loopStep]
  dsimp only
  cases event with
  | exit => exact List.prefix_refl _
  | test =>
      rw [captureStep]
      split_ifs
      · exact prefix_trace_finish
      · exact List.prefix_refl _
      · exact List.prefix_refl _
  | poll ready =>
      rw [captureStep]
      split_ifs
      · exact List.prefix_refl _
      · exact prefix_trace_finish
      · exact List.prefix_refl _
  | read round => exact hevent.elim

theorem prefix_trace_usbRead (port : Port) (buf : List UInt8) (env : WriteEnv) :
    s.world.trace <+: (usbRead s port buf env).world.trace := by
  unfold usbRead
  by_cases hbuf : buf = []
  · simp only [if_pos hbuf]
    split <;> exact List.prefix_refl _
  · simp only [if_neg hbuf]
    split
    · exact List.prefix_append _ _
    · exact List.prefix_append _ _
    · exact List.prefix_refl _

theorem prefix_trace_pipeStep (event : PipeEvent) : s.world.trace <+: (pipeStep h outfd s event).world.trace := by
  cases event with
  | start port =>
      rw [pipeStep]
      split <;> exact List.prefix_refl _
  | take port =>
      rw [pipeStep]
      split <;> exact List.prefix_refl _
  | clear port =>
      rw [pipeStep]
      split <;> exact List.prefix_refl _
  | usb port buf env => exact prefix_trace_usbRead port buf env
  | fail port woken =>
      rw [pipeStep, usbFail]
      split <;> exact List.prefix_refl _
  | exit => exact prefix_trace_loopStep _ trivial
  | test => exact prefix_trace_loopStep _ trivial
  | poll ready => exact prefix_trace_loopStep _ trivial
  | read port size dump env =>
      rw [pipeStep, loopRead]
      split_ifs with hpc
      · refine List.IsPrefix.trans ?_ (List.prefix_append _ _)
        rw [captureStep, if_pos hpc]
        exact prefix_trace_readRound _
      · exact List.prefix_refl _

/-- The descriptors of new files are new. -/
def PipeEvent.Apart (outfd : Port → Int) : PipeEvent → Prop
  | .read _ _ _ env => env.opened.Apart outfd
  | _ => True

/-- A step that drops nothing keeps the rows. -/
theorem Flowing.step (hinj : Function.Injective outfd) (hopen : ∀ port, outfd port ≠ -1) (hsinks : h.Separate)
    (hflowing : Flowing h outfd s) {event : PipeEvent} (hevent : event.Apart outfd) (halone : Undisturbed s event)
    (hdropped : ¬HasDropped (pipeStep h outfd s event).world.trace) : Flowing h outfd (pipeStep h outfd s event) := by
  have hdry : ∀ event : Event Env, event.Dry → Flowing h outfd (loopStep h s event) := fun event hevent => by
    obtain ⟨hcarries, htidy⟩ := carries_captureStep hopen hflowing.wired hflowing.tidy hevent
    exact hflowing.loop hcarries htidy (fun _ => rfl) fun port i hi =>
      freeStays_captureStep hevent i (hflowing.free port i hi)
  cases event with
  | start port =>
      cases hreader : s.reader port with
      | idle => exact hflowing.start hinj hopen hreader (halone trivial)
      | allocating _ | running _ | clearing _ | ended =>
          rw [pipeStep, hreader]
          exact hflowing
  | take port =>
      cases hreader : s.reader port with
      | allocating found => exact hflowing.take hinj hopen hreader
      | idle | running _ | clearing _ | ended =>
          rw [pipeStep, hreader]
          exact hflowing
  | clear port =>
      cases hreader : s.reader port with
      | clearing idx => exact hflowing.clear hinj hopen hreader
      | idle | allocating _ | running _ | ended =>
          rw [pipeStep, hreader]
          exact hflowing
  | usb port buf env => exact hflowing.usb hinj hopen port buf env hdropped
  | fail port woken => exact hflowing.fail hinj hopen port woken
  | exit => exact hdry _ trivial
  | test => exact hdry _ trivial
  | poll ready => exact hdry _ trivial
  | read port size dump env =>
      rw [pipeStep, loopRead] at hdropped ⊢
      by_cases hpc : s.loop.pc = .reading
      · simp only [captureStep, if_pos hpc] at hdropped ⊢
        have htidy : 0 < s.loop.files.fd ∨ s.loop.files = noFiles :=
          hflowing.tidy (by rw [hpc]; exact Pc.noConfusion)
        have hopened : (⟨port, (s.socket port).take size, dump, env⟩ : Round Env).env.opened.Apart outfd := hevent
        have hcarries := carries_read hopen hsinks hflowing.wired htidy hopened
          fun hdrop => hdropped (hdrop.mono (List.prefix_append _ _))
        refine hflowing.loop hcarries (tidy_readRound _) (fun other => ?_) fun other i hi => ?_
        · rcases eq_or_ne other port with rfl | hne
          · rw [only_self, Function.update_self, List.take_append_drop]
          · rw [only_of_ne hne, Function.update_of_ne hne, List.nil_append]
        -- a file is made only where no thread is inside
        · by_cases hfd : s.loop.files.fd = -1
          · rw [storesTo_eq_none (halone hfd other)] at hi
            exact absurd hi.symm (Option.some_ne_none i)
          · exact freeStays_readRound hfd _ i (hflowing.free other i hi)
      · rw [if_neg hpc]
        exact hflowing

theorem prefix_trace_pipeRun (events : List PipeEvent) :
    s.world.trace <+: (pipeRun h outfd s events).world.trace := by
  induction events generalizing s with
  | nil => exact List.prefix_refl _
  | cons event events ih => exact (prefix_trace_pipeStep event).trans ih

/-- A run that drops nothing keeps the rows. -/
theorem Flowing.run (hinj : Function.Injective outfd) (hopen : ∀ port, outfd port ≠ -1) (hsinks : h.Separate)
    (hflowing : Flowing h outfd s) (events : List PipeEvent) (hevents : ∀ event ∈ events, event.Apart outfd)
    (hexclusive : Exclusive h outfd s events) (hdropped : ¬HasDropped (pipeRun h outfd s events).world.trace) :
    Flowing h outfd (pipeRun h outfd s events) := by
  induction events generalizing s with
  | nil => exact hflowing
  | cons event events ih =>
      obtain ⟨hevent, hevents⟩ := List.forall_mem_cons.mp hevents
      obtain ⟨halone, hexclusive⟩ := hexclusive
      have hstep := hflowing.step hinj hopen hsinks hevent halone
        fun hdrop => hdropped (hdrop.mono (prefix_trace_pipeRun events))
      exact ih hstep hevents hexclusive hdropped

/-- Before anything has started, nothing is in the table and nothing is on its way. -/
theorem flowing_pipeStart (hopen : ∀ port, outfd port ≠ -1) (args : Arguments) (seq : Nat) :
    Flowing h outfd (pipeStart args seq) := by
  have hnot : ∀ fd, fd ≠ -1 → ¬Uses kfifoTable fd := fun fd hfd ⟨_, hused⟩ => hfd hused.symm
  refine ⟨⟨kfifoTable_valid, fun _ _ _ hused => absurd rfl hused, fun fd hfd hused => absurd hused (hnot fd hfd),
    fun _ _ hreader => Reader.noConfusion hreader, apart_noFiles hopen⟩, fun _ => Or.inr rfl, fun port => ?_,
    fun _ i hi => absurd hi.symm (Option.some_ne_none i), fun _ _ i hi => absurd hi.symm (Option.some_ne_none i)⟩
  refine ⟨[], [], [], rfl, ?_, fun _ => ⟨rfl, rfl⟩, Or.inl rfl⟩
  rw [flow]
  show takenOf port [] ++ cached kfifoTable (sinkFd h noFiles port) ++ [] ++ cached kfifoTable (outfd port) = []
  rw [sinkFd_noFiles, cached_neg_one, cached_of_not_uses (hnot _ (hopen port))]
  rfl

end Steps

/-! ## From the device to the files -/

theorem separate_dmOnly (args : Arguments) (logfileSuffix : String) (hasDump : Bool) :
    (dmOnly args logfileSuffix hasDump).Separate := by
  intro port other file hport hother
  cases port <;> cases other <;> simp_all [dmOnly, Sink.file?]

/-- The file that a port has to itself. -/
def Port.file : Port → File
  | .dm => .log
  | .general => .second
  | .third => .third

/-- The ports of an MDM module are saved to a file each. -/
theorem separate_messageHandleMdm (args : Arguments) (useQmdl2V2 : Bool) :
    (messageHandleMdm args useQmdl2V2).Separate := by
  have hsink : ∀ port file, ((messageHandleMdm args useQmdl2V2).sink port).file? = some file → file = port.file := by
    intro port file hfile
    cases port with
    | dm => exact (Option.some.inj hfile).symm
    | general =>
        simp only [messageHandleMdm] at hfile
        split_ifs at hfile
        · exact (Option.some.inj hfile).symm
        · exact (Option.some.inj hfile).symm
        · exact absurd hfile (Option.some_ne_none file).symm
    | third =>
        simp only [messageHandleMdm] at hfile
        split_ifs at hfile
        · exact (Option.some.inj hfile).symm
        · exact (Option.some.inj hfile).symm
        · exact absurd hfile (Option.some_ne_none file).symm
  intro port other file hport hother
  have hfile : port.file = other.file := (hsink port file hport).symm.trans (hsink other file hother)
  cases port <;> cases other <;> first | rfl | exact File.noConfusion hfile

/-- A module that saves what it reads has a file for each port. -/
theorem SavesAsRead.separate {args : Arguments} {h : Handler} (hmodule : SavesAsRead args h) : h.Separate := by
  obtain ⟨-, rfl | rfl | rfl⟩ := hmodule
  · exact separate_dmOnly args _ _
  · exact separate_dmOnly args _ _
  · exact separate_messageHandleMdm args false

instance (trace : List Entry) : Decidable (HasDropped trace) :=
  inferInstanceAs (Decidable (∃ entry ∈ trace, entry.fate = .dropped))

/-- One file alone is apart from the threads. -/
theorem apart_single {outfd : Port → Int} (hopen : ∀ port, outfd port ≠ -1) {fd : Int}
    (hfd : ∀ port, fd ≠ outfd port) : (⟨fd, -1, -1⟩ : Opened).Apart outfd := by
  refine ⟨fun file port => ?_, fun file other hne hused heq => ?_⟩
  · cases file with
    | log => exact hfd port
    | second => exact (hopen port).symm
    | third => exact (hopen port).symm
  · cases file with
    | log =>
        cases other with
        | log => exact hne rfl
        | second => exact hused heq
        | third => exact hused heq
    | second => exact hused rfl
    | third => exact hused rfl

/-- The descriptors of the sockets. -/
def threeSockets : Port → Int
  | .dm => 10
  | .general => 11
  | .third => 12

/-- A file of two bytes. -/
def twoBytes : Arguments := ⟨2, false, false, false, false, false, 0⟩

/-- The threads of two ports start one after the other. A file is closed on a byte that it has not accepted, the second
one gets the rest, and the first thread ends. -/
def twoFiles : List PipeEvent :=
  let all : WriteEnv := ⟨⟨9, 0⟩, none, ⟨0, 0⟩⟩
  let half : WriteEnv := ⟨⟨1, 11⟩, some fun _ => 0, ⟨0, 11⟩⟩
  [.start .dm, .take .dm, .start .third, .take .third, .usb .dm [1, 2, 3] all, .test, .poll true,
    .read .dm 2 false ⟨⟨7, -1, -1⟩, ⟨half, 0⟩⟩, .test, .poll true, .read .dm 2 false ⟨⟨8, -1, -1⟩, ⟨all, 0⟩⟩,
    .usb .dm [4] half, .fail .dm true, .clear .dm]

/-- Two threads that look for a slot at the same time find the same one, and nothing is cached for the first any more.
-/
example :
    let s := pipeRun (messageHandleMtk twoBytes) threeSockets (pipeStart twoBytes 0)
      [.start .dm, .start .third, .take .dm, .take .third]
    s.world.table.kfifoIdx (threeSockets .dm) = none ∧ s.world.table.kfifoIdx (threeSockets .third) = some 0 := by
  decide

end QLog.Capture
