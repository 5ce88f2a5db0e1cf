import QLog.Sahara.Order

/-! # When a Sahara dump is complete

`sahara_read_dump` returns true in three places: after the last entry, and twice after a reset, whatever the reset
was sent for. A reset is also what it answers a packet with that it did not expect, and a save that writes too little
is only reported. Where neither happens, true means that every entry of the announced table has been received and
saved in full. -/

namespace QLog

open Library

/-! ## The property -/

/-- The bytes received for the entry with the index `i`. -/
def receivedBytes (i : Nat) (t : List SaharaEvent) : List UInt8 :=
  t.flatMap fun
    | .block j _ _ data => if j = i then data else []
    | _ => []

/-- The bytes that were saved to the file of that entry. -/
def savedBytes (i : Nat) (t : List SaharaEvent) : List UInt8 :=
  t.flatMap fun
    | .saved j buf result => if j = i then buf.take result.toNat else []
    | _ => []

/-- The file of the entry has been created, and the whole entry received and saved to it. -/
def EntryComplete (t : List SaharaEvent) (i : Nat) (e : DebugType) : Prop :=
  .opened i e.filename ∈ t ∧ (receivedBytes i t).length = e.len ∧ savedBytes i t = receivedBytes i t

/-- A table was announced and received, and every entry of it is complete. -/
def DumpComplete (t : List SaharaEvent) : Prop :=
  ∃ rxBuf entries, AnnouncesTable rxBuf ∧ .received rxBuf ∈ t ∧ .table entries ∈ t ∧
    entries.length = announcedLength rxBuf / debugTypeSize (announces64bit rxBuf) ∧
    ∀ i e, entries[i]? = some e → EntryComplete t i e

/-- What the client must get in a step: a hello where it waits for one, a valid announcement or one more hello
afterwards, and of `qlog_logfile_save` the length of the block. -/
def Undisturbed (s : SaharaClient) (a : SaharaAnswers) : Prop :=
  match s.state with
  | .waitOne =>
      let first := saharaRxPacket s.rxBuf a.rx
      let again := saharaRxPacket first.2 a.rxAgain
      (first.1 = true → qCmd first.2 = 0x01) ∧
        (first.1 = false → a.wakeUp = true → again.1 = true → qCmd again.2 = 0x01)
  | .waitTwo =>
      let rx := saharaRxPacket s.rxBuf a.rx
      rx.1 = true → AnnouncesTable rx.2 ∨ qCmd rx.2 = 0x01
  | .waitEight =>
      match s.memoryTable[s.i]?, s.cur with
      | some e, some cur => cur < e.len → a.save = requestLen e ⟨s.rxBuf, s.maxRamDumpRead, cur⟩
      | _, _ => True
  | .waitThree | .waitFour | .waitFive | .waitSix | .waitSeven => True

instance (rxBuf : List UInt8) : Decidable (AnnouncesTable rxBuf) := inferInstanceAs (Decidable (_ ∧ _))

instance (s : SaharaClient) (a : SaharaAnswers) : Decidable (Undisturbed s a) := by
  unfold Undisturbed
  split
  · infer_instance
  · infer_instance
  · split <;> infer_instance
  all_goals infer_instance

/-! ## Histories -/

section History

variable {t u : List SaharaEvent} {i : Nat}

@[simp] theorem receivedBytes_append (i : Nat) (t u : List SaharaEvent) :
    receivedBytes i (t ++ u) = receivedBytes i t ++ receivedBytes i u :=
  List.flatMap_append

@[simp] theorem savedBytes_append (i : Nat) (t u : List SaharaEvent) :
    savedBytes i (t ++ u) = savedBytes i t ++ savedBytes i u :=
  List.flatMap_append

/-- Nothing has been received or saved for the entry with the index `i`. -/
def Untouched (i : Nat) (t : List SaharaEvent) : Prop := receivedBytes i t = [] ∧ savedBytes i t = []

theorem Untouched.append (ht : Untouched i t) (hu : Untouched i u) : Untouched i (t ++ u) := by
  rw [Untouched, receivedBytes_append, savedBytes_append, ht.1, ht.2, hu.1, hu.2]
  exact ⟨rfl, rfl⟩

theorem EntryComplete.append {e : DebugType} (h : EntryComplete t i e) (hu : Untouched i u) :
    EntryComplete (t ++ u) i e := by
  rw [EntryComplete, receivedBytes_append, savedBytes_append, hu.1, hu.2, List.append_nil, List.append_nil]
  exact ⟨List.mem_append_left u h.1, h.2⟩

theorem DumpComplete.append (h : DumpComplete t) (hu : ∀ i, Untouched i u) : DumpComplete (t ++ u) := by
  obtain ⟨rxBuf, entries, htable, hreceived, hentries, hlen, hall⟩ := h
  exact ⟨rxBuf, entries, htable, List.mem_append_left u hreceived, List.mem_append_left u hentries, hlen,
    fun i e he => (hall i e he).append (hu i)⟩

end History

/-! ## The invariant -/

/-- The receive buffer has its whole size, and a block is neither empty nor larger than it. -/
structure BuffersOk (s : SaharaClient) : Prop where
  length_rxBuf : s.rxBuf.length = qSaharaRawBufSz
  max_pos : 0 < s.maxRamDumpRead
  max_le : s.maxRamDumpRead ≤ qSaharaRawBufSz

/-- In the middle of a table that has been announced: the entries before `i` are complete, those behind it untouched,
and of the open one exactly the bytes up to `cur` have been received and saved. -/
structure DumpedSoFar (s : SaharaClient) (t : List SaharaEvent) : Prop where
  table : .table s.memoryTable ∈ t
  announced : ∃ rxBuf, AnnouncesTable rxBuf ∧ .received rxBuf ∈ t ∧
    s.memoryTable.length = announcedLength rxBuf / debugTypeSize (announces64bit rxBuf)
  before : ∀ j e, j < s.i → s.memoryTable[j]? = some e → EntryComplete t j e
  behind : ∀ j, s.i < j → Untouched j t
  closed : s.cur = none → Untouched s.i t
  reading : ∀ cur, s.cur = some cur → ∃ e, s.memoryTable[s.i]? = some e ∧ cur ≤ e.len ∧
    .opened s.i e.filename ∈ t ∧ (receivedBytes s.i t).length = cur ∧ savedBytes s.i t = receivedBytes s.i t

/-- What the history of a running client says about the dump, by its state. -/
def DumpOf (s : SaharaClient) (t : List SaharaEvent) : Prop :=
  match s.state with
  | .waitOne | .waitTwo => ∀ i, Untouched i t
  | .waitSeven =>
      (∀ i, Untouched i t) ∧ s.memoryTableLength ≤ qSaharaRawBufSz ∧
        ∃ rxBuf, AnnouncesTable rxBuf ∧ .received rxBuf ∈ t ∧
          s.ramDump64bit = announces64bit rxBuf ∧ s.memoryTableLength = announcedLength rxBuf
  | .waitEight => DumpedSoFar s t
  | .waitThree => DumpComplete t
  | .waitFour | .waitFive | .waitSix => True

/-- In an undisturbed run the history fits the state as long as the client runs, and a client that reports success has
dumped everything. -/
structure CompleteInv (s : SaharaClient) (t : List SaharaEvent) : Prop where
  buffers : s.result = none → BuffersOk s
  history : s.result = none → DumpOf s t
  success : s.result = some (.returned true) → DumpComplete t

section Step

variable {cfg : SaharaConfig} {s : SaharaClient} {t : List SaharaEvent}

/-- An end without success. -/
theorem CompleteInv.finished {r : SaharaResult} (hr : r ≠ .returned true) (t : List SaharaEvent) :
    CompleteInv (s.finish r) t :=
  ⟨fun h => absurd h (by simp), fun h => absurd h (by simp), fun h => absurd (Option.some.inj h) hr⟩

theorem CompleteInv.failed (t : List SaharaEvent) : CompleteInv (s.finish (.returned false)) t :=
  CompleteInv.finished (by simp) t

/-- The end of a complete dump. -/
theorem CompleteInv.succeeded (h : DumpComplete t) : CompleteInv (s.finish (.returned true)) t :=
  ⟨fun hx => absurd hx (by simp), fun hx => absurd hx (by simp), fun _ => h⟩

/-- A state in which the client goes on. -/
theorem CompleteInv.running (hresult : s.result = none) (hbuf : BuffersOk s) (h : DumpOf s t) : CompleteInv s t :=
  ⟨fun _ => hbuf, fun _ => h, fun hsuccess => by rw [hresult] at hsuccess; cases hsuccess⟩

theorem length_rxPacket {rxBuf : List UInt8} (h : rxBuf.length = qSaharaRawBufSz) (answers : PortAnswers) :
    (saharaRxPacket rxBuf answers).2.length = qSaharaRawBufSz := by
  have hroom : 8 + maxToRead ≤ rxBuf.length := by
    rw [h]
    decide
  rw [length_saharaRxPacket rxBuf answers hroom, h]

/-- The response to a hello. -/
theorem CompleteInv.greet (hbuf : BuffersOk s) (hresult : s.result = none) (hcmd : qCmd s.rxBuf = 0x01)
    (ht : ∀ i, Untouched i t) (a : SaharaAnswers) :
    CompleteInv (s.greet cfg a).1 (t ++ (s.greet cfg a).2) := by
  rw [SaharaClient.greet, if_neg (not_not.mpr hcmd)]
  split
  · exact CompleteInv.failed _
  · cases a.tx with
    | false => exact CompleteInv.failed _
    | true =>
        refine CompleteInv.running hresult ⟨hbuf.length_rxBuf, hbuf.max_pos, hbuf.max_le⟩ fun i => ?_
        exact (ht i).append ⟨rfl, rfl⟩

theorem CompleteInv.waitOne (h : CompleteInv s t) (hresult : s.result = none) (hstate : s.state = .waitOne)
    (a : SaharaAnswers) (hok : Undisturbed s a) : CompleteInv (s.waitOne cfg a).1 (t ++ (s.waitOne cfg a).2) := by
  have hbuf := h.buffers hresult
  have ht := h.history hresult
  rw [DumpOf, hstate] at ht
  rw [Undisturbed, hstate] at hok
  obtain ⟨hfirst, hagain⟩ := hok
  have hlen := length_rxPacket hbuf.length_rxBuf a.rx
  rw [SaharaClient.waitOne]
  split
  · next hrx =>
      rw [prepend_fst, prepend_snd, ← List.append_assoc]
      have hbuf' : BuffersOk { s with rxBuf := (saharaRxPacket s.rxBuf a.rx).2 } :=
        ⟨hlen, hbuf.max_pos, hbuf.max_le⟩
      refine CompleteInv.greet hbuf' hresult (hfirst hrx) (fun i => ?_) a
      exact (ht i).append ⟨rfl, rfl⟩
  · next hrx =>
      split
      · exact CompleteInv.failed _
      · next hwake =>
          dsimp only
          split
          · next hrx' =>
              rw [prepend_fst, prepend_snd, ← List.append_assoc]
              have hbuf' : BuffersOk
                  { s with rxBuf := (saharaRxPacket (saharaRxPacket s.rxBuf a.rx).2 a.rxAgain).2 } :=
                ⟨length_rxPacket hlen a.rxAgain, hbuf.max_pos, hbuf.max_le⟩
              refine CompleteInv.greet hbuf' hresult
                (hagain (by simpa using hrx) (by simpa using hwake) hrx') (fun i => ?_) a
              exact (ht i).append ⟨rfl, rfl⟩
          · exact CompleteInv.failed _

theorem CompleteInv.waitTwo (h : CompleteInv s t) (hresult : s.result = none) (hstate : s.state = .waitTwo)
    (a : SaharaAnswers) (hok : Undisturbed s a) : CompleteInv (s.waitTwo a).1 (t ++ (s.waitTwo a).2) := by
  have hbuf := h.buffers hresult
  have ht := h.history hresult
  rw [DumpOf, hstate] at ht
  rw [Undisturbed, hstate] at hok
  have hlen := length_rxPacket hbuf.length_rxBuf a.rx
  rw [SaharaClient.waitTwo]
  split
  · exact CompleteInv.failed _
  · next hrx =>
      rw [prepend_fst, prepend_snd, ← List.append_assoc]
      set rxBuf := (saharaRxPacket s.rxBuf a.rx).2 with hrxBuf
      have ht' : ∀ i, Untouched i (t ++ [.received rxBuf]) := fun i => (ht i).append ⟨rfl, rfl⟩
      have hreceived : SaharaEvent.received rxBuf ∈ t ++ [.received rxBuf] :=
        List.mem_append_right t List.mem_cons_self
      -- undisturbed: a table is announced, or the hello comes once more
      rcases hok (by simpa using hrx) with htable | hhello
      · rw [if_pos htable.1, SaharaClient.announced]
        dsimp only
        rw [if_neg (by rw [htable.2]; exact Bool.noConfusion)]
        split
        · split
          · exact CompleteInv.failed _
          · next hgo =>
              refine CompleteInv.running hresult ⟨hlen, hbuf.max_pos, hbuf.max_le⟩
                ⟨fun i => ?_, Nat.not_lt.mp (not_or.mp hgo).2, rxBuf, htable, ?_, rfl, rfl⟩
              · exact (ht' i).append ⟨rfl, rfl⟩
              · exact List.mem_append_left _ hreceived
        · next hzero =>
            rw [List.append_nil]
            exact CompleteInv.running hresult ⟨hlen, hbuf.max_pos, hbuf.max_le⟩
              ⟨ht', (Nat.not_lt.mp hzero).trans (Nat.zero_le _), rxBuf, htable, hreceived, rfl, rfl⟩
      · rw [if_neg (by rw [hhello]; decide), if_pos hhello, List.append_nil]
        refine CompleteInv.running hresult ⟨hlen, hbuf.max_pos, hbuf.max_le⟩ ?_
        rw [DumpOf]
        dsimp only
        rw [hstate]
        exact ht'

/-- Nothing of a new table is dumped so far. -/
theorem CompleteInv.tableReceived {rxBuf announcement : List UInt8} {entries : List DebugType}
    (hresult : s.result = none) (hbuf : BuffersOk s) (hlen : rxBuf.length = qSaharaRawBufSz)
    (ht : ∀ i, Untouched i t) (htable : AnnouncesTable announcement) (hreceived : .received announcement ∈ t)
    (hentries : entries.length = announcedLength announcement / debugTypeSize (announces64bit announcement)) :
    CompleteInv { s with rxBuf := rxBuf, memoryTable := entries, state := .waitEight, i := 0, cur := none }
      (t ++ [.table entries]) := by
  have ht' : ∀ i, Untouched i (t ++ [.table entries]) := fun i => (ht i).append ⟨rfl, rfl⟩
  refine CompleteInv.running hresult ⟨hlen, hbuf.max_pos, hbuf.max_le⟩ ?_
  exact {
    table := List.mem_append_right t List.mem_cons_self
    announced := ⟨announcement, htable, List.mem_append_left _ hreceived, hentries⟩
    before := fun j _ hj => absurd hj (Nat.not_lt_zero j)
    behind := fun j _ => ht' j
    closed := fun _ => ht' 0
    reading := fun _ hcur => absurd hcur (by simp) }

theorem CompleteInv.waitSeven (h : CompleteInv s t) (hresult : s.result = none) (hstate : s.state = .waitSeven)
    (a : SaharaAnswers) : CompleteInv (s.waitSeven a).1 (t ++ (s.waitSeven a).2) := by
  have hbuf := h.buffers hresult
  have ht := h.history hresult
  rw [DumpOf, hstate] at ht
  obtain ⟨huntouched, hfits, announcement, htable, hreceived, his64, hlength⟩ := ht
  rw [SaharaClient.waitSeven]
  split
  · next hzero =>
      refine CompleteInv.tableReceived hresult hbuf hbuf.length_rxBuf huntouched htable hreceived ?_
      rw [← hlength, hzero, Nat.zero_div]
      rfl
  · split
    · exact CompleteInv.failed _
    · split
      · exact CompleteInv.failed _
      · next rxBuf hrx _ =>
          have hroom : 8 + maxToRead ≤ s.rxBuf.length := by
            rw [hbuf.length_rxBuf]
            decide
          have hspec := saharaRxData_spec s.rxBuf a.rx (hfits.trans (Nat.le_of_eq hbuf.length_rxBuf.symm)) hroom
          rw [hrx] at hspec
          refine CompleteInv.tableReceived hresult hbuf ?_ huntouched htable hreceived ?_
          · exact hspec.1.trans hbuf.length_rxBuf
          · rw [debugEntries, List.length_map, List.length_range, hlength, his64]

/-- When all entries are dumped the dump is complete. -/
theorem DumpedSoFar.complete (h : DumpedSoFar s t) (hend : s.memoryTable[s.i]? = none) : DumpComplete t := by
  obtain ⟨rxBuf, htable, hreceived, hlen⟩ := h.announced
  refine ⟨rxBuf, s.memoryTable, htable, hreceived, h.table, hlen, fun j e he => h.before j e ?_ he⟩
  have hj := (List.getElem?_eq_some_iff.mp he).1
  have hi := List.getElem?_eq_none_iff.mp hend
  omega

/-- A step that does nothing for the entries but the current one. -/
theorem DumpedSoFar.append {u : List SaharaEvent} (h : DumpedSoFar s t) (hu : ∀ j, j ≠ s.i → Untouched j u)
    {s' : SaharaClient} (htable : s'.memoryTable = s.memoryTable) (hi : s'.i = s.i)
    (hclosed : s'.cur = none → Untouched s.i (t ++ u))
    (hreading : ∀ cur, s'.cur = some cur → ∃ e, s.memoryTable[s.i]? = some e ∧ cur ≤ e.len ∧
      .opened s.i e.filename ∈ t ++ u ∧ (receivedBytes s.i (t ++ u)).length = cur ∧
      savedBytes s.i (t ++ u) = receivedBytes s.i (t ++ u)) : DumpedSoFar s' (t ++ u) where
  table := by
    rw [htable]
    exact List.mem_append_left u h.table
  announced := by
    obtain ⟨rxBuf, hannounces, hreceived, hlen⟩ := h.announced
    exact ⟨rxBuf, hannounces, List.mem_append_left u hreceived, htable ▸ hlen⟩
  before := by
    intro j e hj he
    rw [hi] at hj
    rw [htable] at he
    exact (h.before j e hj he).append (hu j (Nat.ne_of_lt hj))
  behind := by
    intro j hj
    rw [hi] at hj
    exact (h.behind j hj).append (hu j (Nat.ne_of_gt hj))
  closed := by
    intro hcur
    rw [hi]
    exact hclosed hcur
  reading := by
    intro cur hcur
    rw [htable, hi]
    exact hreading cur hcur

/-- One round of the region loop. -/
theorem DumpedSoFar.regionBody {e : DebugType} {cur : Nat} {a : SaharaAnswers} {r : Region}
    {events : List SaharaEvent} (h : DumpedSoFar s t) (hbuf : BuffersOk s)
    (hentry : s.memoryTable[s.i]? = some e) (hcur : s.cur = some cur) (hle : cur ≤ e.len)
    (hsave : a.save = requestLen e ⟨s.rxBuf, s.maxRamDumpRead, cur⟩)
    (hbody : QLog.regionBody s.i e s.ramDump64bit ⟨s.rxBuf, s.maxRamDumpRead, cur⟩ a = (some r, events)) :
    DumpedSoFar { s with rxBuf := r.rxBuf, maxRamDumpRead := r.maxRamDumpRead, cur := some r.cur } (t ++ events) ∧
      BuffersOk { s with rxBuf := r.rxBuf, maxRamDumpRead := r.maxRamDumpRead, cur := some r.cur } := by
  have hr : RegionInv e ⟨s.rxBuf, s.maxRamDumpRead, cur⟩ := ⟨hbuf.length_rxBuf, hbuf.max_pos, hbuf.max_le, hle⟩
  have hr' := hr.regionBody hbody
  refine ⟨?_, hr'.length_rxBuf, hr'.max_pos, hr'.max_le⟩
  obtain ⟨e', hentry', -, hopened, hreceived, hsaved⟩ := h.reading cur hcur
  obtain ⟨rxBuf, -, -, rfl, rfl⟩ | ⟨rxBuf, data, -, hdata, -, rfl, rfl⟩ := regionBody_some hr hbody
  · -- the request is repeated
    refine h.append (fun j _ => ⟨rfl, rfl⟩) rfl rfl (fun hx => absurd hx (by simp)) fun c hc => ?_
    cases hc
    rw [receivedBytes_append, savedBytes_append]
    exact ⟨e, hentry, hr'.cur_le, List.mem_append_left _ (Option.some.inj (hentry.symm.trans hentry') ▸ hopened),
      by rw [← hreceived]; exact congrArg List.length (List.append_nil _),
      by rw [hsaved]; rfl⟩
  · -- a block has been received and saved
    -- `save` has written all of the block
    have htake : data.take a.save.toNat = data := by
      rw [hsave, Int.toNat_natCast, ← hdata, List.take_length]
    refine h.append (fun j hj => ?_) rfl rfl (fun hx => absurd hx (by simp)) fun c hc => ?_
    · simp [Untouched, receivedBytes, savedBytes, sendMemoryReadPacket, Ne.symm hj]
    · cases hc
      rw [receivedBytes_append, savedBytes_append, hsaved]
      refine ⟨e, hentry, hr'.cur_le, List.mem_append_left _
        (Option.some.inj (hentry.symm.trans hentry') ▸ hopened), ?_, ?_⟩
      · simp [receivedBytes, sendMemoryReadPacket, ← hreceived, hdata]
      · simp [receivedBytes, savedBytes, sendMemoryReadPacket, htake]

/-- The file of the next entry is opened. -/
theorem DumpedSoFar.openFile {e : DebugType} (h : DumpedSoFar s t) (hentry : s.memoryTable[s.i]? = some e)
    (hcur : s.cur = none) : DumpedSoFar { s with cur := some 0 } (t ++ [.opened s.i e.filename]) := by
  obtain ⟨hreceived, hsaved⟩ := h.closed hcur
  refine h.append (fun j _ => ⟨rfl, rfl⟩) rfl rfl (fun hx => absurd hx (by simp)) fun c hc => ?_
  cases hc
  rw [receivedBytes_append, savedBytes_append, hreceived, hsaved]
  exact ⟨e, hentry, Nat.zero_le _, List.mem_append_right t List.mem_cons_self, rfl, rfl⟩

/-- The file of a complete entry is closed, and the next one is the current one. -/
theorem DumpedSoFar.closeFile {e : DebugType} (h : DumpedSoFar s t) (hentry : s.memoryTable[s.i]? = some e)
    (hdone : EntryComplete t s.i e) :
    DumpedSoFar { s with i := s.i + 1, cur := none } (t ++ [.closed s.i]) := by
  have hclosed : ∀ j, Untouched j [SaharaEvent.closed s.i] := fun j => ⟨rfl, rfl⟩
  obtain ⟨rxBuf, hannounces, hreceived, hlen⟩ := h.announced
  exact {
    table := List.mem_append_left _ h.table
    announced := ⟨rxBuf, hannounces, List.mem_append_left _ hreceived, hlen⟩
    before := by
      intro j e' hj he'
      rcases Nat.lt_succ_iff_lt_or_eq.mp hj with hlt | rfl
      · exact (h.before j e' hlt he').append (hclosed j)
      · obtain rfl := Option.some.inj (hentry.symm.trans he')
        exact hdone.append (hclosed _)
    behind := fun j hj => (h.behind j (Nat.lt_of_succ_lt hj)).append (hclosed j)
    closed := fun _ => (h.behind (s.i + 1) (Nat.lt_succ_self _)).append (hclosed _)
    reading := fun _ hx => absurd hx (by simp) }

theorem CompleteInv.dumping (hbuf : BuffersOk s) (h : DumpedSoFar s t) (hresult : s.result = none)
    (hstate : s.state = .waitEight) : CompleteInv s t := by
  refine CompleteInv.running hresult hbuf ?_
  rw [DumpOf, hstate]
  exact h

theorem CompleteInv.waitEight (h : CompleteInv s t) (hresult : s.result = none) (hstate : s.state = .waitEight)
    (a : SaharaAnswers) (hok : Undisturbed s a) :
    CompleteInv (s.waitEight cfg a).1 (t ++ (s.waitEight cfg a).2) := by
  have hbuf := h.buffers hresult
  have ht := h.history hresult
  rw [DumpOf, hstate] at ht
  rw [Undisturbed, hstate] at hok
  rw [SaharaClient.waitEight]
  split
  · next hend =>
      -- all entries are dumped
      have hcomplete := ht.complete hend
      split
      · rw [SaharaClient.sendReset]
        cases a.tx with
        | false => exact CompleteInv.failed _
        | true =>
            refine CompleteInv.running hresult ⟨hbuf.length_rxBuf, hbuf.max_pos, hbuf.max_le⟩ ?_
            exact hcomplete.append fun i => ⟨rfl, rfl⟩
      · rw [List.append_nil]
        exact CompleteInv.succeeded hcomplete
  · next e hentry =>
      split
      · next hcur =>
          split
          · -- the file of the next entry
            exact CompleteInv.dumping ⟨hbuf.length_rxBuf, hbuf.max_pos, hbuf.max_le⟩ (ht.openFile hentry hcur)
              hresult hstate
          · exact CompleteInv.finished (by simp) _
      · next cur hcur =>
          obtain ⟨e', hentry', hle, hopened, hreceived, hsaved⟩ := ht.reading cur hcur
          obtain rfl := Option.some.inj (hentry.symm.trans hentry')
          rw [hentry, hcur] at hok
          split
          · next hlt =>
              cases hbody : QLog.regionBody s.i e s.ramDump64bit ⟨s.rxBuf, s.maxRamDumpRead, cur⟩ a with
              | mk r events =>
                  cases r with
                  | none => exact CompleteInv.failed _
                  | some r =>
                      obtain ⟨hdump, hbuf'⟩ := ht.regionBody hbuf hentry hcur hle (hok hlt) hbody
                      exact CompleteInv.dumping hbuf' hdump hresult hstate
          · -- the entry is complete
            next hdone =>
              have hentryDone : EntryComplete t s.i e := ⟨hopened, by omega, hsaved⟩
              exact CompleteInv.dumping ⟨hbuf.length_rxBuf, hbuf.max_pos, hbuf.max_le⟩
                (ht.closeFile hentry hentryDone) hresult hstate

theorem CompleteInv.waitThree (h : CompleteInv s t) (hresult : s.result = none) (hstate : s.state = .waitThree)
    (a : SaharaAnswers) : CompleteInv (s.waitThree a).1 (t ++ (s.waitThree a).2) := by
  have hbuf := h.buffers hresult
  have ht := h.history hresult
  rw [DumpOf, hstate] at ht
  have hlen := length_rxPacket hbuf.length_rxBuf a.rx
  rw [SaharaClient.waitThree]
  split
  · have hmore : DumpComplete (t ++ [.received (saharaRxPacket s.rxBuf a.rx).2]) :=
      DumpComplete.append ht fun i => ⟨rfl, rfl⟩
    dsimp only
    split
    · refine CompleteInv.running hresult ⟨hlen, hbuf.max_pos, hbuf.max_le⟩ ?_
      rw [DumpOf]
      dsimp only
      rw [hstate]
      exact hmore
    · exact CompleteInv.succeeded hmore
  · rw [List.append_nil]
    cases hcmd : qCmd (saharaRxPacket s.rxBuf a.rx).2 == 0x08 with
    | false => exact CompleteInv.failed _
    | true => exact CompleteInv.succeeded ht

/-- Every undisturbed step keeps the invariant. -/
theorem CompleteInv.step (h : CompleteInv s t) (a : SaharaAnswers) (hok : Undisturbed s a) :
    CompleteInv (s.step cfg a).1 (t ++ (s.step cfg a).2) := by
  rw [SaharaClient.step]
  split
  · rw [List.append_nil]
    exact h
  · next hresult =>
      split
      · next hstate => exact h.waitOne hresult hstate a hok
      · next hstate => exact h.waitTwo hresult hstate a hok
      · next hstate => exact h.waitThree hresult hstate a
      · next hstate => exact h.waitSeven hresult hstate a
      · next hstate => exact h.waitEight hresult hstate a hok
      all_goals exact CompleteInv.failed _

end Step

/-- **Success means completeness**: if the client is not disturbed and returns true, a table was announced and
received, and every entry of it has been received and saved in full. -/
theorem sahara_success_complete (cfg : SaharaConfig) (rxBuf : List UInt8) (maxRamDumpRead : Nat)
    (ramDump64bit : Bool) (answers : List SaharaAnswers) (hbuf : rxBuf.length = qSaharaRawBufSz)
    (hmax : ∃ k, maxRamDumpRead = qSaharaRawBufSz / 2 ^ k ∧ 16 * 1024 ≤ maxRamDumpRead)
    (hok : Along (SaharaClient.step cfg) Undisturbed (.start rxBuf maxRamDumpRead ramDump64bit) answers)
    (hresult : (SaharaClient.run cfg (.start rxBuf maxRamDumpRead ramDump64bit) answers).1.result
      = some (.returned true)) :
    DumpComplete (SaharaClient.run cfg (.start rxBuf maxRamDumpRead ramDump64bit) answers).2 := by
  obtain ⟨k, hk, hlow⟩ := hmax
  have hstart : CompleteInv (.start rxBuf maxRamDumpRead ramDump64bit) [] := by
    refine CompleteInv.running rfl ⟨hbuf, ?_, ?_⟩ fun i => ⟨rfl, rfl⟩
    · exact Nat.lt_of_lt_of_le (by decide) hlow
    · show maxRamDumpRead ≤ qSaharaRawBufSz
      rw [hk]
      exact Nat.div_le_self _ _
  have hstep : ∀ s t a, CompleteInv s t → Undisturbed s a →
      CompleteInv (s.step cfg a).1 (t ++ (s.step cfg a).2) := fun s t a h hok => h.step a hok
  have hrun := runSteps_history_along hstep answers hstart hok
  rw [List.nil_append] at hrun
  exact hrun.success hresult

/-! ## Runs -/

/-- The answers to a step in which the port has `rx` to read and everything else succeeds. -/
def answersWith (rx : PortAnswers) (save : Int) : SaharaAnswers where
  rx := rx
  rxAgain := []
  tx := true
  wakeUp := true
  created := true
  save := save

/-- A packet on the port. -/
def packet (cmd : Nat) (payload : List UInt8) : PortAnswers :=
  [some (leBytes 4 cmd ++ leBytes 4 (8 + payload.length)), some payload]

/-- A device with one region of two bytes. -/
def smallDump : List SaharaAnswers :=
  [answersWith (packet 0x01 (leBytes 4 2 ++ leBytes 4 1 ++ leBytes 4 0 ++ leBytes 4 2)) 0,
    answersWith (packet 0x09 (leBytes 4 0x1000 ++ leBytes 4 52)) 0,
    answersWith [some (leBytes 4 0 ++ leBytes 4 0x2000 ++ leBytes 4 2 ++ List.replicate 40 0x41)] 0,
    answersWith [] 0, answersWith [some [0xAA, 0xBB]] 2, answersWith [] 0, answersWith [] 0]

theorem smallDump_complete :
    DumpComplete (SaharaClient.run ⟨2, false⟩
      (.start (List.replicate qSaharaRawBufSz 0) qSaharaRawBufSz false) smallDump).2 :=
  sahara_success_complete ⟨2, false⟩ _ _ _ smallDump List.length_replicate ⟨0, rfl, by decide⟩
    (by decide +kernel) (by decide +kernel)

/-- A device that sends a reset response before anything else, and again after the reset. -/
def strayPackets : List SaharaAnswers := [answersWith (packet 0x08 []) 0, answersWith (packet 0x08 []) 0]

/-- The table has been received. -/
def isTable : SaharaEvent → Bool
  | .table _ => true
  | _ => false

/-- With such a device the client reports success and has read nothing. -/
theorem sahara_success_without_dump :
    ¬ ∀ (doReset : Bool) (rxBuf : List UInt8) (maxRamDumpRead : Nat) (ramDump64bit : Bool)
      (answers : List SaharaAnswers), rxBuf.length = qSaharaRawBufSz →
      (∃ k, maxRamDumpRead = qSaharaRawBufSz / 2 ^ k ∧ 16 * 1024 ≤ maxRamDumpRead) →
      (SaharaClient.run ⟨2, doReset⟩ (.start rxBuf maxRamDumpRead ramDump64bit) answers).1.result
        = some (.returned true) →
      DumpComplete (SaharaClient.run ⟨2, doReset⟩ (.start rxBuf maxRamDumpRead ramDump64bit) answers).2 := by
  intro h
  have hresult : (SaharaClient.run ⟨2, true⟩ (.start (List.replicate qSaharaRawBufSz 0) qSaharaRawBufSz false)
      strayPackets).1.result = some (.returned true) := by
    decide +kernel
  have htables : (SaharaClient.run ⟨2, true⟩ (.start (List.replicate qSaharaRawBufSz 0) qSaharaRawBufSz false)
      strayPackets).2.any isTable = false := by
    decide +kernel
  obtain ⟨-, entries, -, -, htable, -⟩ := h true (List.replicate qSaharaRawBufSz 0) qSaharaRawBufSz false
    strayPackets List.length_replicate ⟨0, rfl, by decide⟩ hresult
  exact absurd (List.any_eq_false.mp htables _ htable) (by simp [isTable])

end QLog
