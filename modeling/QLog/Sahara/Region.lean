import QLog.Library.Tiling
import QLog.Library.Transducer
import QLog.Sahara.Receive

/-! # Reading one memory region

For every entry of the memory table the loop of `Q_SAHARA_WAIT_EIGHT` asks for the region block by block. A receive
that fails halves the size of the blocks and is tried again, down to 16 KiB.

The size of a block is the smaller of `q_max_ram_dump_read` and what remains, cut to 32 bits. Cutting does no harm
below 4 GiB; of a larger region the part behind a multiple of 4 GiB before the end is never asked for, because the
request there has the length zero. -/

namespace QLog

open Library

/-- `q_debug_type_64bit`, an entry of the memory table; `q_save_pref` and `q_desc` are only printed. -/
structure DebugType where
  memBase : Nat
  len : Nat
  filename : List UInt8

/-- What the client does, in order, and what it gets. -/
inductive SaharaEvent
  /-- The one byte sent before the hello is awaited. -/
  | kick
  | wakeUp
  /-- A packet has been received, with `q_rx_buf` behind it. -/
  | received (rxBuf : List UInt8)
  | helloResponse (sent : Bool)
  /-- A memory-read packet with the address and the length it carries. -/
  | memoryRead (addr len : Nat)
  | reset (sent : Bool)
  /-- The memory table has been received. -/
  | table (entries : List DebugType)
  /-- The file of an entry has been created. -/
  | opened (i : Nat) (filename : List UInt8)
  /-- The data of a request for an entry has been received. -/
  | block (i addr len : Nat) (data : List UInt8)
  /-- The buffer has been passed to `qlog_logfile_save`, with its result. -/
  | saved (i : Nat) (buf : List UInt8) (result : Int)
  | closed (i : Nat)

/-- What the environment answers to the calls of one step. -/
structure SaharaAnswers where
  /-- The reads of `sahara_rx_data`, and of its second call after waking up the device. -/
  rx : PortAnswers
  rxAgain : PortAnswers
  /-- Whether the packet and the bytes that wake up the device could be sent. -/
  tx : Bool
  wakeUp : Bool
  /-- Whether the file could be created, and the result of `qlog_logfile_save`. -/
  created : Bool
  save : Int

/-- A field of a memory-read packet, of 64 or 32 bits. -/
def packetField (is64 : Bool) (n : Nat) : Nat := if is64 then n % 2 ^ 64 else n % 2 ^ 32

/-- `send_memory_read_packet` -/
def sendMemoryReadPacket (is64 : Bool) (addr len : Nat) : SaharaEvent :=
  .memoryRead (packetField is64 addr) (packetField is64 len)

/-- The state of the inner loop of `Q_SAHARA_WAIT_EIGHT`. -/
structure Region where
  rxBuf : List UInt8
  /-- `q_max_ram_dump_read` -/
  maxRamDumpRead : Nat
  cur : Nat

/-- The length of the next request. -/
def requestLen (e : DebugType) (r : Region) : Nat := min ((e.len - r.cur) % 2 ^ 32) r.maxRamDumpRead

/-- The body of the inner loop for the entry `e` with the index `i`; `none` is `return false`. -/
def regionBody (i : Nat) (e : DebugType) (is64 : Bool) (r : Region) (a : SaharaAnswers) :
    Option Region × List SaharaEvent :=
  let len := requestLen e r
  let request := sendMemoryReadPacket is64 (e.memBase + r.cur) len
  if a.tx = false then (none, [request])
  else
    match saharaRxData len r.rxBuf a.rx with
    | (none, rxBuf) =>
        if 16 * 1024 < r.maxRamDumpRead then
          (some { r with rxBuf := rxBuf, maxRamDumpRead := r.maxRamDumpRead / 2 }, [request])
        else (none, [request])
    | (some data, rxBuf) =>
        let events := [request, .block i (packetField is64 (e.memBase + r.cur)) (packetField is64 len) data,
          .saved i (rxBuf.take len) a.save]
        -- a short save is only reported
        if a.save < 0 then (none, events) else (some { r with rxBuf := rxBuf, cur := r.cur + len }, events)

/-- One round of the inner loop, which ends when `cur` has reached the end. -/
def regionStep (i : Nat) (e : DebugType) (is64 : Bool) :
    Option Region → SaharaAnswers → Option Region × List SaharaEvent
  | none, _ => (none, [])
  | some r, a => if r.cur < e.len then regionBody i e is64 r a else (some r, [])

/-- The loop is over, by its condition or by `return false`. -/
def RegionOver (e : DebugType) : Option Region → Prop
  | none => True
  | some r => e.len ≤ r.cur

/-- The request of a round is for a byte at least and for no more than the limit. -/
def RequestOk (e : DebugType) : Option Region → Prop
  | none => True
  | some r => r.cur < e.len → 1 ≤ requestLen e r ∧ requestLen e r ≤ r.maxRamDumpRead

/-- The requests whose data was received. -/
def receivedRequests (events : List SaharaEvent) : List (Nat × Nat) :=
  events.filterMap fun
    | .block _ addr len _ => some (addr, len)
    | _ => none

/-! ## One round -/

/-- The receive buffer has its whole size, a block is neither empty nor larger than it, and no more has been read than
the entry has. -/
structure RegionInv (e : DebugType) (r : Region) : Prop where
  length_rxBuf : r.rxBuf.length = qSaharaRawBufSz
  max_pos : 0 < r.maxRamDumpRead
  max_le : r.maxRamDumpRead ≤ qSaharaRawBufSz
  cur_le : r.cur ≤ e.len

section Round

variable {i : Nat} {e : DebugType} {is64 : Bool} {r r' : Region} {a : SaharaAnswers} {events : List SaharaEvent}

theorem requestLen_le : requestLen e r ≤ e.len - r.cur :=
  (Nat.min_le_left _ _).trans (Nat.mod_le _ _)

/-- What a round that goes on has done: it has received and saved a block, or it has halved the size. -/
theorem regionBody_some (hr : RegionInv e r) (h : regionBody i e is64 r a = (some r', events)) :
    (∃ rxBuf, rxBuf.length = qSaharaRawBufSz ∧ 16 * 1024 < r.maxRamDumpRead ∧
        r' = { r with rxBuf := rxBuf, maxRamDumpRead := r.maxRamDumpRead / 2 } ∧
        events = [sendMemoryReadPacket is64 (e.memBase + r.cur) (requestLen e r)]) ∨
      ∃ rxBuf data, rxBuf.length = qSaharaRawBufSz ∧ data.length = requestLen e r ∧ 0 ≤ a.save ∧
        r' = { r with rxBuf := rxBuf, cur := r.cur + requestLen e r } ∧
        events = [sendMemoryReadPacket is64 (e.memBase + r.cur) (requestLen e r),
          .block i (packetField is64 (e.memBase + r.cur)) (packetField is64 (requestLen e r)) data,
          .saved i data a.save] := by
  have hn : requestLen e r ≤ r.rxBuf.length := by
    rw [hr.length_rxBuf]
    exact (Nat.min_le_right _ _).trans hr.max_le
  have hroom : 8 + maxToRead ≤ r.rxBuf.length := by
    rw [hr.length_rxBuf]
    decide
  obtain ⟨hlen, hdata⟩ := saharaRxData_spec r.rxBuf a.rx hn hroom
  rw [hr.length_rxBuf] at hlen
  rw [regionBody] at h
  dsimp only at h
  split at h
  -- `sahara_tx_data` has failed
  · cases h
  · cases hrx : saharaRxData (requestLen e r) r.rxBuf a.rx with
    | mk data rxBuf =>
        rw [hrx] at h hlen hdata
        cases data with
        -- the data did not come, and the size is halved unless it is small already
        | none =>
            dsimp only at h
            split at h
            · next hmax =>
                cases h
                exact Or.inl ⟨rxBuf, hlen, hmax, rfl, rfl⟩
            · cases h
        -- the data came, and it is the front of `q_rx_buf` that is saved
        | some data =>
            obtain ⟨hsize, htake⟩ := hdata data rfl
            dsimp only at h htake
            split at h
            · cases h
            · next hsave =>
                rw [htake] at h
                cases h
                exact Or.inr ⟨rxBuf, data, hlen, hsize, Int.not_lt.mp hsave, rfl, rfl⟩

theorem RegionInv.regionBody (hr : RegionInv e r) (h : regionBody i e is64 r a = (some r', events)) :
    RegionInv e r' := by
  have hle := hr.cur_le
  have hlen := requestLen_le (e := e) (r := r)
  have hmax := hr.max_le
  obtain ⟨rxBuf, hbuf, hbig, rfl, -⟩ | ⟨rxBuf, data, hbuf, -, -, rfl, -⟩ := regionBody_some hr h
  · exact ⟨hbuf, by show 0 < r.maxRamDumpRead / 2; omega, (Nat.div_le_self _ _).trans hmax, hle⟩
  · exact ⟨hbuf, hr.max_pos, hmax, by show r.cur + requestLen e r ≤ e.len; omega⟩

/-- A request of a region of less than 4 GiB is not empty. -/
theorem requestOk_of_lt (hr : RegionInv e r) (hlen : e.len < 2 ^ 32) : RequestOk e (some r) := by
  intro hcur
  have hrest : (e.len - r.cur) % 2 ^ 32 = e.len - r.cur := Nat.mod_eq_of_lt (by omega)
  have hpos := hr.max_pos
  rw [requestLen, hrest]
  exact ⟨by omega, Nat.min_le_right _ _⟩

/-- Each such round takes the loop nearer to its end. -/
theorem regionBody_measure (hr : RegionInv e r) (hcur : r.cur < e.len) (hok : RequestOk e (some r))
    (h : regionBody i e is64 r a = (some r', events)) :
    e.len - r'.cur + r'.maxRamDumpRead < e.len - r.cur + r.maxRamDumpRead := by
  have hpos := hr.max_pos
  have hone := (hok hcur).1
  obtain ⟨rxBuf, -, hbig, rfl, -⟩ | ⟨rxBuf, data, -, -, -, rfl, -⟩ := regionBody_some hr h
  · show e.len - r.cur + r.maxRamDumpRead / 2 < e.len - r.cur + r.maxRamDumpRead
    omega
  · show e.len - (r.cur + requestLen e r) + r.maxRamDumpRead < e.len - r.cur + r.maxRamDumpRead
    omega

end Round

/-! ## The whole loop -/

/-- The loop from the state `r`, for as many rounds as there are answers. -/
def regionRun (i : Nat) (e : DebugType) (is64 : Bool) (r : Region) (answers : List SaharaAnswers) :
    Option Region × List SaharaEvent :=
  runSteps (regionStep i e is64) (some r) answers

/-- **A region is read exactly once**: whatever the device answers, the loop is over after a bounded number of
rounds, every request asks for at least one byte and at most `q_max_ram_dump_read`, and when the loop ends by its
condition the requests whose data came tile the region. -/
def RegionReadOnce (i : Nat) (e : DebugType) (is64 : Bool) (r : Region) : Prop :=
  (∃ n, ∀ answers, n ≤ answers.length → RegionOver e (regionRun i e is64 r answers).1) ∧
    ∀ answers, Along (regionStep i e is64) (fun s _ => RequestOk e s) (some r) answers ∧
      ∀ r', (regionRun i e is64 r answers).1 = some r' → e.len ≤ r'.cur →
        Tiles e.memBase (e.memBase + e.len) (receivedRequests (regionRun i e is64 r answers).2)

section Run

variable {i : Nat} {e : DebugType} {is64 : Bool} {r : Region}

theorem runSteps_regionStep_none (answers : List SaharaAnswers) :
    runSteps (regionStep i e is64) none answers = (none, []) := by
  induction answers with
  | nil => rfl
  | cons a answers ih =>
      rw [runSteps_cons, regionStep, ih]
      rfl

theorem regionStep_of_lt (hcur : r.cur < e.len) (a : SaharaAnswers) :
    regionStep i e is64 (some r) a = regionBody i e is64 r a :=
  if_pos hcur

theorem regionStep_of_le (hcur : e.len ≤ r.cur) (a : SaharaAnswers) :
    regionStep i e is64 (some r) a = (some r, []) :=
  if_neg (Nat.not_lt.mpr hcur)

/-- A loop that is over stays as it is. -/
theorem runSteps_regionStep_of_le (hcur : e.len ≤ r.cur) (answers : List SaharaAnswers) :
    runSteps (regionStep i e is64) (some r) answers = (some r, []) := by
  induction answers with
  | nil => rfl
  | cons a answers ih =>
      rw [runSteps_cons, regionStep_of_le hcur, ih]
      rfl

/-- What a round keeps, every run keeps. -/
theorem regionStep_inv (s : Option Region) (a : SaharaAnswers) (hs : ∀ r, s = some r → RegionInv e r) :
    ∀ r', (regionStep i e is64 s a).1 = some r' → RegionInv e r' := by
  intro r' hr'
  cases s with
  | none => cases hr'
  | some r =>
      rcases Nat.lt_or_ge r.cur e.len with hcur | hcur
      · rw [regionStep_of_lt hcur] at hr'
        exact (hs r rfl).regionBody (Prod.ext hr' rfl)
      · rw [regionStep_of_le hcur] at hr'
        exact hs r' hr'

theorem RegionInv.of_some (hr : RegionInv e r) : ∀ r', some r = some r' → RegionInv e r' := by
  intro r' hr'
  cases hr'
  exact hr

theorem RegionInv.regionRun (answers : List SaharaAnswers) (hr : RegionInv e r) :
    ∀ r', (regionRun i e is64 r answers).1 = some r' → RegionInv e r' :=
  runSteps_invariant (regionStep i e is64) regionStep_inv (some r) answers hr.of_some

/-- The address and the length of a request are not cut where the region fits the addresses. -/
theorem packetField_request (hfit : e.memBase + e.len ≤ if is64 then 2 ^ 64 else 2 ^ 32) (hcur : r.cur < e.len) :
    packetField is64 (e.memBase + r.cur) = e.memBase + r.cur ∧
      packetField is64 (requestLen e r) = requestLen e r := by
  have hlen : requestLen e r < 2 ^ 32 :=
    (Nat.min_le_left _ _).trans_lt (Nat.mod_lt _ (Nat.two_pow_pos 32))
  rw [packetField, packetField]
  cases is64 with
  | false => exact ⟨Nat.mod_eq_of_lt (by simp at hfit; omega), Nat.mod_eq_of_lt hlen⟩
  | true => exact ⟨Nat.mod_eq_of_lt (by simp at hfit; omega), Nat.mod_eq_of_lt (by omega)⟩

/-- The requests whose data came tile what the loop has got past. -/
theorem tiles_regionRun (hfit : e.memBase + e.len ≤ if is64 then 2 ^ 64 else 2 ^ 32)
    (answers : List SaharaAnswers) (hr : RegionInv e r) (r' : Region)
    (h : (regionRun i e is64 r answers).1 = some r') :
    Tiles (e.memBase + r.cur) (e.memBase + r'.cur) (receivedRequests (regionRun i e is64 r answers).2) := by
  induction answers generalizing r with
  | nil =>
      cases h
      rfl
  | cons a answers ih =>
      rw [regionRun, runSteps_cons] at h ⊢
      rcases Nat.lt_or_ge r.cur e.len with hcur | hcur
      · rw [regionStep_of_lt hcur] at h ⊢
        cases hbody : regionBody i e is64 r a with
        | mk s events =>
            rw [hbody] at h
            cases s with
            | none =>
                rw [prepend_fst, runSteps_regionStep_none] at h
                cases h
            | some s =>
                have hrest := ih (hr.regionBody hbody) h
                obtain ⟨haddr, hreq⟩ := packetField_request hfit hcur
                rw [prepend_snd, receivedRequests, List.filterMap_append]
                obtain ⟨rxBuf, -, -, rfl, rfl⟩ | ⟨rxBuf, data, -, -, -, rfl, rfl⟩ := regionBody_some hr hbody
                -- a round that halves the size receives nothing, so the tiles are those of the rest
                · exact hrest
                · rw [haddr, hreq]
                  have hfirst : Tiles (e.memBase + r.cur) (e.memBase + r.cur + requestLen e r)
                      [(e.memBase + r.cur, requestLen e r)] := ⟨rfl, rfl⟩
                  refine hfirst.append ?_
                  rw [Nat.add_assoc]
                  exact hrest
      · rw [regionStep_of_le hcur] at h ⊢
        exact ih hr h

/-- With requests that are not empty the loop is soon over. -/
theorem regionOver_regionRun (hlen : e.len < 2 ^ 32) (answers : List SaharaAnswers) (hr : RegionInv e r)
    (hn : e.len - r.cur + r.maxRamDumpRead ≤ answers.length) :
    RegionOver e (regionRun i e is64 r answers).1 := by
  induction answers generalizing r with
  | nil =>
      have hpos := hr.max_pos
      rw [List.length_nil] at hn
      omega
  | cons a answers ih =>
      rw [regionRun, runSteps_cons, prepend_fst]
      rcases Nat.lt_or_ge r.cur e.len with hcur | hcur
      · rw [regionStep_of_lt hcur]
        cases hbody : regionBody i e is64 r a with
        | mk s events =>
            cases s with
            | none =>
                rw [runSteps_regionStep_none]
                trivial
            | some s =>
                have hless := regionBody_measure hr hcur (requestOk_of_lt hr hlen) hbody
                rw [List.length_cons] at hn
                exact ih (hr.regionBody hbody) (by omega)
      · rw [regionStep_of_le hcur, runSteps_regionStep_of_le hcur]
        exact hcur

/-- The answers of a device that sends all that is asked for. -/
def deliverAll (n : Nat) : SaharaAnswers where
  rx := byteByByte n
  rxAgain := []
  tx := true
  wakeUp := true
  created := true
  save := n

theorem regionBody_deliverAll (i : Nat) (is64 : Bool) (hpos : 0 < requestLen e r) :
    ∃ rxBuf, (regionBody i e is64 r (deliverAll (requestLen e r))).1
      = some { r with rxBuf := rxBuf, cur := r.cur + requestLen e r } := by
  have htx : ¬ (deliverAll (requestLen e r)).tx = false := Bool.noConfusion
  have hsave : ¬ (deliverAll (requestLen e r)).save < 0 := Int.not_lt.mpr (Int.natCast_nonneg _)
  have hrx : (saharaRxData (requestLen e r) r.rxBuf (deliverAll (requestLen e r)).rx).1
      = some (List.replicate (requestLen e r) 0) := saharaRxData_byteByByte hpos r.rxBuf
  cases hdata : saharaRxData (requestLen e r) r.rxBuf (deliverAll (requestLen e r)).rx with
  | mk data rxBuf =>
      rw [hdata] at hrx
      cases hrx
      refine ⟨rxBuf, ?_⟩
      rw [regionBody]
      dsimp only
      rw [if_neg htx, hdata]
      dsimp only
      rw [if_neg hsave]

/-- A region of 4 GiB or more makes the loop ask for nothing at all at some point. -/
theorem exists_empty_request (i : Nat) (is64 : Bool) (hlen : 2 ^ 32 ≤ e.len - r.cur) (hr : RegionInv e r) :
    ∃ answers, ¬ Along (regionStep i e is64) (fun s _ => RequestOk e s) (some r) answers := by
  -- by induction on the bytes up to the next multiple of 4 GiB before the end
  induction hrest : (e.len - r.cur) % 2 ^ 32 using Nat.strong_induction_on generalizing r with
  | _ rest ih =>
      have hcur : r.cur < e.len := by omega
      have hle : requestLen e r ≤ rest := by
        rw [← hrest]
        exact Nat.min_le_left _ _
      -- at a multiple of 4 GiB before the end the rest counts as nothing, before it a device that answers takes us on
      rcases Nat.eq_zero_or_pos rest with hzero | hpos
      · refine ⟨[deliverAll 0], fun halong => ?_⟩
        have hone := (halong.1 hcur).1
        omega
      · have hreq : 0 < requestLen e r := by
          have hmax := hr.max_pos
          rw [requestLen, hrest]
          omega
        obtain ⟨rxBuf, hbody⟩ := regionBody_deliverAll i is64 hreq
        have hnext : (e.len - (r.cur + requestLen e r)) % 2 ^ 32 = rest - requestLen e r := by omega
        have hr' := hr.regionBody (Prod.ext hbody rfl)
        obtain ⟨answers, hanswers⟩ := ih (rest - requestLen e r) (by omega)
          (r := { r with rxBuf := rxBuf, cur := r.cur + requestLen e r })
          (by show 2 ^ 32 ≤ e.len - (r.cur + requestLen e r); omega) hr' hnext
        refine ⟨deliverAll (requestLen e r) :: answers, fun halong => hanswers ?_⟩
        have htail := halong.2
        rw [regionStep_of_lt hcur, hbody] at htail
        exact htail

/-- **When a region is read exactly once**: where it is smaller than 4 GiB, and nowhere else. -/
theorem regionReadOnce_iff (hcur : r.cur = 0) (hbuf : r.rxBuf.length = qSaharaRawBufSz)
    (hmax : ∃ k, r.maxRamDumpRead = qSaharaRawBufSz / 2 ^ k ∧ 16 * 1024 ≤ r.maxRamDumpRead)
    (hfit : e.memBase + e.len ≤ if is64 then 2 ^ 64 else 2 ^ 32) :
    RegionReadOnce i e is64 r ↔ e.len < 2 ^ 32 := by
  obtain ⟨k, hk, hlow⟩ := hmax
  have hr : RegionInv e r := by
    refine ⟨hbuf, by omega, ?_, by omega⟩
    rw [hk]
    exact Nat.div_le_self _ _
  constructor
  · intro h
    by_contra hlen
    obtain ⟨answers, hanswers⟩ := exists_empty_request i is64 (e := e) (r := r) (by omega) hr
    exact hanswers (h.2 answers).1
  -- the three parts: the bound, the requests, the tiling
  · intro hlen
    refine ⟨⟨_, fun answers => regionOver_regionRun hlen answers hr⟩, fun answers => ⟨?_, fun r' hr' hend => ?_⟩⟩
    · refine along_of_invariant (regionStep i e is64) regionStep_inv (fun s _ hs => ?_) (some r) answers hr.of_some
      cases s with
      | none => trivial
      | some s => exact requestOk_of_lt (hs s rfl) hlen
    · have htiles := tiles_regionRun hfit answers hr r' hr'
      have hle := (hr.regionRun answers r' hr').cur_le
      rwa [hcur, Nat.add_zero, Nat.le_antisymm hle hend] at htiles

/-- Every address of the region is in the answer of one request, and no other address is in any. -/
theorem RegionReadOnce.countP_receivedRequests (h : RegionReadOnce i e is64 r) {answers : List SaharaAnswers}
    {r' : Region} (hrun : (regionRun i e is64 r answers).1 = some r') (hend : e.len ≤ r'.cur) (x : Nat) :
    (receivedRequests (regionRun i e is64 r answers).2).countP (fun seg => seg.1 ≤ x ∧ x < seg.1 + seg.2) =
      if e.memBase ≤ x ∧ x < e.memBase + e.len then 1 else 0 := by
  apply Tiles.countP
  exact (h.2 answers).2 r' hrun hend

end Run

/-- The loop at its start. -/
def regionStart : Region where
  rxBuf := List.replicate qSaharaRawBufSz 0
  maxRamDumpRead := qSaharaRawBufSz
  cur := 0

theorem regionReadOnce_small : RegionReadOnce 0 ⟨0x80000000, 0x30001, []⟩ true regionStart :=
  (regionReadOnce_iff rfl List.length_replicate ⟨0, rfl, by decide⟩ (by decide)).mpr (by decide)

/-- The first request for a region of 4 GiB has the length zero. -/
theorem not_regionReadOnce_large :
    ¬ ∀ (i : Nat) (e : DebugType) (is64 : Bool) (r : Region), r.cur = 0 → r.rxBuf.length = qSaharaRawBufSz →
      (∃ k, r.maxRamDumpRead = qSaharaRawBufSz / 2 ^ k ∧ 16 * 1024 ≤ r.maxRamDumpRead) →
      (e.memBase + e.len ≤ if is64 then 2 ^ 64 else 2 ^ 32) → RegionReadOnce i e is64 r := by
  intro h
  have hread := h 0 ⟨0, 2 ^ 32, []⟩ true regionStart rfl List.length_replicate ⟨0, rfl, by decide⟩ (by decide)
  have hfirst := (hread.2 [deliverAll 0]).1.1 (show 0 < 2 ^ 32 by decide)
  exact absurd hfirst.1 (by decide)

end QLog
