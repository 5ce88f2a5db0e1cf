import QLog.Library.History
import QLog.Sahara.Client

/-! # The order of what the Sahara client sends

`OrderSafe` says of a history that everything in it was allowed after what came before: a memory-read packet only
after a hello of the expected mode, its response and the announcement of a table; the first one for that table, the
others for a part of the entry being dumped; the entries one by one in the order of the table; and nothing after a
reset. `run_orderSafe` is induction over the run with one invariant for each state of the client. -/

namespace QLog

open Library

/-! ## The property -/

/-- A memory-read packet has been sent. -/
def IsMemoryRead : SaharaEvent → Prop
  | .memoryRead _ _ => True
  | _ => False

/-- The entries whose file was created, in order. -/
def openedEntries (t : List SaharaEvent) : List Nat :=
  t.filterMap fun
    | .opened i _ => some i
    | _ => none

/-- The entries whose file was closed, in order. -/
def closedEntries (t : List SaharaEvent) : List Nat :=
  t.filterMap fun
    | .closed i => some i
    | _ => none

/-- The entry with the index `i` is being dumped: those before it have been dumped. -/
def Dumping (t : List SaharaEvent) (i : Nat) : Prop :=
  openedEntries t = List.range (i + 1) ∧ closedEntries t = List.range i

/-- No reset command has been sent. -/
def NoReset (t : List SaharaEvent) : Prop := ∀ sent, SaharaEvent.reset sent ∉ t

/-- A hello packet of the expected mode. -/
def IsHello (cfg : SaharaConfig) (rxBuf : List UInt8) : Prop := qCmd rxBuf = 0x01 ∧ helloMode rxBuf = cfg.qMode

/-- A packet that announces a valid memory table. -/
def AnnouncesTable (rxBuf : List UInt8) : Prop :=
  (qCmd rxBuf = 0x09 ∨ qCmd rxBuf = 0x10) ∧
    isValidMemoryTable (announces64bit rxBuf) (announcedLength rxBuf) = true

/-- A hello was received, the response to it sent, and then a table announced, in this order. -/
def Announced (cfg : SaharaConfig) (t : List SaharaEvent) (rxBuf : List UInt8) : Prop :=
  ∃ hello, IsHello cfg hello ∧ AnnouncesTable rxBuf ∧
    [.received hello, .helloResponse true, .received rxBuf].Sublist t

/-- The request lies in the entry, unless the entry does not fit the addresses. -/
def Within (is64 : Bool) (e : DebugType) (addr len : Nat) : Prop :=
  e.memBase + e.len ≤ (if is64 then 2 ^ 64 else 2 ^ 32) →
    e.memBase ≤ addr ∧ addr + len ≤ e.memBase + e.len

/-- What may be done after the history `t`. -/
def Allowed (cfg : SaharaConfig) (t : List SaharaEvent) : SaharaEvent → Prop
  | .memoryRead addr len =>
      NoReset t ∧ ∃ rxBuf, Announced cfg t rxBuf ∧
        ((∀ ev ∈ t, ¬ IsMemoryRead ev) →
          t.getLast? = some (.received rxBuf) ∧ addr = announcedAddr rxBuf ∧ len = announcedLength rxBuf) ∧
        ((∃ ev ∈ t, IsMemoryRead ev) →
          ∃ entries i e, .table entries ∈ t ∧ Dumping t i ∧ entries[i]? = some e ∧
            Within (announces64bit rxBuf) e addr len)
  | .opened i _ => openedEntries t = List.range i ∧ closedEntries t = List.range i
  | .kick | .wakeUp | .helloResponse _ | .reset _ => NoReset t
  | .received _ | .table _ | .block _ _ _ _ | .saved _ _ _ | .closed _ => True

/-- Everything in the history was allowed. -/
def OrderSafe (cfg : SaharaConfig) (t : List SaharaEvent) : Prop := EachAfter (Allowed cfg) t

/-! ## Histories -/

section History

variable (t u : List SaharaEvent)

@[simp] theorem openedEntries_append : openedEntries (t ++ u) = openedEntries t ++ openedEntries u :=
  List.filterMap_append

@[simp] theorem closedEntries_append : closedEntries (t ++ u) = closedEntries t ++ closedEntries u :=
  List.filterMap_append

@[simp] theorem noReset_append : NoReset (t ++ u) ↔ NoReset t ∧ NoReset u := by
  simp only [NoReset, List.mem_append, not_or, forall_and]

variable {t u}

theorem Announced.append {cfg : SaharaConfig} {rxBuf : List UInt8} (h : Announced cfg t rxBuf)
    (u : List SaharaEvent) : Announced cfg (t ++ u) rxBuf := by
  obtain ⟨hello, hhello, htable, hsub⟩ := h
  exact ⟨hello, hhello, htable, hsub.trans (List.sublist_append_left t u)⟩

end History

/-! ## The invariant -/

/-- Nothing has been dumped so far, nor has the client been reset. -/
structure NotDumping (t : List SaharaEvent) : Prop where
  noReset : NoReset t
  opened : openedEntries t = []
  closed : closedEntries t = []

theorem NotDumping.append {t u : List SaharaEvent} (ht : NotDumping t) (hu : NotDumping u) :
    NotDumping (t ++ u) where
  noReset := (noReset_append t u).mpr ⟨ht.noReset, hu.noReset⟩
  opened := by rw [openedEntries_append, ht.opened, hu.opened, List.append_nil]
  closed := by rw [closedEntries_append, ht.closed, hu.closed, List.append_nil]

/-- What the history of a running client is like, by its state. -/
def HistoryOf (cfg : SaharaConfig) (s : SaharaClient) (t : List SaharaEvent) : Prop :=
  match s.state with
  | .waitOne => t = []
  | .waitTwo =>
      NotDumping t ∧ (∀ ev ∈ t, ¬ IsMemoryRead ev) ∧
        ∃ hello, IsHello cfg hello ∧ [.received hello, .helloResponse true].Sublist t
  | .waitSeven =>
      NotDumping t ∧ ∃ rxBuf, Announced cfg t rxBuf ∧ s.ramDump64bit = announces64bit rxBuf ∧
        (0 < s.memoryTableLength → ∃ ev ∈ t, IsMemoryRead ev)
  | .waitEight =>
      NoReset t ∧ .table s.memoryTable ∈ t ∧ (s.memoryTable ≠ [] → ∃ ev ∈ t, IsMemoryRead ev) ∧
        closedEntries t = List.range s.i ∧ openedEntries t = List.range (s.i + if s.cur.isSome then 1 else 0) ∧
        ∃ rxBuf, Announced cfg t rxBuf ∧ s.ramDump64bit = announces64bit rxBuf
  | .waitThree | .waitFour | .waitFive | .waitSix => True

/-- The order has been kept so far, and as long as the client runs the history fits its state. -/
structure OrderInv (cfg : SaharaConfig) (s : SaharaClient) (t : List SaharaEvent) : Prop where
  safe : OrderSafe cfg t
  history : s.result = none → HistoryOf cfg s t

/-- The fields of a packet that announces a table fit those of a memory-read packet. -/
theorem packetField_announced (rxBuf : List UInt8) :
    packetField (announces64bit rxBuf) (announcedAddr rxBuf) = announcedAddr rxBuf ∧
      packetField (announces64bit rxBuf) (announcedLength rxBuf) = announcedLength rxBuf := by
  rw [packetField, packetField, announcedAddr, announcedLength]
  cases announces64bit rxBuf with
  | false => exact ⟨Nat.mod_eq_of_lt (ofLeBytes_lt _ (length_window_le _ _ _)),
      Nat.mod_eq_of_lt (ofLeBytes_lt _ (length_window_le _ _ _))⟩
  | true => exact ⟨Nat.mod_eq_of_lt (ofLeBytes_lt _ (length_window_le _ _ _)),
      Nat.mod_eq_of_lt (ofLeBytes_lt _ (length_window_le _ _ _))⟩

section Step

variable {cfg : SaharaConfig} {s : SaharaClient} {t : List SaharaEvent}

/-- A client that has ended need not tell more. -/
theorem OrderInv.finished (h : OrderSafe cfg t) (r : SaharaResult) : OrderInv cfg (s.finish r) t :=
  ⟨h, fun hresult => absurd hresult (by simp)⟩

/-- One more entry. -/
theorem OrderSafe.snoc (h : OrderSafe cfg t) {ev : SaharaEvent} (hev : Allowed cfg t ev) :
    OrderSafe cfg (t ++ [ev]) := by
  refine (eachAfter_append t [ev]).mpr ⟨h, ?_⟩
  rw [eachAfter_cons]
  exact ⟨by rwa [List.append_nil], eachAfter_nil⟩

theorem OrderInv.sendReset (h : OrderSafe cfg t) (hreset : NoReset t) (a : SaharaAnswers) :
    OrderInv cfg (s.sendReset a).1 (t ++ (s.sendReset a).2) := by
  refine ⟨h.snoc hreset, fun hresult => ?_⟩
  rw [SaharaClient.sendReset] at hresult ⊢
  cases htx : a.tx with
  | false =>
      rw [htx] at hresult
      cases hresult
  | true => trivial

/-- The hello: nothing has been done before it but to ask for it. -/
theorem OrderInv.greet (h : OrderSafe cfg t) (hnew : NotDumping t) (hread : ∀ ev ∈ t, ¬ IsMemoryRead ev)
    (hlast : SaharaEvent.received s.rxBuf ∈ t) (a : SaharaAnswers) :
    OrderInv cfg (s.greet cfg a).1 (t ++ (s.greet cfg a).2) := by
  rw [SaharaClient.greet]
  split
  · exact OrderInv.sendReset h hnew.noReset a
  · next hcmd =>
      split
      · rw [List.append_nil]
        exact OrderInv.finished h _
      · next hmode =>
          refine ⟨h.snoc hnew.noReset, fun hresult => ?_⟩
          cases htx : a.tx with
          | false =>
              rw [htx] at hresult
              cases hresult
          | true =>
              refine ⟨hnew.append ⟨by simp [NoReset], rfl, rfl⟩, ?_, s.rxBuf,
                ⟨not_not.mp hcmd, not_not.mp hmode⟩, ?_⟩
              · simpa [or_imp, forall_and, IsMemoryRead] using hread
              · exact (List.singleton_sublist.mpr hlast).append (List.Sublist.refl _)

theorem OrderInv.waitOne (a : SaharaAnswers) : OrderInv cfg (s.waitOne cfg a).1 (s.waitOne cfg a).2 := by
  have hkick : OrderSafe cfg [.kick] := OrderSafe.snoc eachAfter_nil (by simp [Allowed, NoReset])
  have hwake : OrderSafe cfg [.kick, .wakeUp] := hkick.snoc (by simp [Allowed, NoReset])
  rw [SaharaClient.waitOne]
  dsimp only
  split
  · refine OrderInv.greet (t := [.kick, .received _]) (hkick.snoc trivial) ⟨by simp [NoReset], rfl, rfl⟩ ?_ ?_ a
    · simp [IsMemoryRead]
    · exact List.mem_cons_of_mem _ List.mem_cons_self
  · split
    · exact OrderInv.finished hwake _
    · split
      · refine OrderInv.greet (t := [.kick, .wakeUp, .received _]) (hwake.snoc trivial)
          ⟨by simp [NoReset], rfl, rfl⟩ ?_ ?_ a
        · simp [IsMemoryRead]
        · exact List.mem_cons_of_mem _ (List.mem_cons_of_mem _ List.mem_cons_self)
      · exact OrderInv.finished hwake _

/-- The announcement of the table, as the last packet of the history. -/
theorem OrderInv.announced (h : OrderSafe cfg t) (hnew : NotDumping t) (hread : ∀ ev ∈ t, ¬ IsMemoryRead ev)
    (hlast : t.getLast? = some (.received s.rxBuf)) (hcmd : qCmd s.rxBuf = 0x09 ∨ qCmd s.rxBuf = 0x10)
    {hello : List UInt8} (hhello : IsHello cfg hello)
    (hsub : [.received hello, .helloResponse true, .received s.rxBuf].Sublist t) (a : SaharaAnswers) :
    OrderInv cfg (s.announced a).1 (t ++ (s.announced a).2) := by
  rw [SaharaClient.announced]
  split
  · exact OrderInv.sendReset h hnew.noReset a
  · next hvalid =>
      have htable : AnnouncesTable s.rxBuf := ⟨hcmd, by simpa using hvalid⟩
      have hannounced : Announced cfg t s.rxBuf := ⟨hello, hhello, htable, hsub⟩
      split
      · next hpos =>
          -- the first memory read is that of the announced table itself
          have hallowed : Allowed cfg t
              (sendMemoryReadPacket (announces64bit s.rxBuf) (announcedAddr s.rxBuf) (announcedLength s.rxBuf)) := by
            have hfields := packetField_announced s.rxBuf
            rw [sendMemoryReadPacket, hfields.1, hfields.2]
            refine ⟨hnew.noReset, s.rxBuf, hannounced, fun _ => ⟨hlast, rfl, rfl⟩, ?_⟩
            rintro ⟨ev, hev, hmem⟩
            exact absurd hmem (hread ev hev)
          refine ⟨h.snoc hallowed, fun hresult => ?_⟩
          split at hresult
          · cases hresult
          · next hgo =>
              rw [if_neg hgo]
              refine ⟨hnew.append ⟨by simp [NoReset, sendMemoryReadPacket], rfl, rfl⟩, s.rxBuf,
                hannounced.append _, rfl, fun _ => ⟨_, List.mem_append_right t List.mem_cons_self, trivial⟩⟩
      · next hzero =>
          rw [List.append_nil]
          exact ⟨h, fun _ => ⟨hnew, s.rxBuf, hannounced, rfl, fun hpos => absurd hpos hzero⟩⟩

theorem OrderInv.waitTwo (h : OrderInv cfg s t) (hresult : s.result = none) (hstate : s.state = .waitTwo)
    (a : SaharaAnswers) : OrderInv cfg (s.waitTwo a).1 (t ++ (s.waitTwo a).2) := by
  have hhist := h.history hresult
  rw [HistoryOf, hstate] at hhist
  obtain ⟨hnew, hread, hello, hhello, hsub⟩ := hhist
  rw [SaharaClient.waitTwo]
  split
  · rw [List.append_nil]
    exact OrderInv.finished h.safe _
  · rw [prepend_fst, prepend_snd, ← List.append_assoc]
    set rxBuf := (saharaRxPacket s.rxBuf a.rx).2 with hrx
    have hsafe : OrderSafe cfg (t ++ [.received rxBuf]) := h.safe.snoc trivial
    have hnew' : NotDumping (t ++ [.received rxBuf]) := hnew.append ⟨by simp [NoReset], rfl, rfl⟩
    have hread' : ∀ ev ∈ t ++ [.received rxBuf], ¬ IsMemoryRead ev := by
      simpa [or_imp, forall_and, IsMemoryRead] using hread
    split
    · next hcmd =>
        exact OrderInv.announced (s := { s with rxBuf := rxBuf }) hsafe hnew' hread' List.getLast?_concat hcmd hhello
          (hsub.append (List.Sublist.refl [SaharaEvent.received rxBuf])) a
    · split
      · -- a hello again: still in the same state
        rw [List.append_nil]
        refine ⟨hsafe, fun _ => ?_⟩
        rw [HistoryOf]
        dsimp only
        rw [hstate]
        exact ⟨hnew', hread', hello, hhello, hsub.trans (List.sublist_append_left t _)⟩
      · exact OrderInv.sendReset hsafe hnew'.noReset a

/-- The table is there. -/
theorem OrderInv.tableReceived (h : OrderInv cfg s t) (hresult : s.result = none) (hstate : s.state = .waitSeven)
    (rxBuf : List UInt8) {entries : List DebugType} (hpos : entries ≠ [] → 0 < s.memoryTableLength) :
    OrderInv cfg { s with rxBuf := rxBuf, memoryTable := entries, state := .waitEight, i := 0, cur := none }
      (t ++ [.table entries]) := by
  have hhist := h.history hresult
  rw [HistoryOf, hstate] at hhist
  obtain ⟨hnew, table, hannounced, his64, hread⟩ := hhist
  refine ⟨h.safe.snoc trivial, fun _ => ⟨?_, ?_, fun hne => ?_, ?_, ?_, table, hannounced.append _, his64⟩⟩
  · exact (noReset_append t _).mpr ⟨hnew.noReset, by simp [NoReset]⟩
  · exact List.mem_append_right t List.mem_cons_self
  · obtain ⟨ev, hev, hmem⟩ := hread (hpos hne)
    exact ⟨ev, List.mem_append_left _ hev, hmem⟩
  · rw [closedEntries_append, hnew.closed]
    rfl
  · rw [openedEntries_append, hnew.opened]
    rfl

theorem OrderInv.waitSeven (h : OrderInv cfg s t) (hresult : s.result = none) (hstate : s.state = .waitSeven)
    (a : SaharaAnswers) : OrderInv cfg (s.waitSeven a).1 (t ++ (s.waitSeven a).2) := by
  rw [SaharaClient.waitSeven]
  split
  · exact h.tableReceived hresult hstate s.rxBuf fun hne => absurd rfl hne
  · next hlen =>
      split
      · rw [List.append_nil]
        exact OrderInv.finished h.safe _
      · split
        · rw [List.append_nil]
          exact OrderInv.finished h.safe _
        · exact h.tableReceived hresult hstate _ fun _ => Nat.pos_of_ne_zero hlen

/-- What a round of the region loop does: it sends one request, and may receive and save a block. -/
theorem regionBody_events (i : Nat) (e : DebugType) (is64 : Bool) (r : Region) (a : SaharaAnswers) :
    ∃ u, (regionBody i e is64 r a).2 = sendMemoryReadPacket is64 (e.memBase + r.cur) (requestLen e r) :: u ∧
      ∀ ev ∈ u, (∃ addr len data, ev = .block i addr len data) ∨ ∃ buf result, ev = .saved i buf result := by
  rw [regionBody]
  dsimp only
  split
  · exact ⟨[], rfl, fun ev hev => absurd hev List.not_mem_nil⟩
  · split
    · split <;> exact ⟨[], rfl, fun ev hev => absurd hev List.not_mem_nil⟩
    · split
      all_goals
        refine ⟨_, rfl, ?_⟩
        intro ev hev
        simp only [List.mem_cons, List.not_mem_nil, or_false] at hev
        rcases hev with rfl | rfl
        · exact Or.inl ⟨_, _, _, rfl⟩
        · exact Or.inr ⟨_, _, rfl⟩

/-- Blocks and saves do not matter for the order. -/
theorem OrderSafe.blocks (h : OrderSafe cfg t) {i : Nat} {u : List SaharaEvent}
    (hu : ∀ ev ∈ u, (∃ addr len data, ev = .block i addr len data) ∨ ∃ buf result, ev = .saved i buf result) :
    OrderSafe cfg (t ++ u) ∧ NotDumping u := by
  -- event by event
  induction u generalizing t with
  | nil =>
      rw [List.append_nil]
      exact ⟨h, by simp [NoReset], rfl, rfl⟩
  | cons ev u ih =>
      have htail := fun ev' hev' => hu ev' (List.mem_cons_of_mem ev hev')
      have hone : Allowed cfg t ev ∧ NotDumping [ev] := by
        rcases hu ev List.mem_cons_self with ⟨addr, len, data, rfl⟩ | ⟨buf, result, rfl⟩
        · exact ⟨trivial, by simp [NoReset], rfl, rfl⟩
        · exact ⟨trivial, by simp [NoReset], rfl, rfl⟩
      obtain ⟨hsafe, hquiet⟩ := ih (h.snoc hone.1) htail
      rw [List.append_assoc] at hsafe
      exact ⟨hsafe, hone.2.append hquiet⟩

/-- A request for a block of the entry being dumped. -/
theorem allowed_request {rxBuf : List UInt8} {e : DebugType} {r : Region} (hreset : NoReset t)
    (hannounced : Announced cfg t rxBuf) (hmem : ∃ ev ∈ t, IsMemoryRead ev) {entries : List DebugType}
    (htable : .table entries ∈ t) {i : Nat} (hdump : Dumping t i) (hentry : entries[i]? = some e)
    (hlt : r.cur < e.len) :
    Allowed cfg t (sendMemoryReadPacket (announces64bit rxBuf) (e.memBase + r.cur) (requestLen e r)) := by
  refine ⟨hreset, rxBuf, hannounced, fun hnone => ?_, fun _ => ⟨entries, i, e, htable, hdump, hentry, fun hfit => ?_⟩⟩
  · obtain ⟨ev, hev, hmr⟩ := hmem
    exact absurd hmr (hnone ev hev)
  -- the request lies in the entry
  · have hlen := requestLen_le (e := e) (r := r)
    obtain ⟨haddr, hreq⟩ := packetField_request hfit hlt
    rw [haddr, hreq]
    exact ⟨Nat.le_add_right _ _, by omega⟩

/-- A round of the region loop is allowed while its entry is being dumped. It opens no file and closes none. -/
theorem OrderSafe.regionBody {rxBuf : List UInt8} {e : DebugType} {r : Region} (h : OrderSafe cfg t)
    (hreset : NoReset t) (hannounced : Announced cfg t rxBuf) (hmem : ∃ ev ∈ t, IsMemoryRead ev)
    {entries : List DebugType} (htable : .table entries ∈ t) {i : Nat} (hdump : Dumping t i)
    (hentry : entries[i]? = some e) (hlt : r.cur < e.len) (a : SaharaAnswers) :
    OrderSafe cfg (t ++ (QLog.regionBody i e (announces64bit rxBuf) r a).2) ∧
      NotDumping (QLog.regionBody i e (announces64bit rxBuf) r a).2 := by
  obtain ⟨u, hevents, hu⟩ := regionBody_events i e (announces64bit rxBuf) r a
  have hrequest := h.snoc (allowed_request hreset hannounced hmem htable hdump hentry hlt)
  obtain ⟨hsafe, hquiet⟩ := hrequest.blocks hu
  rw [List.append_assoc, List.singleton_append, ← hevents] at hsafe
  refine ⟨hsafe, ?_⟩
  rw [hevents]
  exact NotDumping.append (t := [_]) ⟨by simp [NoReset, sendMemoryReadPacket], rfl, rfl⟩ hquiet

/-- The dump goes on. -/
theorem OrderInv.dumpStep {u : List SaharaEvent} {s' : SaharaClient} (h : HistoryOf cfg s t)
    (hstate : s.state = .waitEight) (hstate' : s'.state = .waitEight) (hmem : ∃ ev ∈ t, IsMemoryRead ev)
    (htable : s'.memoryTable = s.memoryTable) (his64 : s'.ramDump64bit = s.ramDump64bit) (hu : NoReset u)
    (hsafe : OrderSafe cfg (t ++ u)) (hclosed : closedEntries (t ++ u) = List.range s'.i)
    (hopened : openedEntries (t ++ u) = List.range (s'.i + if s'.cur.isSome then 1 else 0)) :
    OrderInv cfg s' (t ++ u) := by
  rw [HistoryOf, hstate] at h
  obtain ⟨hreset, hmemTable, -, -, -, rxBuf, hannounced, hbits⟩ := h
  refine ⟨hsafe, fun _ => ?_⟩
  rw [HistoryOf, hstate']
  refine ⟨(noReset_append t u).mpr ⟨hreset, hu⟩, ?_, fun _ => ?_, hclosed, hopened, rxBuf, hannounced.append u, ?_⟩
  · rw [htable]
    exact List.mem_append_left u hmemTable
  · exact hmem.imp fun ev hev => ⟨List.mem_append_left u hev.1, hev.2⟩
  · rw [his64, hbits]

theorem OrderInv.waitEight (h : OrderInv cfg s t) (hresult : s.result = none) (hstate : s.state = .waitEight)
    (a : SaharaAnswers) : OrderInv cfg (s.waitEight cfg a).1 (t ++ (s.waitEight cfg a).2) := by
  have hall := h.history hresult
  have hhist := hall
  rw [HistoryOf, hstate] at hhist
  obtain ⟨hreset, htable, hread, hclosed, hopened, rxBuf, hannounced, his64⟩ := hhist
  rw [SaharaClient.waitEight]
  split
  · -- all entries are dumped
    split
    · exact OrderInv.sendReset h.safe hreset a
    · rw [List.append_nil]
      exact OrderInv.finished h.safe _
  · next e hentry =>
      have hmem : ∃ ev ∈ t, IsMemoryRead ev := by
        apply hread
        intro hnil
        rw [hnil] at hentry
        cases hentry
      split
      · next hcur =>
          rw [hcur] at hopened
          split
          · -- the file of the next entry
            refine OrderInv.dumpStep hall hstate hstate hmem rfl rfl (by simp [NoReset])
              (h.safe.snoc ⟨hopened, hclosed⟩) ?_ ?_
            · rw [closedEntries_append, hclosed]
              exact List.append_nil _
            · rw [openedEntries_append, hopened]
              exact List.range_succ.symm
          · rw [List.append_nil]
            exact OrderInv.finished h.safe _
      · next cur hcur =>
          rw [hcur] at hopened
          split
          · -- one round of the region loop
            next hlt =>
              obtain ⟨hsafe, hquiet⟩ := h.safe.regionBody (r := ⟨s.rxBuf, s.maxRamDumpRead, cur⟩) hreset hannounced
                hmem htable ⟨hopened, hclosed⟩ hentry hlt a
              rw [← his64] at hsafe hquiet
              cases hbody : regionBody s.i e s.ramDump64bit ⟨s.rxBuf, s.maxRamDumpRead, cur⟩ a with
              | mk r events =>
                  rw [hbody] at hsafe hquiet
                  cases r with
                  | none =>
                      -- the region fails, and its file is closed
                      dsimp only
                      rw [← List.append_assoc]
                      have hend : OrderSafe cfg (t ++ events ++ [.closed s.i]) := OrderSafe.snoc hsafe trivial
                      exact OrderInv.finished hend _
                  | some r =>
                      refine OrderInv.dumpStep hall hstate hstate hmem rfl rfl hquiet.noReset hsafe ?_ ?_
                      · rw [closedEntries_append, hclosed, hquiet.closed, List.append_nil]
                      · rw [openedEntries_append, hopened, hquiet.opened, List.append_nil]
                        rfl
          · -- the entry is dumped
            refine OrderInv.dumpStep hall hstate hstate hmem rfl rfl (by simp [NoReset])
              (h.safe.snoc trivial) ?_ ?_
            · rw [closedEntries_append, hclosed]
              exact List.range_succ.symm
            · rw [openedEntries_append, hopened]
              exact List.append_nil _

theorem OrderInv.waitThree (h : OrderInv cfg s t) (hstate : s.state = .waitThree) (a : SaharaAnswers) :
    OrderInv cfg (s.waitThree a).1 (t ++ (s.waitThree a).2) := by
  rw [SaharaClient.waitThree]
  split
  · refine ⟨h.safe.snoc trivial, fun _ => ?_⟩
    split
    · rw [HistoryOf, hstate]
      trivial
    · rw [HistoryOf, SaharaClient.finish, hstate]
      trivial
  · rw [List.append_nil]
    exact OrderInv.finished h.safe _

/-- Every step keeps the invariant. -/
theorem OrderInv.step (h : OrderInv cfg s t) (a : SaharaAnswers) :
    OrderInv cfg (s.step cfg a).1 (t ++ (s.step cfg a).2) := by
  rw [SaharaClient.step]
  split
  · rw [List.append_nil]
    exact h
  · next hresult =>
      split
      · next hstate =>
          have hnil := h.history hresult
          rw [HistoryOf, hstate] at hnil
          rw [hnil, List.nil_append]
          exact OrderInv.waitOne a
      · next hstate => exact h.waitTwo hresult hstate a
      · next hstate => exact h.waitThree hstate a
      · next hstate => exact h.waitSeven hresult hstate a
      · next hstate => exact h.waitEight hresult hstate a
      all_goals
        rw [List.append_nil]
        exact OrderInv.finished h.safe _

end Step

/-- **Order safety**: in every run of the client, against any device, everything it sends is allowed after what it
has sent and received before. -/
theorem sahara_orderSafe (cfg : SaharaConfig) (rxBuf : List UInt8) (maxRamDumpRead : Nat) (ramDump64bit : Bool)
    (answers : List SaharaAnswers) :
    OrderSafe cfg (SaharaClient.run cfg (.start rxBuf maxRamDumpRead ramDump64bit) answers).2 := by
  have hstart : OrderInv cfg (.start rxBuf maxRamDumpRead ramDump64bit) [] := ⟨eachAfter_nil, fun _ => rfl⟩
  have hstep : ∀ s t a, OrderInv cfg s t → OrderInv cfg (s.step cfg a).1 (t ++ (s.step cfg a).2) :=
    fun s t a h => h.step a
  have hrun := runSteps_history hstep answers hstart
  rw [List.nil_append] at hrun
  exact hrun.safe

end QLog
