import QLog.Asr.Version

/-! # What the version parser detects

On a log that is made up of whole packets the parser never loses the start of a packet, however the log is cut into
buffers: what it keeps from one pass to the next is an unfinished packet, or less than a header. So it meets the
packets one after the other, up to the record with which the version of the CP is known. -/

namespace QLog

open Library

/-! ## Packets of a log -/

/-- A packet as the modem sends it. -/
structure WellFormedPdu (pdu : List UInt8) : Prop where
  header : dbVerInfoSize ≤ pdu.length
  wPduLen : wPduLen pdu = pdu.length
  wDirInd : ofLeBytes (window pdu 2 4) = 0
  le : pdu.length ≤ if wSap pdu = 5 then 5328 else 7680

instance (pdu : List UInt8) : Decidable (WellFormedPdu pdu) :=
  decidable_of_iff (dbVerInfoSize ≤ pdu.length ∧ wPduLen pdu = pdu.length ∧ ofLeBytes (window pdu 2 4) = 0 ∧
      pdu.length ≤ if wSap pdu = 5 then 5328 else 7680)
    ⟨fun h => ⟨h.1, h.2.1, h.2.2.1, h.2.2.2⟩, fun h => ⟨h.header, h.wPduLen, h.wDirInd, h.le⟩⟩

/-- The parser takes it for a packet. -/
theorem WellFormedPdu.accepted {pdu : List UInt8} (h : WellFormedPdu pdu) : asrAccepted pdu = true := by
  have hpos : pdu.length ≠ 0 := Nat.ne_of_gt (Nat.lt_of_lt_of_le (by decide) h.header)
  have hle := h.le
  simp [asrAccepted, h.wPduLen, h.wDirInd, hpos, hle]

/-- The packet holds the version of the AP. -/
def isApVersion (pdu : List UInt8) : Bool := isDbVersion pdu && wSap pdu = 0x8001

/-- The packet holds a version of the CP that is not zero. -/
def isCpVersion (pdu : List UInt8) : Bool := isDbVersion pdu && wSap pdu = 0x01 && dbVersion pdu ≠ 0

/-- The last version of the AP in the packets. -/
def lastApVersion (pdus : List (List UInt8)) : Nat := (((pdus.filter isApVersion).getLast?).map dbVersion).getD 0

/-- The first version of the CP that is not zero. -/
def firstCpVersion (pdus : List (List UInt8)) : Nat := ((pdus.find? isCpVersion).map dbVersion).getD 0

/-- A run of calls that all return, each after at most so many passes. -/
def asrRun (passes : Nat) : AsrState → List (List UInt8) → Option AsrState
  | s, [] => some s
  | s, chunk :: chunks => (asrLogfileSave passes s chunk).bind fun s => asrRun passes s chunks

/-- The packets in front of a version of the CP. -/
theorem firstCpVersion_append {front : List (List UInt8)} {cp : List UInt8} (back : List (List UInt8))
    (hfront : ∀ pdu ∈ front, isCpVersion pdu = false) (hcp : isCpVersion cp = true) :
    firstCpVersion (front ++ cp :: back) = dbVersion cp ∧
      (front ++ cp :: back).takeWhile (fun pdu => !isCpVersion pdu) = front := by
  induction front with
  | nil => simp [firstCpVersion, hcp]
  | cons pdu front ih =>
      obtain ⟨hpdu, hfront⟩ := List.forall_mem_cons.mp hfront
      obtain ⟨hfirst, htake⟩ := ih hfront
      rw [List.cons_append, firstCpVersion, List.find?_cons, hpdu, List.takeWhile_cons, hpdu]
      exact ⟨hfirst, congrArg (pdu :: ·) htake⟩

/-- What a packet at the end changes. -/
theorem lastApVersion_append (front : List (List UInt8)) (pdu : List UInt8) :
    lastApVersion (front ++ [pdu]) = if isApVersion pdu then dbVersion pdu else lastApVersion front := by
  rw [lastApVersion, List.filter_append]
  by_cases hap : isApVersion pdu = true
  · simp [hap]
  · simp [hap, lastApVersion]

/-! ## The packet at the front of the buffer -/

/-- The walk stops here: less than a header is left, or a packet that is not complete. -/
def WaitsFor (pbuf : List UInt8) : Prop := pbuf.length ≤ dbVerInfoSize ∨ pbuf.length < wPduLen pbuf

section Front

variable {pdu pbuf more tail : List UInt8} {g : AsrVersions}

/-- The header in the buffer is that of the packet that starts there. -/
theorem front_header (hpdu : WellFormedPdu pdu) (hlen : dbVerInfoSize < pbuf.length)
    (hstream : pbuf ++ more = pdu ++ tail) : wPduLen pbuf = pdu.length ∧ asrAccepted pbuf = true := by
  obtain ⟨hsize, hsame⟩ := asrPacket_append more hlen.le
  obtain ⟨hsize', hsame'⟩ := asrPacket_append tail hpdu.header
  rw [hstream] at hsize hsame
  rw [← hsize, ← hsame, hsize', hsame']
  exact ⟨hpdu.wPduLen, hpdu.accepted⟩

/-- A packet that is complete stands at the front of the buffer. -/
theorem front_complete (hlen : pdu.length ≤ pbuf.length) (hstream : pbuf ++ more = pdu ++ tail) :
    ∃ rest, pbuf = pdu ++ rest ∧ rest ++ more = tail := by
  have hprefix : pbuf <+: pdu ++ tail := ⟨more, hstream⟩
  obtain ⟨rest, rfl, -⟩ := exists_of_prefix_append hprefix hlen
  refine ⟨rest, rfl, ?_⟩
  rw [List.append_assoc] at hstream
  exact List.append_cancel_left hstream

/-- What is stored of a packet does not depend on what stands behind it. -/
theorem store_append (hpdu : WellFormedPdu pdu) (rest : List UInt8) :
    g.store (pdu ++ rest) = g.store pdu ∧ g.found (pdu ++ rest) = g.found pdu := by
  obtain ⟨hdb, hfields⟩ := isDbVersion_append rest hpdu.header hpdu.wPduLen.le
  have hstore : g.store (pdu ++ rest) = g.store pdu := by
    rw [AsrVersions.store, AsrVersions.store, hdb]
    by_cases hrecord : isDbVersion pdu = true
    · rw [(hfields hrecord).1, (hfields hrecord).2]
    · rw [if_neg hrecord, if_neg hrecord]
  exact ⟨hstore, by rw [AsrVersions.found, AsrVersions.found, hstore, hdb]⟩

end Front

/-! ## One walk -/

/-- No version of the CP has been met in the packets `front`. -/
structure Searching (g : AsrVersions) (front : List (List UInt8)) : Prop where
  passed : ∀ pdu ∈ front, isCpVersion pdu = false
  cpVersion : g.cpVersion = 0
  apVersion : g.apVersion = lastApVersion front
  notDone : g.queryVersionDone = false

/-- The version of the CP has been found in `cp`, behind the packets `front`. -/
structure Detected (g : AsrVersions) (front : List (List UInt8)) (cp : List UInt8) : Prop where
  passed : ∀ pdu ∈ front, isCpVersion pdu = false
  isCp : isCpVersion cp = true
  cpVersion : g.cpVersion = dbVersion cp
  apVersion : g.apVersion = lastApVersion front
  done : g.queryVersionDone = true

section Walk

variable {g : AsrVersions} {front rest : List (List UInt8)} {pdu cp pbuf more : List UInt8}

theorem updateUETime_eq (g : AsrVersions) (pbuf : List UInt8) :
    ∃ t, g.updateUETime pbuf = { g with dwUETime := t } := by
  rw [AsrVersions.updateUETime]
  split
  · exact ⟨g.dwUETime, rfl⟩
  · exact ⟨_, rfl⟩

theorem Searching.updateUETime (h : Searching g front) (pbuf : List UInt8) :
    Searching (g.updateUETime pbuf) front := by
  obtain ⟨t, ht⟩ := updateUETime_eq g pbuf
  rw [ht]
  exact ⟨h.passed, h.cpVersion, h.apVersion, h.notDone⟩

theorem Detected.updateUETime (h : Detected g front cp) (pbuf : List UInt8) :
    Detected (g.updateUETime pbuf) front cp := by
  obtain ⟨t, ht⟩ := updateUETime_eq g pbuf
  rw [ht]
  exact ⟨h.passed, h.isCp, h.cpVersion, h.apVersion, h.done⟩

theorem apVersion_store : (g.store pdu).apVersion = if isApVersion pdu then dbVersion pdu else g.apVersion := by
  rw [AsrVersions.store, isApVersion]
  by_cases hdb : isDbVersion pdu = true
  · by_cases hap : wSap pdu = 0x8001
    · simp [hdb, hap]
    · by_cases hcp : wSap pdu = 0x01 <;> simp [hdb, hap, hcp]
  · simp [hdb]

theorem queryVersionDone_store : (g.store pdu).queryVersionDone = g.queryVersionDone := by
  rw [AsrVersions.store]
  split_ifs <;> rfl

/-- As long as no version of the CP is known, the walk stops at the first one that is not zero. -/
theorem Searching.found_iff (h : Searching g front) : g.found pdu = true ↔ isCpVersion pdu = true := by
  rw [AsrVersions.found, cpVersion_store, cpVersionAfter, h.cpVersion, isCpVersion]
  by_cases hcp : isDbVersion pdu = true ∧ wSap pdu = 0x01
  · simp [hcp.1, hcp.2]
  · rw [if_neg hcp]
    simpa using fun hdb hsap => absurd ⟨hdb, hsap⟩ hcp

/-- A packet that is walked over. -/
theorem Searching.store (h : Searching g front) (hpdu : isCpVersion pdu = false) :
    Searching (g.store pdu) (front ++ [pdu]) := by
  refine ⟨?_, ?_, ?_, ?_⟩
  · intro p hp
    rcases List.mem_append.mp hp with hp | hp
    · exact h.passed p hp
    · rw [List.mem_singleton.mp hp]
      exact hpdu
  · -- a record of the CP that is walked over has the version zero
    rw [cpVersion_store, cpVersionAfter, h.cpVersion]
    split
    · next hcp => simpa [isCpVersion, hcp.1, hcp.2] using hpdu
    · rfl
  · rw [apVersion_store, lastApVersion_append, h.apVersion]
  · rw [queryVersionDone_store]
    exact h.notDone

/-- The record at which the walk stops. -/
theorem Searching.detected (h : Searching g front) (hcp : isCpVersion cp = true) :
    Detected { g.store cp with queryVersionDone := true } front cp := by
  have hrecord : isDbVersion cp = true ∧ wSap cp = 0x01 ∧ dbVersion cp ≠ 0 := by
    simpa [isCpVersion, and_assoc] using hcp
  have hap : isApVersion cp = false := by simp [isApVersion, hrecord.2.1]
  refine ⟨h.passed, hcp, ?_, ?_, rfl⟩
  · show (g.store cp).cpVersion = dbVersion cp
    rw [cpVersion_store, cpVersionAfter, if_pos ⟨hrecord.1, hrecord.2.1⟩]
  · show (g.store cp).apVersion = lastApVersion front
    rw [apVersion_store, hap, h.apVersion]
    rfl

/-- The walk over a buffer that starts with a packet: it goes on behind the packet, stops at it or waits for it. -/
inductive WalkOutcome (front rest : List (List UInt8)) (more : List UInt8) (r : AsrVersions × List UInt8) : Prop
  | waits (front' rest' : List (List UInt8)) : front' ++ rest' = front ++ rest → Searching r.1 front' →
      r.2 ++ more = rest'.flatten → WaitsFor r.2 → WalkOutcome front rest more r
  | stops (front' back : List (List UInt8)) (cp : List UInt8) : front' ++ cp :: back = front ++ rest →
      Detected r.1 front' cp → cp <+: r.2 → WellFormedPdu cp → WalkOutcome front rest more r

/-- A walk that has gone on behind a packet. -/
theorem WalkOutcome.behind {pdu : List UInt8} {r : AsrVersions × List UInt8}
    (h : WalkOutcome (front ++ [pdu]) rest more r) : WalkOutcome front (pdu :: rest) more r := by
  have hsplit : front ++ [pdu] ++ rest = front ++ pdu :: rest := List.append_cons front pdu rest |>.symm
  cases h with
  | waits front' rest' hsame hg hstream hwaits =>
      exact WalkOutcome.waits front' rest' (hsame.trans hsplit) hg hstream hwaits
  | stops front' back cp hsame hg hcp hpdu =>
      exact WalkOutcome.stops front' back cp (hsame.trans hsplit) hg hcp hpdu

/-- **What a walk meets**: from the start of a packet on it meets packet after packet, up to the first version of the
CP or to the end of the buffer. -/
theorem asrWalk_outcome (rounds : Nat) (hrounds : pbuf.length ≤ rounds) (h : Searching g front)
    (hrest : ∀ pdu ∈ rest, WellFormedPdu pdu) (hstream : pbuf ++ more = rest.flatten) :
    WalkOutcome front rest more (asrWalk rounds g pbuf) := by
  induction rounds generalizing g front rest pbuf with
  | zero =>
      exact WalkOutcome.waits front rest rfl h hstream (Or.inl (hrounds.trans (Nat.zero_le _)))
  | succ rounds ih =>
      rw [asrWalk]
      split
      · next hshort => exact WalkOutcome.waits front rest rfl h hstream (Or.inl hshort)
      · next hlen =>
          rw [Nat.not_le] at hlen
          cases rest with
          | nil =>
              have hnil : pbuf = [] := (List.append_eq_nil_iff.mp hstream).1
              rw [hnil] at hlen
              exact absurd hlen (Nat.not_lt_zero _)
          | cons pdu rest =>
              obtain ⟨hpdu, hrest⟩ := List.forall_mem_cons.mp hrest
              rw [List.flatten_cons] at hstream
              obtain ⟨hsize, haccepted⟩ := front_header hpdu hlen hstream
              rw [if_neg (by rw [haccepted]; exact Bool.noConfusion), hsize]
              have hsearch := h.updateUETime pbuf
              generalize g.updateUETime pbuf = g at hsearch
              dsimp only
              split
              · next hwait =>
                  refine WalkOutcome.waits front (pdu :: rest) rfl hsearch hstream (Or.inr ?_)
                  show pbuf.length < wPduLen pbuf
                  rw [hsize]
                  exact hwait
              · next hfull =>
                  -- the whole packet is in the buffer
                  obtain ⟨behind, rfl, hbehind⟩ := front_complete (Nat.not_lt.mp hfull) hstream
                  obtain ⟨hstore, hfound⟩ := store_append (g := g) hpdu behind
                  rw [hstore, hfound]
                  split
                  · next hcp =>
                      exact WalkOutcome.stops front rest pdu rfl (hsearch.detected (hsearch.found_iff.mp hcp))
                        (List.prefix_append pdu behind) hpdu
                  · next hnot =>
                      have hover : isCpVersion pdu = false := by
                        rw [hsearch.found_iff, Bool.not_eq_true] at hnot
                        exact hnot
                      have hshorter : behind.length ≤ rounds := by
                        have hpos := hpdu.header
                        rw [dbVerInfoSize] at hpos
                        rw [List.length_append] at hrounds
                        omega
                      rw [List.drop_left]
                      exact (ih hshorter (hsearch.store hover) hrest hbehind).behind

/-- A walk from a version of the CP stops there once more. -/
theorem asrWalk_stops (rounds : Nat) (hpdu : WellFormedPdu cp) (hpbuf : cp <+: pbuf) (h : Detected g front cp)
    (hrounds : pbuf.length ≤ rounds) :
    Detected (asrWalk rounds g pbuf).1 front cp ∧ (asrWalk rounds g pbuf).2 = pbuf := by
  obtain ⟨behind, rfl⟩ := hpbuf
  have hrecord : isDbVersion cp = true ∧ wSap cp = 0x01 ∧ dbVersion cp ≠ 0 := by
    simpa [isCpVersion, and_assoc] using h.isCp
  have hsize : cp.length = 27 := by
    have hdb := hrecord.1
    rw [isDbVersion] at hdb
    simp only [Bool.and_eq_true, decide_eq_true_eq] at hdb
    rw [← hpdu.wPduLen, hdb.1.1.1.1]
  have hlen : dbVerInfoSize < (cp ++ behind).length := by
    rw [List.length_append, hsize, dbVerInfoSize]
    omega
  obtain ⟨hwPduLen, haccepted⟩ := front_header hpdu hlen (List.append_nil _)
  cases rounds with
  | zero =>
      rw [Nat.le_zero] at hrounds
      rw [hrounds] at hlen
      exact absurd hlen (Nat.not_lt_zero _)
  | succ rounds =>
      have hg := h.updateUETime (cp ++ behind)
      have hfull : ¬ (cp ++ behind).length < wPduLen (cp ++ behind) := by
        rw [hwPduLen, List.length_append]
        omega
      rw [asrWalk, if_neg (Nat.not_le.mpr hlen), if_neg (by rw [haccepted]; exact Bool.noConfusion)]
      generalize g.updateUETime (cp ++ behind) = g at hg
      obtain ⟨hstore, hfound⟩ := store_append (g := g) hpdu behind
      have hcp : (g.store cp).cpVersion = dbVersion cp := by
        rw [cpVersion_store, cpVersionAfter, if_pos ⟨hrecord.1, hrecord.2.1⟩]
      have hstops : g.found cp = true := by
        rw [AsrVersions.found, hcp, hrecord.1]
        simpa using hrecord.2.2
      have hap : (g.store cp).apVersion = g.apVersion := by
        rw [apVersion_store, isApVersion, hrecord.2.1]
        simp
      dsimp only
      rw [if_neg hfull, hfound, if_pos hstops, hstore]
      exact ⟨⟨hg.passed, hg.isCp, hcp, hap.trans hg.apVersion, rfl⟩, rfl⟩

end Walk

/-! ## Calls and runs -/

/-- What is known of the parser while the bytes `future` of the packets are still to come. -/
inductive DetectState (pdus : List (List UInt8)) (s : AsrState) (future : List UInt8) : Prop
  | searching (front rest : List (List UInt8)) : front ++ rest = pdus → Searching s.versions front →
      s.dataBuf ++ future = rest.flatten → WaitsFor s.dataBuf → DetectState pdus s future
  | detected (front back : List (List UInt8)) (cp : List UInt8) : front ++ cp :: back = pdus →
      Detected s.versions front cp → cp <+: s.dataBuf → WellFormedPdu cp → DetectState pdus s future

section Calls

variable {pdus : List (List UInt8)} {s s' : AsrState} {buf future : List UInt8}

theorem DetectState.asrPass (hpdus : ∀ pdu ∈ pdus, WellFormedPdu pdu) (h : DetectState pdus s (buf ++ future)) :
    DetectState pdus (asrPass s buf).1 ((asrPass s buf).2 ++ future) := by
  cases h with
  | searching front rest hsplit hsearch hstream hwaits =>
      have hrest : ∀ pdu ∈ rest, WellFormedPdu pdu := fun pdu hpdu =>
        hpdus pdu (hsplit ▸ List.mem_append_right front hpdu)
      -- what fits is put behind the buffer, the rest of the call comes later
      have hmem : s.dataBuf ++ buf.take (dataMax - s.dataBuf.length) ++
          (buf.drop (dataMax - s.dataBuf.length) ++ future) = rest.flatten := by
        rw [← hstream, List.append_assoc, ← List.append_assoc (buf.take _), List.take_append_drop]
      cases asrWalk_outcome _ (Nat.le_refl _) hsearch hrest hmem with
      | waits front' rest' hsplit' hsearch' hstream' hwaits' =>
          exact DetectState.searching front' rest' (hsplit'.trans hsplit) hsearch' hstream' hwaits'
      | stops front' back cp hsplit' hfound hcp hpdu =>
          exact DetectState.detected front' back cp (hsplit'.trans hsplit) hfound hcp hpdu
  | detected front back cp hsplit hfound hcp hpdu =>
      have hmem : cp <+: s.dataBuf ++ buf.take (dataMax - s.dataBuf.length) := hcp.trans (List.prefix_append _ _)
      obtain ⟨hfound', hbuf⟩ := asrWalk_stops _ hpdu hmem hfound (Nat.le_refl _)
      refine DetectState.detected front back cp hsplit hfound' ?_ hpdu
      show cp <+: (asrWalk _ _ _).2
      rw [hbuf]
      exact hmem

/-- A call that returns. -/
theorem DetectState.asrParserDbversion (hpdus : ∀ pdu ∈ pdus, WellFormedPdu pdu) (passes : Nat)
    (h : DetectState pdus s (buf ++ future)) (hcall : asrParserDbversion passes s buf = some s') :
    DetectState pdus s' future := by
  induction passes generalizing s buf with
  | zero => cases hcall
  | succ passes ih =>
      have hpass := h.asrPass hpdus
      rw [QLog.asrParserDbversion] at hcall
      split at hcall
      · next hlast =>
          rw [hlast, List.nil_append] at hpass
          rwa [← Option.some.inj hcall]
      · exact ih hpass hcall

theorem DetectState.asrLogfileSave (hpdus : ∀ pdu ∈ pdus, WellFormedPdu pdu) (passes : Nat)
    (h : DetectState pdus s (buf ++ future)) (hcall : asrLogfileSave passes s buf = some s') :
    DetectState pdus s' future := by
  rw [QLog.asrLogfileSave] at hcall
  split at hcall
  · next hnothing =>
      rw [← Option.some.inj hcall]
      cases h with
      | searching front rest hsplit hsearch hstream hwaits =>
          -- the version is not known yet, so the call has no bytes
          have hnil : buf = [] := hnothing.resolve_right (by rw [hsearch.notDone]; exact Bool.noConfusion)
          rw [hnil] at hstream
          exact DetectState.searching front rest hsplit hsearch hstream hwaits
      | detected front back cp hsplit hfound hcp hpdu =>
          exact DetectState.detected front back cp hsplit hfound hcp hpdu
  · exact h.asrParserDbversion hpdus passes hcall

theorem DetectState.asrRun (hpdus : ∀ pdu ∈ pdus, WellFormedPdu pdu) (passes : Nat) (chunks : List (List UInt8))
    (h : DetectState pdus s chunks.flatten) (hrun : asrRun passes s chunks = some s') : DetectState pdus s' [] := by
  induction chunks generalizing s with
  | nil =>
      rw [← Option.some.inj hrun]
      exact h
  | cons chunk chunks ih =>
      obtain ⟨s₁, hcall, hrest⟩ := Option.bind_eq_some_iff.mp hrun
      exact ih (h.asrLogfileSave hpdus passes hcall) hrest

/-- When all packets have come, a version of the CP has been found. -/
theorem DetectState.found (hpdus : ∀ pdu ∈ pdus, WellFormedPdu pdu) (hcp : ∃ pdu ∈ pdus, isCpVersion pdu = true)
    (h : DetectState pdus s []) :
    ∃ front cp back, front ++ cp :: back = pdus ∧ Detected s.versions front cp := by
  cases h with
  | detected front back cp hsplit hfound => exact ⟨front, cp, back, hsplit, hfound⟩
  | searching front rest hsplit hsearch hstream hwaits =>
      obtain ⟨cp, hmem, hcp⟩ := hcp
      rw [← hsplit] at hmem
      rcases List.mem_append.mp hmem with hmem | hmem
      · rw [hsearch.passed cp hmem] at hcp
        cases hcp
      · -- the packets that are left are in the buffer, and the first of them is complete
        cases rest with
        | nil => cases hmem
        | cons pdu rest =>
            have hpdu := hpdus pdu (hsplit ▸ List.mem_append_right front List.mem_cons_self)
            have hlen : pdu.length ≤ s.dataBuf.length := by
              rw [List.append_nil] at hstream
              rw [hstream, List.flatten_cons, List.length_append]
              exact Nat.le_add_right _ _
            have hsize : dbVerInfoSize < s.dataBuf.length := by
              have hrecord : cp.length = 27 := by
                have hcpdu := hpdus cp (hsplit ▸ List.mem_append_right front hmem)
                simp only [isCpVersion, isDbVersion, Bool.and_eq_true, decide_eq_true_eq] at hcp
                rw [← hcpdu.wPduLen, hcp.1.1.1.1.1.1]
              have hin : cp.length ≤ s.dataBuf.length := by
                rw [List.append_nil] at hstream
                rw [hstream]
                exact (List.sublist_flatten_of_mem hmem).length_le
              rw [dbVerInfoSize]
              omega
            obtain ⟨hwPduLen, -⟩ := front_header hpdu hsize hstream
            rcases hwaits with hshort | hwait
            · exact absurd hsize (Nat.not_lt.mpr hshort)
            · rw [hwPduLen] at hwait
              exact absurd hlen (Nat.not_le.mpr hwait)

end Calls

/-- **What the version parser detects**: on a log of whole packets, however it is cut into buffers, the first version
of the CP that is not zero and the last version of the AP in front of it. -/
theorem asrLogfileSave_detects (pdus chunks : List (List UInt8)) (passes : Nat) (s : AsrState)
    (hpdus : ∀ pdu ∈ pdus, WellFormedPdu pdu) (hcp : ∃ pdu ∈ pdus, isCpVersion pdu = true)
    (hchunks : chunks.flatten = pdus.flatten) (hrun : asrRun passes asrStart chunks = some s) :
    s.versions.cpVersion = firstCpVersion pdus ∧
      s.versions.apVersion = lastApVersion (pdus.takeWhile fun pdu => !isCpVersion pdu) ∧
      s.versions.queryVersionDone = true := by
  have hsearch : Searching asrStart.versions [] := ⟨by simp, rfl, rfl, rfl⟩
  have hstart : DetectState pdus asrStart chunks.flatten :=
    DetectState.searching [] pdus rfl hsearch hchunks (Or.inl (Nat.zero_le _))
  obtain ⟨front, cp, back, hsplit, hfound⟩ := (hstart.asrRun hpdus passes chunks hrun).found hpdus hcp
  obtain ⟨hfirst, htake⟩ := firstCpVersion_append back hfound.passed hfound.isCp
  rw [← hsplit, hfirst, htake]
  exact ⟨hfound.cpVersion, hfound.apVersion, hfound.done⟩

/-- The answers of the AP and of the CP, and a packet between them. -/
def versionPdus : List (List UInt8) :=
  [[0x1B, 0x00, 0x00, 0x00, 0x01, 0x80, 0x00, 0x00, 0xFF, 0xFF, 0x00, 0x00, 0x19, 0x11, 0x06, 0x00,
      0x30, 0x78, 0x36, 0x36, 0x30, 0x63, 0x65, 0x39, 0x38, 0x64, 0x00],
    [0x12, 0x00, 0x00, 0x00, 0x05, 0x00, 0x00, 0x00, 0x19, 0x11, 0x06, 0x00, 0x00, 0x00, 0x00, 0x00, 0x1B, 0x00],
    cpVersionRecord]

/-- The packets in two buffers, cut in the packet between. -/
def versionChunks : List (List UInt8) := [versionPdus.flatten.take 30, versionPdus.flatten.drop 30]

theorem asrLogfileSave_detects_bothVersions :
    ((asrRun 1 asrStart versionChunks).get (by decide)).versions.cpVersion = 0x100b ∧
      ((asrRun 1 asrStart versionChunks).get (by decide)).versions.apVersion = 0x660ce98d ∧
      ((asrRun 1 asrStart versionChunks).get (by decide)).versions.queryVersionDone = true := by
  have hdetects := asrLogfileSave_detects versionPdus versionChunks 1 _ (by decide) ⟨cpVersionRecord, by decide⟩
    (by decide) (Option.some_get (by decide)).symm
  exact ⟨hdetects.1.trans (by decide), hdetects.2.1.trans (by decide), hdetects.2.2⟩

end QLog
