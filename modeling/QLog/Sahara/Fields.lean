import QLog.Sahara.Client

/-! # The fields of received packets

`sahara_rx_data` reads as many bytes as a packet announces itself, and the client picks the fields of a packet by its
command. Nothing relates the two: where the packet is shorter than its command demands, the fields behind its end are
what earlier packets have left in `q_rx_buf`. -/

namespace QLog

open Library

/-! ## What is used of a packet -/

/-- `q_ver` and `q_ver_sup` of a hello. -/
def helloVer (rxBuf : List UInt8) : Nat := ofLeBytes (window rxBuf 8 12)

def helloVerSup (rxBuf : List UInt8) : Nat := ofLeBytes (window rxBuf 12 16)

/-- The packet of `send_hello_response`. -/
def helloResponse (rxBuf : List UInt8) : List UInt8 :=
  [0x02, 48, helloVer rxBuf, helloVerSup rxBuf, 0x00, helloMode rxBuf, 1, 2, 3, 4, 5, 6].flatMap (leBytes 4)

/-- Where the fields are that a state of the client uses of a packet. -/
def usedFields (state : QSaharaState) (rxBuf : List UInt8) : List (Nat × Nat) :=
  if state = .waitOne ∧ qCmd rxBuf = 0x01 then [(8, 12), (12, 16), (20, 24)]
  else if state = .waitTwo ∧ qCmd rxBuf = 0x10 then [(8, 16), (16, 24)]
  else if state = .waitTwo ∧ qCmd rxBuf = 0x09 then [(8, 12), (12, 16)]
  else []

/-- What the client takes from a packet is in these fields. -/
theorem used_of_fields {rxBuf rxBuf' : List UInt8} (hcmd : qCmd rxBuf = qCmd rxBuf') :
    ((∀ field ∈ usedFields .waitOne rxBuf, window rxBuf field.1 field.2 = window rxBuf' field.1 field.2) →
      qCmd rxBuf = 0x01 → helloResponse rxBuf = helloResponse rxBuf' ∧ helloMode rxBuf = helloMode rxBuf') ∧
    ((∀ field ∈ usedFields .waitTwo rxBuf, window rxBuf field.1 field.2 = window rxBuf' field.1 field.2) →
      qCmd rxBuf = 0x09 ∨ qCmd rxBuf = 0x10 →
        announcedAddr rxBuf = announcedAddr rxBuf' ∧ announcedLength rxBuf = announcedLength rxBuf') := by
  refine ⟨fun hfields hhello => ?_, fun hfields htable => ?_⟩
  · rw [usedFields, if_pos ⟨rfl, hhello⟩] at hfields
    have hver : helloVer rxBuf = helloVer rxBuf' := congrArg ofLeBytes (hfields (8, 12) (by simp))
    have hsup : helloVerSup rxBuf = helloVerSup rxBuf' := congrArg ofLeBytes (hfields (12, 16) (by simp))
    have hmode : helloMode rxBuf = helloMode rxBuf' := congrArg ofLeBytes (hfields (20, 24) (by simp))
    exact ⟨by rw [helloResponse, helloResponse, hver, hsup, hmode], hmode⟩
  · rw [announcedAddr, announcedAddr, announcedLength, announcedLength, announces64bit, announces64bit, ← hcmd]
    rcases htable with hnine | hsixteen
    · rw [usedFields, hnine, if_neg (by decide), if_neg (by decide), if_pos (by decide)] at hfields
      rw [hnine]
      exact ⟨congrArg ofLeBytes (hfields (8, 12) (by simp)), congrArg ofLeBytes (hfields (12, 16) (by simp))⟩
    · rw [usedFields, hsixteen, if_neg (by decide), if_pos (by decide)] at hfields
      rw [hsixteen]
      exact ⟨congrArg ofLeBytes (hfields (8, 16) (by simp)), congrArg ofLeBytes (hfields (16, 24) (by simp))⟩

/-! ## What is received -/

/-- The packet that has just been received: the header and the bytes that it announces, as the port has delivered them,
at the front of the buffer. -/
def IsPacket (answers : PortAnswers) (rxBuf packet : List UInt8) : Prop :=
  packet <+: rxBuf ∧ packet.length = qLen rxBuf ∧ ∃ header rest bytes, packet = header ++ bytes ∧
    portRxData 8 answers = (some header, rest) ∧ (portRxData (packet.length - 8) rest).1 = some bytes

/-- Two headers of the same length follow each other in the same place. -/
theorem overwrite_header {rxBuf header : List UInt8} (h : header.length = 8) :
    overwrite (overwrite rxBuf 0 (List.replicate 8 0)) 0 header = header ++ rxBuf.drop 8 := by
  rw [overwrite_zero, overwrite_zero, h, List.length_replicate, List.drop_left' (List.length_replicate ..)]

/-- A receive that succeeds has received a packet. -/
theorem exists_isPacket {rxBuf rxBuf' : List UInt8} {answers : PortAnswers}
    (h : saharaRxPacket rxBuf answers = (true, rxBuf')) : ∃ packet, IsPacket answers rxBuf' packet := by
  rw [saharaRxPacket] at h
  cases hport : portRxData 8 answers with
  | mk header rest =>
      rw [hport] at h
      cases header with
      | none => cases h
      | some header =>
          dsimp only at h
          split at h
          · cases h
          · next hheader =>
              rw [not_not] at hheader
              rw [overwrite_header hheader] at h
              split at h
              · split at h
                · cases h
                · next bytes hbytes =>
                    obtain ⟨hall, hbuf⟩ := Prod.mk.inj h
                    have hcount := of_decide_eq_true hall
                    have hmost := portRxData_length hbytes
                    -- a length below that of the header is more than the port reads at once
                    have hlen : qLen (header ++ rxBuf.drop 8) = bytes.length + 8 := by
                      have hlt : qLen (header ++ rxBuf.drop 8) < 2 ^ 32 := ofLeBytes_lt _ (length_window_le _ 4 8)
                      rw [maxToRead] at hmost
                      omega
                    have hbuf' : rxBuf' = header ++ bytes ++ (rxBuf.drop 8).drop bytes.length := by
                      rw [← hbuf, ← hheader, overwrite_append]
                    have hfield : qLen rxBuf' = qLen (header ++ rxBuf.drop 8) := by
                      rw [qLen, qLen, hbuf', List.append_assoc, window_append_left _ (Nat.le_of_eq hheader.symm),
                        window_append_left _ (Nat.le_of_eq hheader.symm)]
                    have hpacket : (header ++ bytes).length = bytes.length + 8 := by
                      rw [List.length_append, hheader, Nat.add_comm]
                    refine ⟨header ++ bytes, ⟨_, hbuf'.symm⟩, ?_, header, rest, bytes, rfl, hport, ?_⟩
                    · rw [hfield, hlen, hpacket]
                    · rw [hpacket, Nat.add_sub_cancel, hcount]
                      exact hbytes
              · cases h

/-! ## What the client acts on -/

/-- Every field that a step uses of a packet lies within the packet just received. -/
def ActsOnReceived (cfg : SaharaConfig) (s : SaharaClient) (a : SaharaAnswers) : Prop :=
  ∀ rxBuf, .received rxBuf ∈ (s.step cfg a).2 →
    ∃ packet, (IsPacket a.rx rxBuf packet ∨ IsPacket a.rxAgain rxBuf packet) ∧
      ∀ field ∈ usedFields s.state rxBuf, field.2 ≤ packet.length

/-- A packet that a step receives is as long as its command demands: a hello that is awaited, and the announcement of a
table with 32-bit or 64-bit fields. -/
def LongEnough (cfg : SaharaConfig) (s : SaharaClient) (a : SaharaAnswers) : Prop :=
  ∀ rxBuf, .received rxBuf ∈ (s.step cfg a).2 →
    (s.state = .waitOne ∧ qCmd rxBuf = 0x01 → 24 ≤ qLen rxBuf) ∧
      (s.state = .waitTwo ∧ qCmd rxBuf = 0x09 → 16 ≤ qLen rxBuf) ∧
      (s.state = .waitTwo ∧ qCmd rxBuf = 0x10 → 24 ≤ qLen rxBuf)

namespace SaharaClient

/-- Sending receives nothing. -/
theorem not_received_sendReset (s : SaharaClient) (a : SaharaAnswers) (rxBuf : List UInt8) :
    .received rxBuf ∉ (s.sendReset a).2 := by
  simp [sendReset]

theorem not_received_greet (cfg : SaharaConfig) (s : SaharaClient) (a : SaharaAnswers) (rxBuf : List UInt8) :
    .received rxBuf ∉ (greet cfg s a).2 := by
  rw [greet]
  split
  · exact not_received_sendReset s a rxBuf
  · split <;> simp

theorem not_received_announced (s : SaharaClient) (a : SaharaAnswers) (rxBuf : List UInt8) :
    .received rxBuf ∉ (s.announced a).2 := by
  rw [announced]
  dsimp only
  split
  · exact not_received_sendReset _ a rxBuf
  · split <;> simp [sendMemoryReadPacket]

theorem not_received_regionBody (i : Nat) (e : DebugType) (is64 : Bool) (r : Region) (a : SaharaAnswers)
    (rxBuf : List UInt8) : .received rxBuf ∉ (regionBody i e is64 r a).2 := by
  rw [regionBody]
  dsimp only
  split
  · simp [sendMemoryReadPacket]
  · split
    · split <;> simp [sendMemoryReadPacket]
    · split <;> simp [sendMemoryReadPacket]

theorem not_received_waitEight (cfg : SaharaConfig) (s : SaharaClient) (a : SaharaAnswers) (rxBuf : List UInt8) :
    .received rxBuf ∉ (waitEight cfg s a).2 := by
  rw [waitEight]
  split
  · split
    · exact not_received_sendReset s a rxBuf
    · simp
  · next e _ =>
      split
      · split <;> simp
      · next cur _ =>
          split
          · have hbody := not_received_regionBody s.i e s.ramDump64bit ⟨s.rxBuf, s.maxRamDumpRead, cur⟩ a rxBuf
            split
            · next events hregion =>
                rw [hregion] at hbody
                simpa using hbody
            · next r events hregion =>
                rw [hregion] at hbody
                exact hbody
          · simp

theorem not_received_waitSeven (s : SaharaClient) (a : SaharaAnswers) (rxBuf : List UInt8) :
    .received rxBuf ∉ (waitSeven s a).2 := by
  rw [waitSeven]
  split
  · simp
  · split
    · exact List.not_mem_nil
    · split
      · exact List.not_mem_nil
      · simp

/-- The device may be woken up between two receives. -/
theorem saharaRxPacket_of_waitOne {cfg : SaharaConfig} {s : SaharaClient} {a : SaharaAnswers} {rxBuf : List UInt8}
    (h : .received rxBuf ∈ (waitOne cfg s a).2) :
    saharaRxPacket s.rxBuf a.rx = (true, rxBuf) ∨
      saharaRxPacket (saharaRxPacket s.rxBuf a.rx).2 a.rxAgain = (true, rxBuf) := by
  rw [waitOne] at h
  dsimp only at h
  split at h
  · next hfirst =>
      rw [prepend_snd, List.mem_append] at h
      rcases h with h | h
      · have hbuf : rxBuf = (saharaRxPacket s.rxBuf a.rx).2 := by simpa using h
        exact Or.inl (Prod.ext hfirst hbuf.symm)
      · exact absurd h (not_received_greet _ _ _ _)
  · split at h
    · simp at h
    · split at h
      · next hagain =>
          rw [prepend_snd, List.mem_append] at h
          rcases h with h | h
          · have hbuf : rxBuf = (saharaRxPacket (saharaRxPacket s.rxBuf a.rx).2 a.rxAgain).2 := by simpa using h
            exact Or.inr (Prod.ext hagain hbuf.symm)
          · exact absurd h (not_received_greet _ _ _ _)
      · simp at h

theorem saharaRxPacket_of_waitTwo {s : SaharaClient} {a : SaharaAnswers} {rxBuf : List UInt8}
    (h : .received rxBuf ∈ (waitTwo s a).2) : saharaRxPacket s.rxBuf a.rx = (true, rxBuf) := by
  rw [waitTwo] at h
  split at h
  · cases h
  · next hrx =>
      rw [Bool.not_eq_false] at hrx
      rw [prepend_snd, List.mem_append] at h
      rcases h with h | h
      · have hbuf : rxBuf = (saharaRxPacket s.rxBuf a.rx).2 := by simpa using h
        exact Prod.ext hrx hbuf.symm
      · split at h
        · exact absurd h (not_received_announced _ _ _)
        · split at h
          · cases h
          · exact absurd h (not_received_sendReset _ _ _)

theorem saharaRxPacket_of_waitThree {s : SaharaClient} {a : SaharaAnswers} {rxBuf : List UInt8}
    (h : .received rxBuf ∈ (waitThree s a).2) : saharaRxPacket s.rxBuf a.rx = (true, rxBuf) := by
  rw [waitThree] at h
  split at h
  · next hrx =>
      have hbuf : rxBuf = (saharaRxPacket s.rxBuf a.rx).2 := by simpa using h
      exact Prod.ext hrx hbuf.symm
  · cases h

/-- A packet of a step has been received by its first receive, or by the second one after waking up the device. -/
theorem saharaRxPacket_of_received {cfg : SaharaConfig} {s : SaharaClient} {a : SaharaAnswers} {rxBuf : List UInt8}
    (h : .received rxBuf ∈ (s.step cfg a).2) :
    saharaRxPacket s.rxBuf a.rx = (true, rxBuf) ∨
      saharaRxPacket (saharaRxPacket s.rxBuf a.rx).2 a.rxAgain = (true, rxBuf) := by
  rw [step] at h
  cases hresult : s.result with
  | some r =>
      rw [hresult] at h
      cases h
  | none =>
      rw [hresult] at h
      cases hstate : s.state <;> rw [hstate] at h
      case waitOne => exact saharaRxPacket_of_waitOne h
      case waitTwo => exact Or.inl (saharaRxPacket_of_waitTwo h)
      case waitThree => exact Or.inl (saharaRxPacket_of_waitThree h)
      case waitSeven => exact absurd h (not_received_waitSeven _ _ _)
      case waitEight => exact absurd h (not_received_waitEight _ _ _ _)
      -- in the other states nothing is received
      case waitFour => cases h
      case waitFive => cases h
      case waitSix => cases h

/-- The first packet. -/
theorem received_of_waitOne {cfg : SaharaConfig} {s : SaharaClient} {a : SaharaAnswers} (hresult : s.result = none)
    (hstate : s.state = .waitOne) (hrx : (saharaRxPacket s.rxBuf a.rx).1 = true) :
    .received (saharaRxPacket s.rxBuf a.rx).2 ∈ (s.step cfg a).2 := by
  rw [step, hresult, hstate]
  dsimp only
  rw [waitOne]
  dsimp only
  rw [if_pos hrx, prepend_snd]
  exact List.mem_append_left _ (List.mem_cons_of_mem _ List.mem_cons_self)

/-- A packet that a step receives is really there. -/
theorem exists_packet_of_received {cfg : SaharaConfig} {s : SaharaClient} {a : SaharaAnswers} {rxBuf : List UInt8}
    (h : .received rxBuf ∈ (s.step cfg a).2) :
    ∃ packet, IsPacket a.rx rxBuf packet ∨ IsPacket a.rxAgain rxBuf packet := by
  rcases saharaRxPacket_of_received h with hfirst | hagain
  · obtain ⟨packet, hpacket⟩ := exists_isPacket hfirst
    exact ⟨packet, Or.inl hpacket⟩
  · obtain ⟨packet, hpacket⟩ := exists_isPacket hagain
    exact ⟨packet, Or.inr hpacket⟩

end SaharaClient

/-- The fields of a command lie within a length exactly if it is as long as the command demands. -/
theorem usedFields_le_iff (state : QSaharaState) (rxBuf : List UInt8) (n : Nat) :
    (∀ field ∈ usedFields state rxBuf, field.2 ≤ n) ↔
      (state = .waitOne ∧ qCmd rxBuf = 0x01 → 24 ≤ n) ∧ (state = .waitTwo ∧ qCmd rxBuf = 0x09 → 16 ≤ n) ∧
        (state = .waitTwo ∧ qCmd rxBuf = 0x10 → 24 ≤ n) := by
  rw [usedFields]
  split
  · next hhello =>
      obtain ⟨rfl, hcmd⟩ := hhello
      simp only [List.forall_mem_cons, hcmd]
      simp
      omega
  · next hhello =>
      split
      · next hsixteen =>
          obtain ⟨rfl, hcmd⟩ := hsixteen
          simp only [List.forall_mem_cons, hcmd]
          simp
          omega
      · next hsixteen =>
          split
          · next hnine =>
              obtain ⟨rfl, hcmd⟩ := hnine
              simp only [List.forall_mem_cons, hcmd]
              simp
              omega
          · next hnine =>
              refine iff_of_true (List.forall_mem_nil _) ⟨fun h => ?_, fun h => ?_, fun h => ?_⟩
              · exact absurd h hhello
              · exact absurd h hnine
              · exact absurd h hsixteen

theorem actsOnReceived_iff_longEnough (cfg : SaharaConfig) (s : SaharaClient) (a : SaharaAnswers) :
    ActsOnReceived cfg s a ↔ LongEnough cfg s a := by
  refine forall_congr' fun rxBuf => imp_congr_right fun hreceived => ?_
  rw [← usedFields_le_iff]
  have hlength : ∀ {packet}, IsPacket a.rx rxBuf packet ∨ IsPacket a.rxAgain rxBuf packet →
      packet.length = qLen rxBuf := by
    rintro packet (h | h)
    · exact h.2.1
    · exact h.2.1
  constructor
  · rintro ⟨packet, hpacket, hfields⟩
    rwa [hlength hpacket] at hfields
  · intro hfields
    obtain ⟨packet, hpacket⟩ := SaharaClient.exists_packet_of_received hreceived
    refine ⟨packet, hpacket, ?_⟩
    rwa [hlength hpacket]

/-- **When the client acts only on received fields**: exactly if, in the whole run, every hello that is awaited has a
length of at least 24 bytes, and every announcement of a table one of at least 16 bytes, with 64-bit fields 24. -/
theorem actsOnReceived_iff (cfg : SaharaConfig) (rxBuf : List UInt8) (maxRamDumpRead : Nat) (ramDump64bit : Bool)
    (answers : List SaharaAnswers) :
    Along (SaharaClient.step cfg) (ActsOnReceived cfg) (.start rxBuf maxRamDumpRead ramDump64bit) answers ↔
      Along (SaharaClient.step cfg) (LongEnough cfg) (.start rxBuf maxRamDumpRead ramDump64bit) answers := by
  constructor
  · exact along_mono _ (fun s a => (actsOnReceived_iff_longEnough cfg s a).mp) _ _
  · exact along_mono _ (fun s a => (actsOnReceived_iff_longEnough cfg s a).mpr) _ _

/-- The port delivers a hello of eight bytes, and nothing more. -/
def shortHello : SaharaAnswers where
  rx := [some [0x01, 0, 0, 0, 8, 0, 0, 0]]
  rxAgain := []
  tx := true
  wakeUp := true
  created := true
  save := 0

/-- Its mode is what has been in the buffer before. -/
theorem not_actsOnReceived :
    ¬ ∀ (cfg : SaharaConfig) (rxBuf : List UInt8) (maxRamDumpRead : Nat) (ramDump64bit : Bool)
      (answers : List SaharaAnswers), rxBuf.length = qSaharaRawBufSz →
        Along (SaharaClient.step cfg) (ActsOnReceived cfg) (.start rxBuf maxRamDumpRead ramDump64bit) answers := by
  intro h
  have hacts := (h ⟨2, false⟩ (List.replicate qSaharaRawBufSz 2) qSaharaRawBufSz false [shortHello]
    (List.length_replicate ..)).1
  have hfirst : (saharaRxPacket (List.replicate qSaharaRawBufSz 2) shortHello.rx).1 = true := by decide +kernel
  obtain ⟨packet, hpacket, hfields⟩ := hacts _ (SaharaClient.received_of_waitOne rfl rfl hfirst)
  have hlength : packet.length = 8 := by
    have hlen : qLen (saharaRxPacket (List.replicate qSaharaRawBufSz 2) shortHello.rx).2 = 8 := by decide +kernel
    rcases hpacket with hpacket | hpacket
    · exact hpacket.2.1.trans hlen
    · exact hpacket.2.1.trans hlen
  have hused : (20, 24) ∈ usedFields .waitOne (saharaRxPacket (List.replicate qSaharaRawBufSz 2) shortHello.rx).2 := by
    decide +kernel
  have hle := hfields _ hused
  rw [hlength] at hle
  exact absurd hle (by decide)

end QLog
