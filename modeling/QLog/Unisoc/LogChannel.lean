import QLog.Library.ByteBuffer
import QLog.Library.LittleEndian
import QLog.Library.Transducer

/-! # The Unisoc log channel

The log channel carries SMP packets: a start flag, a header of eight bytes with a checksum, and data.
`unisoc_proc_log_buf` keeps what is left of one read for the next, and hands the data of each packet to
`WriteDataToFile`, which writes the length of the record over the four bytes before the data, that is over the
end of the header just parsed.

Packets are found by length, not by searching the flag, so flags inside the data do no harm. -/

namespace QLog

open Library

/-- `agStartFlag` -/
def agStartFlag : List UInt8 := [0x7E, 0x7E, 0x7E, 0x7E]

/-- `SMP_START_LEN` -/
def smpStartLen : Nat := 4

/-- `SMP_HDR_LEN`, the size of an `SMP_HEADER`. -/
def smpHdrLen : Nat := 8

/-- `unisoc_log_max` -/
def unisocLogMax : Nat := 24 * 1024

/-- The sum of `frm_chk` over the 16-bit values of the source. -/
def frmSum (bigEndian : Bool) : List UInt8 → Nat
  | lo :: hi :: src =>
      (if bigEndian then hi.toNat + 256 * lo.toNat else lo.toNat + 256 * hi.toNat) + frmSum bigEndian src
  | [b] => b.toNat
  | [] => 0

/-- `frm_chk` -/
def frmChk (src : List UInt8) (bigEndian : Bool) : Nat :=
  let sum := frmSum bigEndian src % 2 ^ 32
  let sum := sum / 2 ^ 16 + sum % 2 ^ 16
  let sum := sum + sum / 2 ^ 16
  0xFFFF - sum % 2 ^ 16

/-- `CheckHeader` -/
def checkHeader (header : List UInt8) : Bool := frmChk header false = 0

/-- `SMP_HEADER`, read from its bytes. -/
structure SmpHeader where
  len : Nat
  lcn : UInt8
  packetType : UInt8
  reserved : Nat

/-- The fields of a header in memory. -/
def smpHeader (header : List UInt8) : SmpHeader where
  len := ofLeBytes (window header 0 2)
  lcn := header.getD 2 0
  packetType := header.getD 3 0
  reserved := ofLeBytes (window header 4 6)

/-- The four checks a header has to pass. -/
def headerAccepted (header : List UInt8) : Bool :=
  checkHeader header && (smpHeader header).lcn == 0
    && ((smpHeader header).packetType == 0 || (smpHeader header).packetType == 0xF8)
    && (smpHeader header).reserved == 0x5A5A

/-- `WriteDataToFile` for `dwDataSize` bytes at the offset `off` of a buffer, with `header` bytes before them
that may be overwritten: the buffer afterwards, and the buffers saved to the file. -/
def writeDataToFile (mem : List UInt8) (off dwDataSize header : Nat) : List UInt8 × List (List UInt8) :=
  if 4 ≤ header then
    let mem := overwrite mem (off - 4) (leBytes 4 dwDataSize)
    -- `dwDataSize += 4`, as a `DWORD`
    (mem, [window mem (off - 4) (off - 4 + (dwDataSize + 4) % 2 ^ 32)])
  else (mem, [leBytes 4 dwDataSize, window mem off (off + dwDataSize)])

/-- The `while` loop of `unisoc_proc_log_buf`: the bytes of the buffer and `cur` at its end, and what was saved.
`cur` grows in every round, so as many rounds as the buffer has bytes are enough. A length below that of the
header would wrap around as a `DWORD`. -/
def procLogLoop : Nat → List UInt8 → Nat → (List UInt8 × Nat) × List (List UInt8)
  | 0, mem, cur => ((mem, cur), [])
  | rounds + 1, mem, cur =>
      if mem.length ≤ cur then ((mem, cur), [])
      else if mem.length < cur + smpStartLen + smpHdrLen then ((mem, cur), [])
      else if window mem cur (cur + smpStartLen) ≠ agStartFlag then
        -- out of step: the flag is searched byte by byte
        if cur + 1 = mem.length then ((mem, cur), []) else procLogLoop rounds mem (cur + 1)
      else
        let header := window mem (cur + smpStartLen) (cur + smpStartLen + smpHdrLen)
        if headerAccepted header = false then procLogLoop rounds mem (cur + 1)
        else
          let pktLen := (smpHeader header).len
          -- wait for more data
          if mem.length < cur + smpStartLen + pktLen then ((mem, cur), [])
          else
            let w := writeDataToFile mem (cur + smpStartLen + smpHdrLen)
              ((pktLen + 2 ^ 32 - smpHdrLen) % 2 ^ 32) smpHdrLen
            prepend w.2 (procLogLoop rounds w.1 (cur + smpStartLen + pktLen))

/-- `unisoc_proc_log_buf`, from the bytes left in `unisoc_log_buf`. -/
def unisocProcLogBuf (logBuf inBuf : List UInt8) : List UInt8 × List (List UInt8) :=
  if logBuf ≠ [] ∧ unisocLogMax < logBuf.length + inBuf.length then (logBuf, [])
  else
    let mem := logBuf ++ inBuf
    let r := procLogLoop (mem.length + 1) mem 0
    -- `memmove` from `lpBuf`, which is at `cur` wherever bytes are left
    (r.1.1.drop r.1.2, r.2)

/-! ## Packets -/

/-- A packet that the parser accepts: the header agrees with the data. -/
structure SmpPacket where
  header : Block 8
  data : List UInt8
  accepted : headerAccepted header.val = true
  len : (smpHeader header.val).len = data.length + 8
  le_max : data.length + 8 ≤ 2028

namespace SmpPacket

/-- The packet on the channel. -/
def bytes (p : SmpPacket) : List UInt8 := agStartFlag ++ p.header.val ++ p.data

theorem length_bytes (p : SmpPacket) : p.bytes.length = p.data.length + 12 := by
  rw [bytes, List.length_append, List.length_append, p.header.property]
  show 4 + 8 + p.data.length = p.data.length + 12
  omega

end SmpPacket

/-- A record of the log file: its length and its data. -/
def logRecord (data : List UInt8) : List UInt8 := leBytes 4 data.length ++ data

/-! ## One record -/

section Write

variable {mem : List UInt8} {off n header : Nat} (hoff : 4 ≤ off) (hend : off + n ≤ mem.length)
  (hheader : 4 ≤ header)

include hoff hend hheader

/-- With room before the data the record is saved in one piece. -/
theorem writeDataToFile_saved (hsize : n + 4 < 2 ^ 32) :
    (writeDataToFile mem off n header).2 = [leBytes 4 n ++ window mem off (off + n)] := by
  have hlen : (leBytes 4 n).length = 4 := length_leBytes 4 n
  have hback : off - 4 + (leBytes 4 n).length = off := by omega
  have hprefix := window_overwrite_self mem (leBytes 4 n) (show off - 4 ≤ mem.length by omega)
  rw [hback] at hprefix
  have hdata : window (overwrite mem (off - 4) (leBytes 4 n)) off (off + n) = window mem off (off + n) := by
    have hdrop := drop_overwrite mem (leBytes 4 n) (show off - 4 + (leBytes 4 n).length ≤ off by omega)
      (show off - 4 ≤ mem.length by omega)
    rw [window, window, List.drop_take, List.drop_take, hdrop]
  have hbehind : off - 4 + (n + 4) = off + n := by omega
  rw [writeDataToFile, if_pos hheader]
  dsimp only
  rw [Nat.mod_eq_of_lt hsize, hbehind, ← window_append _ (show off - 4 ≤ off by omega) (Nat.le_add_right off n),
    hprefix, hdata]

/-- What lies behind the start of the data is not changed, nor is the length. -/
theorem writeDataToFile_mem :
    (writeDataToFile mem off n header).1.length = mem.length ∧
      ∀ k, off ≤ k → (writeDataToFile mem off n header).1.drop k = mem.drop k := by
  have hlen : (leBytes 4 n).length = 4 := length_leBytes 4 n
  rw [writeDataToFile, if_pos hheader]
  refine ⟨length_overwrite _ _ (by omega), fun k hk => ?_⟩
  exact drop_overwrite _ _ (by omega) (by omega)

end Write

/-! ## One round -/

theorem length_flag_header (header : Block 8) : (agStartFlag ++ header.val).length = 12 := by
  rw [List.length_append, header.property]
  rfl

section Round

variable {mem t : List UInt8} {cur : Nat} {header : Block 8}

/-- Less than a flag and a header: the loop waits. -/
theorem procLogLoop_short (rounds : Nat) (h : mem.length < cur + 12) :
    procLogLoop (rounds + 1) mem cur = ((mem, cur), []) := by
  rw [procLogLoop]
  split
  · rfl
  · rw [if_pos (show mem.length < cur + smpStartLen + smpHdrLen from h)]

variable (h : mem.drop cur = agStartFlag ++ header.val ++ t)
  (haccepted : headerAccepted header.val = true)

include h

theorem length_of_drop : mem.length = cur + 12 + t.length := by
  have hlen := congrArg List.length h
  rw [List.length_drop, List.length_append, length_flag_header] at hlen
  omega

theorem window_flag : window mem cur (cur + smpStartLen) = agStartFlag := by
  have hflag : mem.drop cur = [] ++ agStartFlag ++ (header.val ++ t) := by
    rw [h, List.append_assoc]
    rfl
  exact window_of_drop_eq hflag

theorem window_header :
    window mem (cur + smpStartLen) (cur + smpStartLen + smpHdrLen) = header.val := by
  have hwin := window_of_drop_eq h
  rwa [header.property] at hwin

include haccepted

/-- The rounds of an accepted header: the loop waits for the data, or saves it. -/
theorem procLogLoop_header (rounds : Nat) :
    procLogLoop (rounds + 1) mem cur
      = if mem.length < cur + smpStartLen + (smpHeader header.val).len then ((mem, cur), [])
        else
          let w := writeDataToFile mem (cur + smpStartLen + smpHdrLen)
            (((smpHeader header.val).len + 2 ^ 32 - smpHdrLen) % 2 ^ 32) smpHdrLen
          prepend w.2 (procLogLoop rounds w.1 (cur + smpStartLen + (smpHeader header.val).len)) := by
  have hlen := length_of_drop h
  have hmore : ¬ mem.length ≤ cur := by omega
  have hfull : ¬ mem.length < cur + smpStartLen + smpHdrLen := by
    show ¬ mem.length < cur + 4 + 8
    omega
  rw [procLogLoop, if_neg hmore, if_neg hfull, if_neg (not_not.mpr (window_flag h))]
  dsimp only
  rw [window_header h, if_neg (by rw [haccepted]; decide)]

variable {n : Nat} (hn : (smpHeader header.val).len = n + 8)

include hn

/-- The data is not complete: the loop waits. -/
theorem procLogLoop_incomplete (rounds : Nat) (ht : t.length < n) :
    procLogLoop (rounds + 1) mem cur = ((mem, cur), []) := by
  have hlen := length_of_drop h
  rw [procLogLoop_header h haccepted, hn, if_pos]
  show mem.length < cur + 4 + (n + 8)
  omega

/-- The data is complete: its record is saved, and the loop goes on behind it with the rest of the buffer as it
was. -/
theorem procLogLoop_complete (rounds : Nat) (ht : n ≤ t.length) (hmax : n + 4 < 2 ^ 32) :
    ∃ mem', mem'.length = mem.length ∧ mem'.drop (cur + 12 + n) = t.drop n ∧
      procLogLoop (rounds + 1) mem cur
        = prepend [logRecord (t.take n)] (procLogLoop rounds mem' (cur + 12 + n)) := by
  have hlen := length_of_drop h
  have hsize : (n + 8 + 2 ^ 32 - smpHdrLen) % 2 ^ 32 = n := by
    show (n + 8 + 2 ^ 32 - 8) % 2 ^ 32 = n
    omega
  have hdata : window mem (cur + 12) (cur + 12 + n) = t.take n := by
    have hsplit : mem.drop cur = (agStartFlag ++ header.val) ++ t.take n ++ t.drop n := by
      rw [h, List.append_assoc (agStartFlag ++ header.val), List.take_append_drop]
    have hwin := window_of_drop_eq hsplit
    rwa [length_flag_header, List.length_take, Nat.min_eq_left ht] at hwin
  have hsaved := writeDataToFile_saved (show 4 ≤ cur + 12 by omega)
    (show cur + 12 + n ≤ mem.length by omega) (show 4 ≤ smpHdrLen by decide) hmax
  have hmem := writeDataToFile_mem (show 4 ≤ cur + 12 by omega)
    (show cur + 12 + n ≤ mem.length by omega) (show 4 ≤ smpHdrLen by decide)
  refine ⟨(writeDataToFile mem (cur + 12) n smpHdrLen).1, hmem.1, ?_, ?_⟩
  · rw [hmem.2 _ (Nat.le_add_right _ _), Nat.add_assoc, ← List.drop_drop, h, ← length_flag_header header,
      List.drop_length_add_append]
  · have hroom : ¬ mem.length < cur + smpStartLen + (n + 8) := by
      show ¬ mem.length < cur + 4 + (n + 8)
      omega
    rw [procLogLoop_header h haccepted, hn, if_neg hroom, hsize]
    have hrecord : logRecord (t.take n) = leBytes 4 n ++ window mem (cur + 12) (cur + 12 + n) := by
      rw [logRecord, hdata, List.length_take, Nat.min_eq_left ht]
    rw [hrecord, ← hsaved]
    have hcur : cur + smpStartLen + (n + 8) = cur + 12 + n := by
      show cur + 4 + (n + 8) = cur + 12 + n
      omega
    rw [hcur]
    rfl

end Round

/-! ## Whole reads -/

/-- What is left of a stream of packets does not hold the next one in full. -/
def Partial (left : List UInt8) (ps : List SmpPacket) : Prop :=
  left <+: ps.flatMap SmpPacket.bytes ∧ ∀ p ∈ ps.head?, left.length < p.bytes.length

/-- The result of reading `stream`: the records of the packets `ps` that are complete in it, and what is left. -/
def ReadsPackets (stream : List UInt8) (ps : List SmpPacket) (left : List UInt8)
    (saved : List (List UInt8)) : Prop :=
  ∃ done rest, ps = done ++ rest ∧ saved = done.map (fun p => logRecord p.data) ∧
    stream = done.flatMap SmpPacket.bytes ++ left ∧ Partial left rest

theorem ReadsPackets.nothing {stream : List UInt8} {ps : List SmpPacket} (h : Partial stream ps) :
    ReadsPackets stream ps stream [] :=
  ⟨[], ps, rfl, rfl, rfl, h⟩

/-- Packets in front. -/
theorem ReadsPackets.append {stream left : List UInt8} {ps : List SmpPacket} {saved : List (List UInt8)}
    (front : List SmpPacket) (h : ReadsPackets stream ps left saved) :
    ReadsPackets (front.flatMap SmpPacket.bytes ++ stream) (front ++ ps) left
      (front.map (fun p => logRecord p.data) ++ saved) := by
  obtain ⟨done, rest, hps, hsaved, hstream, hleft⟩ := h
  refine ⟨front ++ done, rest, ?_, ?_, ?_, hleft⟩
  · rw [hps, List.append_assoc]
  · rw [hsaved, List.map_append]
  · rw [hstream, List.flatMap_append, List.append_assoc]

/-- A stream of whole packets is read without anything left. -/
theorem ReadsPackets.whole {ps : List SmpPacket} {left : List UInt8} {saved : List (List UInt8)}
    (h : ReadsPackets (ps.flatMap SmpPacket.bytes) ps left saved) :
    left = [] ∧ saved = ps.map fun p => logRecord p.data := by
  obtain ⟨done, rest, hps, hsaved, hstream, hleft⟩ := h
  rw [hps, List.flatMap_append] at hstream
  have hrest : left = rest.flatMap SmpPacket.bytes := (List.append_cancel_left hstream).symm
  cases rest with
  | nil =>
      rw [List.append_nil] at hps
      rw [hps]
      exact ⟨hrest, hsaved⟩
  | cons p rest =>
      have hshort := hleft.2 p rfl
      rw [hrest, List.flatMap_cons, List.length_append] at hshort
      exact absurd hshort (Nat.not_lt.mpr (Nat.le_add_right _ _))

/-- What is left is shorter than the longest packet. -/
theorem Partial.length_lt {left : List UInt8} {ps : List SmpPacket} (h : Partial left ps) :
    left.length < 2032 := by
  cases ps with
  | nil =>
      rw [List.prefix_nil.mp h.1]
      decide
  | cons p ps =>
      have hshort := h.2 p rfl
      have hlen := p.length_bytes
      have hmax := p.le_max
      omega

/-- One round of the loop in front of a packet: it waits, or it saves the record and goes on behind the packet. -/
theorem procLogLoop_packet (p : SmpPacket) (ps : List SmpPacket) (rounds : Nat) (mem : List UInt8) (cur : Nat)
    (hstream : mem.drop cur <+: (p :: ps).flatMap SmpPacket.bytes) :
    (mem.length < cur + p.bytes.length ∧ procLogLoop (rounds + 1) mem cur = ((mem, cur), [])) ∨
      ∃ mem', mem'.length = mem.length ∧
        mem.drop cur = p.bytes ++ mem'.drop (cur + p.bytes.length) ∧
        mem'.drop (cur + p.bytes.length) <+: ps.flatMap SmpPacket.bytes ∧
        procLogLoop (rounds + 1) mem cur
          = prepend [logRecord p.data] (procLogLoop rounds mem' (cur + p.bytes.length)) := by
  have hlen := p.length_bytes
  rw [List.flatMap_cons, SmpPacket.bytes, List.append_assoc _ p.data] at hstream
  by_cases hshort : mem.length < cur + 12
  · exact Or.inl ⟨by omega, procLogLoop_short rounds hshort⟩
  · -- the flag and the header are there
    have hheader : (agStartFlag ++ p.header.val).length ≤ (mem.drop cur).length := by
      rw [length_flag_header, List.length_drop]
      omega
    obtain ⟨t, ht, htail⟩ := exists_of_prefix_append hstream hheader
    have htlen := length_of_drop ht
    by_cases hdata : t.length < p.data.length
    · exact Or.inl ⟨by omega, procLogLoop_incomplete ht p.accepted p.len rounds hdata⟩
    · -- and so is the data: the length field alone says where the packet ends
      have hle : p.data.length ≤ t.length := Nat.not_lt.mp hdata
      have hmax : p.data.length + 4 < 2 ^ 32 := by
        have := p.le_max
        omega
      obtain ⟨t', rfl, hrest⟩ := exists_of_prefix_append htail hle
      obtain ⟨mem', hmemlen, hmem, hloop⟩ := procLogLoop_complete ht p.accepted p.len rounds hle hmax
      have hcur : cur + 12 + p.data.length = cur + p.bytes.length := by omega
      rw [List.drop_left, hcur] at hmem
      rw [List.take_left, hcur] at hloop
      refine Or.inr ⟨mem', hmemlen, ?_, ?_, hloop⟩
      · rw [ht, hmem, SmpPacket.bytes, List.append_assoc _ p.data]
      · rw [hmem]
        exact hrest

/-- The loop reads the complete packets of what lies ahead of `cur`. -/
theorem procLogLoop_reads (ps : List SmpPacket) (rounds : Nat) (mem : List UInt8) (cur : Nat)
    (hrounds : mem.length < cur + rounds) (hstream : mem.drop cur <+: ps.flatMap SmpPacket.bytes) :
    ReadsPackets (mem.drop cur) ps
      ((procLogLoop rounds mem cur).1.1.drop (procLogLoop rounds mem cur).1.2)
      (procLogLoop rounds mem cur).2 := by
  -- Induction on the packets ahead: the rounds left always exceed the bytes ahead, so they never run out.
  induction ps generalizing rounds mem cur with
  | nil =>
      -- nothing lies ahead
      have hnil : mem.drop cur = [] := List.prefix_nil.mp hstream
      have hdone : procLogLoop rounds mem cur = ((mem, cur), []) := by
        cases rounds with
        | zero => rfl
        | succ rounds =>
            apply procLogLoop_short
            have hle := List.drop_eq_nil_iff.mp hnil
            omega
      rw [hdone]
      exact ReadsPackets.nothing ⟨hstream, fun p hp => absurd hp (Option.not_mem_none p)⟩
  | cons p ps ih =>
      have hlen := p.length_bytes
      -- the loop stops where the packet is not complete
      have hwait : mem.length < cur + p.bytes.length → ReadsPackets (mem.drop cur) (p :: ps) (mem.drop cur) [] := by
        intro hshort
        refine ReadsPackets.nothing ⟨hstream, fun q hq => ?_⟩
        rw [← Option.some.inj hq, List.length_drop]
        omega
      cases rounds with
      | zero => exact hwait (by omega)
      | succ rounds =>
          obtain ⟨hshort, hdone⟩ | ⟨mem', hmemlen, hall, hnext, hloop⟩ :=
            procLogLoop_packet p ps rounds mem cur hstream
          · rw [hdone]
            exact hwait hshort
          · have hstep := (ih rounds mem' (cur + p.bytes.length) (by omega) hnext).append [p]
            rw [List.flatMap_singleton] at hstep
            rw [hall, hloop]
            exact hstep

/-- One call of `unisoc_proc_log_buf`, with room for what it is given. -/
theorem unisocProcLogBuf_reads {logBuf inBuf : List UInt8} (ps : List SmpPacket)
    (hroom : logBuf.length + inBuf.length ≤ unisocLogMax)
    (hstream : logBuf ++ inBuf <+: ps.flatMap SmpPacket.bytes) :
    ReadsPackets (logBuf ++ inBuf) ps (unisocProcLogBuf logBuf inBuf).1
      (unisocProcLogBuf logBuf inBuf).2 := by
  have hfits : ¬ (logBuf ≠ [] ∧ unisocLogMax < logBuf.length + inBuf.length) :=
    fun hx => absurd hroom (Nat.not_le.mpr hx.2)
  rw [unisocProcLogBuf, if_neg hfits]
  exact procLogLoop_reads ps _ (logBuf ++ inBuf) 0 (by omega) hstream

/-- The largest piece that `unisoc_logfile_save` passes on. -/
def maxPiece : Nat := 2028 * 2

/-- Every run of calls with pieces of at most that size, from what is left of a stream of packets. -/
theorem runSteps_unisocProcLogBuf_reads (pieces : List (List UInt8)) (logBuf : List UInt8)
    (ps : List SmpPacket) (hpieces : ∀ c ∈ pieces, c.length ≤ maxPiece) (hleft : Partial logBuf ps)
    (hstream : logBuf ++ pieces.flatten <+: ps.flatMap SmpPacket.bytes) :
    ReadsPackets (logBuf ++ pieces.flatten) ps (runSteps unisocProcLogBuf logBuf pieces).1
      (runSteps unisocProcLogBuf logBuf pieces).2 := by
  induction pieces generalizing logBuf ps with
  | nil =>
      rw [List.flatten_nil, List.append_nil]
      exact ReadsPackets.nothing hleft
  | cons c pieces ih =>
      rw [List.flatten_cons, ← List.append_assoc] at hstream ⊢
      have hroom : logBuf.length + c.length ≤ unisocLogMax := by
        have hlt := hleft.length_lt
        have hc : c.length ≤ 2028 * 2 := hpieces c List.mem_cons_self
        show logBuf.length + c.length ≤ 24 * 1024
        omega
      have hfront : logBuf ++ c <+: ps.flatMap SmpPacket.bytes :=
        (List.prefix_append _ pieces.flatten).trans hstream
      obtain ⟨done, rest, hps, hsaved, hread, hleft'⟩ := unisocProcLogBuf_reads ps hroom hfront
      have hnext : (unisocProcLogBuf logBuf c).1 ++ pieces.flatten
          <+: rest.flatMap SmpPacket.bytes := by
        rw [hread, hps, List.flatMap_append, List.append_assoc] at hstream
        exact (List.prefix_append_right_inj _).mp hstream
      have hrun := ih _ rest (fun d hd => hpieces d (List.mem_cons_of_mem c hd)) hleft' hnext
      rw [runSteps_cons, prepend_fst, prepend_snd, hread, hsaved, hps, List.append_assoc]
      exact hrun.append done

/-! ## The chunks of the channel -/

/-- The pieces that the loop of `unisoc_logfile_save` cuts a buffer of up to `n` bytes into. -/
def logPieces : Nat → List UInt8 → List (List UInt8)
  | 0, _ => []
  | n + 1, buf => if buf = [] then [] else buf.take maxPiece :: logPieces n (buf.drop maxPiece)

theorem flatten_logPieces (n : Nat) (buf : List UInt8) (h : buf.length ≤ n) :
    (logPieces n buf).flatten = buf := by
  induction n generalizing buf with
  | zero => exact (List.length_eq_zero_iff.mp (Nat.le_zero.mp h)).symm
  | succ n ih =>
      rw [logPieces]
      by_cases hnil : buf = []
      · rw [if_pos hnil, hnil, List.flatten_nil]
      · have hpos : 0 < buf.length := List.length_pos_iff.mpr hnil
        have hlen : (buf.drop maxPiece).length ≤ n := by
          rw [List.length_drop, maxPiece]
          omega
        rw [if_neg hnil, List.flatten_cons, ih _ hlen, List.take_append_drop]

theorem length_le_of_mem_logPieces (n : Nat) (buf : List UInt8) :
    ∀ c ∈ logPieces n buf, c.length ≤ maxPiece := by
  induction n generalizing buf with
  | zero => exact fun c hc => absurd hc List.not_mem_nil
  | succ n ih =>
      intro c hc
      rw [logPieces] at hc
      split at hc
      · exact absurd hc List.not_mem_nil
      · rcases List.mem_cons.mp hc with rfl | hc
        · exact List.length_take_le _ _
        · exact ih _ c hc

/-- `unisoc_logfile_save` for the log channel. -/
def unisocLogSave (logBuf buf : List UInt8) : List UInt8 × List (List UInt8) :=
  runSteps unisocProcLogBuf logBuf (logPieces buf.length buf)

/-- **The log channel**: packets cut into chunks in any way are saved as one record each, in order. -/
theorem runSteps_unisocLogSave (chunks : List (List UInt8)) (ps : List SmpPacket)
    (hstream : chunks.flatten = ps.flatMap SmpPacket.bytes) :
    runSteps unisocLogSave [] chunks = ([], ps.map fun p => logRecord p.data) := by
  set pieces := chunks.flatMap fun buf => logPieces buf.length buf with hpieces
  have hrun : runSteps unisocLogSave [] chunks = runSteps unisocProcLogBuf [] pieces :=
    runSteps_flatMap unisocProcLogBuf (fun buf : List UInt8 => logPieces buf.length buf) [] chunks
  have hflat : pieces.flatten = ps.flatMap SmpPacket.bytes := by
    rw [← hstream, hpieces, List.flatMap_def, List.flatten_flatten, List.map_map]
    congr 1
    refine (List.map_congr_left fun buf _ => ?_).trans (List.map_id chunks)
    exact flatten_logPieces buf.length buf (Nat.le_refl _)
  have hsize : ∀ c ∈ pieces, c.length ≤ maxPiece := by
    intro c hc
    obtain ⟨buf, -, hc⟩ := List.mem_flatMap.mp hc
    exact length_le_of_mem_logPieces _ _ c hc
  have hstart : Partial [] ps := by
    refine ⟨List.nil_prefix, fun p _ => ?_⟩
    rw [p.length_bytes]
    exact Nat.succ_pos _
  have hreads := runSteps_unisocProcLogBuf_reads pieces [] ps hsize hstart
    (by rw [List.nil_append, hflat])
  rw [List.nil_append, hflat] at hreads
  rw [hrun]
  exact Prod.ext hreads.whole.1 hreads.whole.2

end QLog
