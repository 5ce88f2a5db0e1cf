import QLog.Unisoc.Resync

/-! # The range of what is written on the log channel

`WriteDataToFile` gets a place in the buffer and the length of the packet less that of its header, as a `DWORD`. The
parser compares the length with the bytes it has, but not with the eight bytes of the header: a packet that announces
less than those makes the difference wrap around, and the record reaches far behind the buffer. -/

namespace QLog

open Library

/-- A call of `WriteDataToFile` from `unisoc_proc_log_buf`. -/
structure WriteCall where
  /-- the buffer that is parsed, as it is at the call -/
  mem : List UInt8
  /-- the offset of `lpBuffer` in it -/
  off : Nat
  dwDataSize : Nat
  /-- the length that the header has announced -/
  pktLen : Nat
deriving DecidableEq

/-- The data of the call is that of a packet, and it and the four bytes before it lie inside the bytes of the
buffer. -/
structure WriteCall.Inside (w : WriteCall) (size : Nat) : Prop where
  header_le : smpHdrLen ≤ w.pktLen
  dataSize : w.dwDataSize = w.pktLen - smpHdrLen
  before : 4 ≤ w.off
  behind : w.off + w.dwDataSize ≤ size

/-- What the call saves. -/
def WriteCall.saved (w : WriteCall) : List (List UInt8) := (writeDataToFile w.mem w.off w.dwDataSize smpHdrLen).2

/-- The calls that the loop of `unisoc_proc_log_buf` makes. -/
def procLogCalls : Nat → List UInt8 → Nat → List WriteCall
  | 0, _, _ => []
  | rounds + 1, mem, cur =>
      if mem.length ≤ cur then []
      else if mem.length < cur + smpStartLen + smpHdrLen then []
      else if window mem cur (cur + smpStartLen) ≠ agStartFlag then
        if cur + 1 = mem.length then [] else procLogCalls rounds mem (cur + 1)
      else
        let header := window mem (cur + smpStartLen) (cur + smpStartLen + smpHdrLen)
        if headerAccepted header = false then procLogCalls rounds mem (cur + 1)
        else
          let pktLen := (smpHeader header).len
          if mem.length < cur + smpStartLen + pktLen then []
          else
            let off := cur + smpStartLen + smpHdrLen
            let dwDataSize := (pktLen + 2 ^ 32 - smpHdrLen) % 2 ^ 32
            ⟨mem, off, dwDataSize, pktLen⟩ ::
              procLogCalls rounds (writeDataToFile mem off dwDataSize smpHdrLen).1 (cur + smpStartLen + pktLen)

/-- The calls of `WriteDataToFile` from one call of `unisoc_proc_log_buf`. -/
def unisocProcLogCalls (logBuf inBuf : List UInt8) : List WriteCall :=
  if logBuf ≠ [] ∧ unisocLogMax < logBuf.length + inBuf.length then []
  else procLogCalls ((logBuf ++ inBuf).length + 1) (logBuf ++ inBuf) 0

/-- The loop saves what its calls save. -/
theorem procLogLoop_saved (rounds : Nat) (mem : List UInt8) (cur : Nat) :
    (procLogLoop rounds mem cur).2 = (procLogCalls rounds mem cur).flatMap WriteCall.saved := by
  induction rounds generalizing mem cur with
  | zero => rfl
  | succ rounds ih =>
      rw [procLogLoop, procLogCalls]
      dsimp only
      by_cases hend : mem.length ≤ cur
      · rw [if_pos hend, if_pos hend, List.flatMap_nil]
      rw [if_neg hend, if_neg hend]
      by_cases hshort : mem.length < cur + smpStartLen + smpHdrLen
      · rw [if_pos hshort, if_pos hshort, List.flatMap_nil]
      rw [if_neg hshort, if_neg hshort]
      by_cases hflag : window mem cur (cur + smpStartLen) ≠ agStartFlag
      · rw [if_pos hflag, if_pos hflag]
        by_cases hlast : cur + 1 = mem.length
        · rw [if_pos hlast, if_pos hlast, List.flatMap_nil]
        · rw [if_neg hlast, if_neg hlast]
          exact ih mem (cur + 1)
      rw [if_neg hflag, if_neg hflag]
      by_cases hheader : headerAccepted (window mem (cur + smpStartLen) (cur + smpStartLen + smpHdrLen)) = false
      · rw [if_pos hheader, if_pos hheader]
        exact ih mem (cur + 1)
      rw [if_neg hheader, if_neg hheader]
      by_cases hwait : mem.length < cur + smpStartLen
          + (smpHeader (window mem (cur + smpStartLen) (cur + smpStartLen + smpHdrLen))).len
      · rw [if_pos hwait, if_pos hwait, List.flatMap_nil]
      · rw [if_neg hwait, if_neg hwait, prepend_snd, ih, List.flatMap_cons]
        rfl

/-- The same of a whole call. -/
theorem unisocProcLogBuf_saved (logBuf inBuf : List UInt8) :
    (unisocProcLogBuf logBuf inBuf).2 = (unisocProcLogCalls logBuf inBuf).flatMap WriteCall.saved := by
  rw [unisocProcLogBuf, unisocProcLogCalls]
  split
  · rfl
  · exact procLogLoop_saved _ _ 0

/-! ## Headers on the way -/

/-- Parsing the one buffer leads to the other, which is its end. -/
inductive ParsesTo : List UInt8 → List UInt8 → Prop
  | refl (buf : List UInt8) : ParsesTo buf buf
  | skip {buf rest : List UInt8} : 12 ≤ buf.length → ¬ AcceptedAt buf 0 → ParsesTo (buf.drop 1) rest →
      ParsesTo buf rest
  | packet {buf rest : List UInt8} : AcceptedAt buf 0 → 4 + pktLenAt buf 0 ≤ buf.length →
      ParsesTo (buf.drop (4 + pktLenAt buf 0)) rest → ParsesTo buf rest

/-- Every packet that parsing comes to, and that is complete, announces at least its header. -/
def LongPackets (buf : List UInt8) : Prop :=
  ∀ rest, ParsesTo buf rest → AcceptedAt rest 0 → 4 + pktLenAt rest 0 ≤ rest.length → smpHdrLen ≤ pktLenAt rest 0

section Packets

variable {buf : List UInt8}

/-- Nothing is come to behind a buffer that the parser waits with. -/
theorem longPackets_waiting (h : Waiting buf) : LongPackets buf := by
  have hhere : ∀ rest, ParsesTo buf rest → rest = buf := by
    intro rest hrest
    cases hrest with
    | refl => rfl
    | skip hlen hnot _ =>
        rcases h with hshort | hwait
        · omega
        · exact absurd hwait.1 hnot
    | packet haccepted hcomplete _ =>
        rcases h with hshort | hwait
        · have hlen := haccepted.1
          omega
        · omega
  -- the buffer itself is too short for a header, or for the packet
  intro rest hrest haccepted hcomplete
  rw [hhere rest hrest] at haccepted hcomplete
  rcases h with hshort | hwait
  · have hlen := haccepted.1
    omega
  · omega

theorem longPackets_skip (hlen : 12 ≤ buf.length) (hnot : ¬ AcceptedAt buf 0) :
    LongPackets buf ↔ LongPackets (buf.drop 1) := by
  constructor
  · exact fun h rest hrest => h rest (ParsesTo.skip hlen hnot hrest)
  · intro h rest hrest haccepted hcomplete
    cases hrest with
    | refl => exact absurd haccepted hnot
    | skip _ _ hrest => exact h rest hrest haccepted hcomplete
    | packet hhere _ _ => exact absurd hhere hnot

theorem longPackets_packet (haccepted : AcceptedAt buf 0) (hcomplete : 4 + pktLenAt buf 0 ≤ buf.length) :
    LongPackets buf ↔ smpHdrLen ≤ pktLenAt buf 0 ∧ LongPackets (buf.drop (4 + pktLenAt buf 0)) := by
  constructor
  · intro h
    refine ⟨h buf (ParsesTo.refl buf) haccepted hcomplete, fun rest hrest => h rest ?_⟩
    exact ParsesTo.packet haccepted hcomplete hrest
  · rintro ⟨hlong, h⟩ rest hrest haccepted' hcomplete'
    cases hrest with
    | refl => exact hlong
    | skip _ hnot _ => exact absurd haccepted hnot
    | packet _ _ hrest => exact h rest hrest haccepted' hcomplete'

end Packets

section Calls

variable {mem : List UInt8} {cur : Nat}

/-- Less than a flag and a header: there is no further call. -/
theorem procLogCalls_short (rounds : Nat) (h : mem.length < cur + 12) : procLogCalls rounds mem cur = [] := by
  cases rounds with
  | zero => rfl
  | succ rounds =>
      rw [procLogCalls]
      split
      · rfl
      · rw [if_pos (show mem.length < cur + smpStartLen + smpHdrLen from h)]

/-- Without an accepted header the loop goes on with the next byte. -/
theorem procLogCalls_skip (rounds : Nat) (hlen : cur + 12 ≤ mem.length) (h : ¬ AcceptedAt mem cur) :
    procLogCalls (rounds + 1) mem cur = procLogCalls rounds mem (cur + 1) := by
  have hmore : ¬ mem.length ≤ cur := by omega
  have hfull : ¬ mem.length < cur + smpStartLen + smpHdrLen := by
    show ¬ mem.length < cur + 4 + 8
    omega
  rw [procLogCalls, if_neg hmore, if_neg hfull]
  split
  · rw [if_neg (show ¬ cur + 1 = mem.length by omega)]
  · next hflag =>
      have hrejected : headerAccepted (window mem (cur + 4) (cur + 12)) = false := by
        rw [Bool.eq_false_iff]
        exact fun haccepted => h ⟨hlen, not_not.mp hflag, haccepted⟩
      dsimp only
      rw [if_pos (show headerAccepted (window mem (cur + smpStartLen) (cur + smpStartLen + smpHdrLen)) = false
        from hrejected)]

/-- The call for the packet at an offset. -/
def packetCall (mem : List UInt8) (cur : Nat) : WriteCall :=
  ⟨mem, cur + 12, (pktLenAt mem cur + 2 ^ 32 - smpHdrLen) % 2 ^ 32, pktLenAt mem cur⟩

/-- An accepted header is waited for, or there is the call for its packet. Behind its header the buffer is left as it
was. -/
theorem procLogCalls_accepted (rounds : Nat) (h : AcceptedAt mem cur) :
    (mem.length < cur + 4 + pktLenAt mem cur ∧ procLogCalls (rounds + 1) mem cur = []) ∨
      ∃ mem', mem'.length = mem.length ∧ (∀ k, cur + 12 ≤ k → mem'.drop k = mem.drop k) ∧
        cur + 4 + pktLenAt mem cur ≤ mem.length ∧
        procLogCalls (rounds + 1) mem cur
          = packetCall mem cur :: procLogCalls rounds mem' (cur + 4 + pktLenAt mem cur) := by
  obtain ⟨hlen, hflag, haccepted⟩ := h
  have hmore : ¬ mem.length ≤ cur := by omega
  have hfull : ¬ mem.length < cur + smpStartLen + smpHdrLen := by
    show ¬ mem.length < cur + 4 + 8
    omega
  have hheader : ¬ headerAccepted (window mem (cur + smpStartLen) (cur + smpStartLen + smpHdrLen)) = false := by
    rw [show headerAccepted (window mem (cur + smpStartLen) (cur + smpStartLen + smpHdrLen)) = true from haccepted]
    decide
  have hstart : ¬ window mem cur (cur + smpStartLen) ≠ agStartFlag := not_not_intro hflag
  rw [procLogCalls, if_neg hmore, if_neg hfull, if_neg hstart]
  dsimp only
  rw [if_neg hheader]
  by_cases hwait : mem.length < cur + 4 + pktLenAt mem cur
  · exact Or.inl ⟨hwait, if_pos hwait⟩
  · refine Or.inr ⟨_, ?_, ?_, Nat.not_lt.mp hwait, if_neg hwait⟩
    · rw [writeDataToFile, if_pos (show 4 ≤ smpHdrLen by decide)]
      apply length_overwrite
      rw [length_leBytes]
      show cur + 4 + 8 - 4 + 4 ≤ mem.length
      omega
    · intro k hk
      rw [writeDataToFile, if_pos (show 4 ≤ smpHdrLen by decide)]
      apply drop_overwrite
      · rw [length_leBytes]
        show cur + 4 + 8 - 4 + 4 ≤ k
        omega
      · show cur + 4 + 8 - 4 ≤ mem.length
        omega

/-- The call for a packet stays inside the buffer if the packet announces at least its header. -/
theorem packetCall_inside_iff (hcomplete : cur + 4 + pktLenAt mem cur ≤ mem.length) :
    (packetCall mem cur).Inside mem.length ↔ smpHdrLen ≤ pktLenAt mem cur := by
  constructor
  · exact fun h => h.header_le
  · intro h
    have hlt : pktLenAt mem cur < 2 ^ 16 := ofLeBytes_lt (k := 2) _ (length_window_le _ 0 2)
    have hsize : (pktLenAt mem cur + 2 ^ 32 - smpHdrLen) % 2 ^ 32 = pktLenAt mem cur - smpHdrLen := by
      rw [smpHdrLen] at h ⊢
      omega
    refine ⟨h, hsize, ?_, ?_⟩
    · show 4 ≤ cur + 12
      omega
    · show cur + 12 + (pktLenAt mem cur + 2 ^ 32 - smpHdrLen) % 2 ^ 32 ≤ mem.length
      rw [hsize]
      rw [smpHdrLen] at h ⊢
      omega

/-- Where the loop waits there are no calls. -/
theorem procLogCalls_inside_of_waiting {rounds : Nat} (hwaits : Waiting (mem.drop cur))
    (hcalls : procLogCalls rounds mem cur = []) :
    (∀ w ∈ procLogCalls rounds mem cur, w.Inside mem.length) ↔ LongPackets (mem.drop cur) := by
  rw [hcalls]
  exact iff_of_true (fun w hw => absurd hw List.not_mem_nil) (longPackets_waiting hwaits)

/-- The calls of the loop stay inside the buffer exactly if the packets ahead announce at least their headers. -/
theorem procLogCalls_inside_iff (rounds : Nat) (mem : List UInt8) (cur : Nat) (hrounds : mem.length < cur + rounds) :
    (∀ w ∈ procLogCalls rounds mem cur, w.Inside mem.length) ↔ LongPackets (mem.drop cur) := by
  induction rounds generalizing mem cur with
  | zero => exact procLogCalls_inside_of_waiting (waiting_of_short (by omega)) rfl
  | succ rounds ih =>
      by_cases hshort : mem.length < cur + 12
      · exact procLogCalls_inside_of_waiting (waiting_of_short hshort) (procLogCalls_short (rounds + 1) hshort)
      · by_cases haccepted : AcceptedAt mem cur
        · have hfront : AcceptedAt (mem.drop cur) 0 := (acceptedAt_drop cur 0).mpr haccepted
          obtain ⟨hwait, hcalls⟩ | ⟨mem', hlen, hdrop, hcomplete, hcalls⟩ := procLogCalls_accepted rounds haccepted
          · exact procLogCalls_inside_of_waiting (waiting_of_incomplete haccepted hwait) hcalls
          · have hwhole : 4 + pktLenAt (mem.drop cur) 0 ≤ (mem.drop cur).length := by
              rw [pktLenAt_drop, List.length_drop]
              omega
            rw [hcalls, List.forall_mem_cons, packetCall_inside_iff hcomplete, longPackets_packet hfront hwhole,
              pktLenAt_drop]
            apply and_congr_right
            intro hlong
            -- a packet with a header ends behind the bytes that are overwritten
            have hsame : mem'.drop (cur + 4 + pktLenAt mem cur) = (mem.drop cur).drop (4 + pktLenAt mem cur) := by
              rw [smpHdrLen] at hlong
              rw [hdrop _ (by omega), List.drop_drop, Nat.add_assoc]
            rw [← hlen, ← hsame]
            exact ih mem' _ (by omega)
        · have hnot : ¬ AcceptedAt (mem.drop cur) 0 := fun h => haccepted ((acceptedAt_drop cur 0).mp h)
          have hlen : 12 ≤ (mem.drop cur).length := by
            rw [List.length_drop]
            omega
          rw [procLogCalls_skip rounds (Nat.not_lt.mp hshort) haccepted, longPackets_skip hlen hnot, List.drop_drop]
          exact ih mem (cur + 1) (by omega)

end Calls

/-! ## Runs -/

/-- The calls that a step of the channel makes stay inside what the step parses. -/
def WritesInside (logBuf piece : List UInt8) : Prop :=
  ∀ w ∈ unisocProcLogCalls logBuf piece, w.Inside (logBuf ++ piece).length

/-- What a step parses, if it does not discard its piece, holds no complete packet shorter than its header. -/
def ParsesLong (logBuf piece : List UInt8) : Prop :=
  logBuf = [] ∨ PieceFits logBuf piece → LongPackets (logBuf ++ piece)

/-- One step. -/
theorem writesInside_iff (logBuf piece : List UInt8) : WritesInside logBuf piece ↔ ParsesLong logBuf piece := by
  rw [WritesInside, ParsesLong, unisocProcLogCalls]
  by_cases hfits : logBuf = [] ∨ PieceFits logBuf piece
  · have hparsed : ¬ (logBuf ≠ [] ∧ unisocLogMax < logBuf.length + piece.length) := by
      rintro ⟨hne, hlong⟩
      rcases hfits with hnil | hfits
      · exact hne hnil
      · exact absurd hfits (Nat.not_le.mpr hlong)
    rw [if_neg hparsed, imp_iff_right hfits]
    exact procLogCalls_inside_iff _ (logBuf ++ piece) 0 (by omega)
  -- the piece is discarded with what was buffered, and nothing is parsed
  · rw [not_or] at hfits
    have hdiscarded : logBuf ≠ [] ∧ unisocLogMax < logBuf.length + piece.length :=
      ⟨hfits.1, Nat.not_le.mp hfits.2⟩
    rw [if_pos hdiscarded]
    exact ⟨fun _ h => absurd h (not_or.mpr hfits), fun _ w hw => absurd hw List.not_mem_nil⟩

/-- **When everything written lies inside received data**: in no step of the run the parser comes to a complete packet
that announces less than the eight bytes of its header. -/
theorem unisocLogSave_writesInside_iff (chunks : List (List UInt8)) :
    Along unisocProcLogBuf WritesInside [] (channelPieces chunks) ↔
      Along unisocProcLogBuf ParsesLong [] (channelPieces chunks) := by
  constructor
  · exact along_mono unisocProcLogBuf (fun logBuf piece => (writesInside_iff logBuf piece).mp) [] _
  · exact along_mono unisocProcLogBuf (fun logBuf piece => (writesInside_iff logBuf piece).mpr) [] _

/-- A packet that announces no bytes at all. -/
theorem not_unisocLogSave_writesInside :
    ¬ ∀ chunks : List (List UInt8), Along unisocProcLogBuf WritesInside [] (channelPieces chunks) := by
  intro h
  have hpieces : channelPieces [[0x7E, 0x7E, 0x7E, 0x7E, 0, 0, 0, 0, 0x5A, 0x5A, 0xA5, 0xA5]]
      = [[0x7E, 0x7E, 0x7E, 0x7E, 0, 0, 0, 0, 0x5A, 0x5A, 0xA5, 0xA5]] :=
    channelPieces_singleton (by decide) (by decide)
  have hrun := h [[0x7E, 0x7E, 0x7E, 0x7E, 0, 0, 0, 0, 0x5A, 0x5A, 0xA5, 0xA5]]
  rw [hpieces] at hrun
  have hinside := hrun.1 (packetCall [0x7E, 0x7E, 0x7E, 0x7E, 0, 0, 0, 0, 0x5A, 0x5A, 0xA5, 0xA5] 0) (by decide)
  exact absurd hinside.header_le (by decide)

end QLog
