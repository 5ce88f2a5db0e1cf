import QLog.Unisoc.LogChannel

/-! # Waiting and resynchronisation on the log channel

Between two calls the parser of the log channel keeps what it could not use: less than a flag and a header, or an
accepted header whose data is not complete. The header says how much it waits for, and is protected by a checksum
of 16 bits only, so corrupted bytes can make the parser wait for up to 65535 bytes. Its buffer holds 24 KiB, and
a piece that does not fit is discarded.

As long as every header waited for announces at most `announcedMax` bytes every piece fits, every long run of
packets makes the parser write again, and it is back in step after at most `announcedMax` bytes unless the data
itself holds accepted headers. -/

namespace QLog

open Library

/-- A flag with an accepted header behind it starts at `i`. -/
def AcceptedAt (buf : List UInt8) (i : Nat) : Prop :=
  i + 12 ≤ buf.length ∧ window buf i (i + 4) = agStartFlag ∧
    headerAccepted (window buf (i + 4) (i + 12)) = true

/-- The length in the header of a packet that starts at `i`. -/
def pktLenAt (buf : List UInt8) (i : Nat) : Nat := (smpHeader (window buf (i + 4) (i + 12))).len

/-- The largest length whose packet fits with every further piece. -/
def announcedMax : Nat := unisocLogMax - maxPiece - smpStartLen + 1

/-- If the parser waits for the rest of a packet, that packet is not too long for the buffer. -/
def BoundedWait (logBuf : List UInt8) : Prop := 12 ≤ logBuf.length → pktLenAt logBuf 0 ≤ announcedMax

/-- A call whose piece is not discarded. -/
def PieceFits (logBuf piece : List UInt8) : Prop := logBuf.length + piece.length ≤ unisocLogMax

instance (logBuf piece : List UInt8) : Decidable (PieceFits logBuf piece) :=
  inferInstanceAs (Decidable (_ ≤ _))

/-- What the parser may keep: too little for a header, or an accepted header that waits for its data. -/
def Waiting (logBuf : List UInt8) : Prop :=
  logBuf.length < 12 ∨ AcceptedAt logBuf 0 ∧ logBuf.length < 4 + pktLenAt logBuf 0

/-! ## Accepted headers -/

section Accepted

variable {buf : List UInt8}

theorem acceptedAt_drop (d i : Nat) : AcceptedAt (buf.drop d) i ↔ AcceptedAt buf (d + i) := by
  rw [AcceptedAt, AcceptedAt, window_drop, window_drop, List.length_drop, Nat.add_assoc d i 4,
    Nat.add_assoc d i 12]
  refine and_congr_left fun _ => ?_
  omega

theorem pktLenAt_drop (d : Nat) : pktLenAt (buf.drop d) 0 = pktLenAt buf d := by
  rw [pktLenAt, pktLenAt, window_drop]

/-- A header is accepted or not by its own bytes. -/
theorem acceptedAt_append (more : List UInt8) {i : Nat} (h : i + 12 ≤ buf.length) :
    AcceptedAt (buf ++ more) i ↔ AcceptedAt buf i := by
  rw [AcceptedAt, AcceptedAt, window_append_left more (show i + 4 ≤ buf.length by omega),
    window_append_left more h, List.length_append]
  refine and_congr_left fun _ => ?_
  omega

theorem pktLenAt_append (more : List UInt8) (h : 12 ≤ buf.length) :
    pktLenAt (buf ++ more) 0 = pktLenAt buf 0 := by
  rw [pktLenAt, pktLenAt, window_append_left more h]

/-- The bytes of an accepted header. -/
theorem AcceptedAt.drop_eq {i : Nat} (h : AcceptedAt buf i) :
    ∃ (header : Block 8) (t : List UInt8), buf.drop i = agStartFlag ++ header.val ++ t ∧
      headerAccepted header.val = true ∧ (smpHeader header.val).len = pktLenAt buf i := by
  obtain ⟨hlen, hflag, haccepted⟩ := h
  have hheader : (window buf (i + 4) (i + 12)).length = 8 := by
    rw [length_window buf hlen]
    omega
  refine ⟨⟨window buf (i + 4) (i + 12), hheader⟩, buf.drop (i + 12), ?_, haccepted, rfl⟩
  rw [← hflag, window_append buf (Nat.le_add_right i 4) (show i + 4 ≤ i + 12 by omega)]
  rw [window, List.drop_take, Nat.add_sub_cancel_left, ← List.drop_drop, List.take_append_drop]

/-- A packet starts with an accepted header. -/
theorem acceptedAt_bytes (p : SmpPacket) (front more : List UInt8) :
    AcceptedAt (front ++ (p.bytes ++ more)) front.length := by
  have hlen := p.length_bytes
  have hdrop : (front ++ (p.bytes ++ more)).drop front.length
      = agStartFlag ++ p.header.val ++ (p.data ++ more) := by
    rw [List.drop_left, SmpPacket.bytes, List.append_assoc _ p.data]
  refine ⟨?_, window_flag hdrop, ?_⟩
  · rw [List.length_append, List.length_append]
    omega
  · have hheader : window (front ++ (p.bytes ++ more)) (front.length + 4) (front.length + 12) = p.header.val :=
      window_header hdrop
    rw [hheader]
    exact p.accepted

theorem pktLenAt_bytes (p : SmpPacket) (front more : List UInt8) :
    pktLenAt (front ++ (p.bytes ++ more)) front.length = p.data.length + 8 := by
  have hdrop : (front ++ (p.bytes ++ more)).drop front.length
      = agStartFlag ++ p.header.val ++ (p.data ++ more) := by
    rw [List.drop_left, SmpPacket.bytes, List.append_assoc _ p.data]
  have hheader : window (front ++ (p.bytes ++ more)) (front.length + 4) (front.length + 12) = p.header.val :=
    window_header hdrop
  rw [pktLenAt, hheader, p.len]

/-- A sum that folds to all ones is a multiple of `0xFFFF`. -/
theorem dvd_of_fold {sum : Nat} (hlt : sum < 2 ^ 32)
    (h : 0xFFFF - (sum / 2 ^ 16 + sum % 2 ^ 16 + (sum / 2 ^ 16 + sum % 2 ^ 16) / 2 ^ 16) % 2 ^ 16 = 0) :
    ∃ k, sum = 0xFFFF * k := by
  obtain ⟨q, r, hr, hq, rfl⟩ : ∃ q r, r < 2 ^ 16 ∧ q < 2 ^ 16 ∧ sum = 2 ^ 16 * q + r :=
    ⟨sum / 2 ^ 16, sum % 2 ^ 16, by omega, by omega, by omega⟩
  rw [show (2 ^ 16 * q + r) / 2 ^ 16 = q by omega, show (2 ^ 16 * q + r) % 2 ^ 16 = r by omega] at h
  rcases Nat.lt_or_ge (q + r) (2 ^ 16) with hsmall | hlarge
  · rw [Nat.div_eq_of_lt hsmall, Nat.add_zero, Nat.mod_eq_of_lt hsmall] at h
    exact ⟨q + 1, by omega⟩
  · rw [show (q + r) / 2 ^ 16 = 1 by omega] at h
    exact ⟨q + 2, by omega⟩

/-- No byte of a header that announces four bytes is one of a flag: its checksum is known. -/
theorem not_mem_header_of_len_four (header : Block 8) (haccepted : headerAccepted header.val = true)
    (hlen : (smpHeader header.val).len = 4) : (0x7E : UInt8) ∉ header.val := by
  obtain ⟨bytes, hbytes⟩ := header
  match bytes, hbytes with
  | [a, b, c, d, e, f, g, h], _ =>
      simp only [headerAccepted, smpHeader, window, ofLeBytes, Bool.and_eq_true, Bool.or_eq_true, beq_iff_eq,
        List.take, List.drop, List.getD_cons_succ, List.getD_cons_zero] at haccepted hlen
      obtain ⟨⟨⟨hsum, hlcn⟩, htype⟩, hreserved⟩ := haccepted
      obtain ⟨ha, hb⟩ : a.toNat = 4 ∧ b.toNat = 0 := by omega
      have hc : c.toNat = 0 := by rw [hlcn]; rfl
      have hd : d.toNat = 0 ∨ d.toNat = 0xF8 := by rcases htype with rfl | rfl <;> decide
      have hlt := e.toNat_lt
      obtain ⟨he, hf⟩ : e.toNat = 0x5A ∧ f.toNat = 0x5A := by omega
      have hg := g.toNat_lt
      have hh := h.toNat_lt
      obtain ⟨k, hk⟩ := dvd_of_fold (Nat.mod_lt _ (by decide)) (of_decide_eq_true hsum)
      simp only [frmSum, Bool.false_eq_true, if_false, ha, hb, hc, he, hf] at hk
      have hflag : UInt8.toNat 126 = 126 := rfl
      simp only [List.mem_cons, List.not_mem_nil, or_false, ← UInt8.toNat_inj, hflag, ha, hb, hc, he, hf]
      rcases hd with hd | hd
      · rw [hd, Nat.mod_eq_of_lt (by omega)] at hk
        have hone : k = 1 := by omega
        omega
      · rw [hd, Nat.mod_eq_of_lt (by omega)] at hk
        have htwo : k = 2 := by omega
        omega

/-- Behind a header that announces four bytes the next flag starts behind the whole header. -/
theorem AcceptedAt.add_twelve_le {i j : Nat} (h : AcceptedAt buf i) (hfour : pktLenAt buf i = 4)
    (h' : AcceptedAt buf j) (hlt : i < j) : i + 12 ≤ j := by
  by_contra hnear
  -- a byte of the flag at `j` is one of the header
  obtain ⟨k, hjk, hkj, hik, hki⟩ : ∃ k, j ≤ k ∧ k < j + 4 ∧ i + 4 ≤ k ∧ k < i + 12 :=
    ⟨max j (i + 4), by omega, by omega, by omega, by omega⟩
  have hflag : buf[k]? = some 0x7E := by
    have hbyte := getElem?_window buf (show j + (k - j) < j + 4 by omega)
    have hall : agStartFlag = List.replicate 4 0x7E := rfl
    rw [h'.2.1, hall, List.getElem?_replicate, if_pos (by omega), Nat.add_sub_cancel' hjk] at hbyte
    exact hbyte.symm
  have hbyte := getElem?_window buf (show i + 4 + (k - (i + 4)) < i + 12 by omega)
  rw [Nat.add_sub_cancel' hik, hflag] at hbyte
  have hheader : (window buf (i + 4) (i + 12)).length = 8 := by
    rw [length_window buf h.1]
    omega
  exact not_mem_header_of_len_four ⟨_, hheader⟩ h.2.2 hfour (List.mem_of_getElem? hbyte)

end Accepted

/-! ## The loop from any position -/

section Loop

variable {mem : List UInt8} {cur : Nat}

/-- Without an accepted header the loop goes on with the next byte. -/
theorem procLogLoop_skip (rounds : Nat) (hlen : cur + 12 ≤ mem.length) (h : ¬ AcceptedAt mem cur) :
    procLogLoop (rounds + 1) mem cur = procLogLoop rounds mem (cur + 1) := by
  have hmore : ¬ mem.length ≤ cur := by omega
  have hfull : ¬ mem.length < cur + smpStartLen + smpHdrLen := by
    show ¬ mem.length < cur + 4 + 8
    omega
  rw [procLogLoop, if_neg hmore, if_neg hfull]
  split
  · rw [if_neg (show ¬ cur + 1 = mem.length by omega)]
  · next hflag =>
      have hrejected : headerAccepted (window mem (cur + 4) (cur + 12)) = false := by
        rw [Bool.eq_false_iff]
        exact fun haccepted => h ⟨hlen, not_not.mp hflag, haccepted⟩
      dsimp only
      rw [if_pos (show headerAccepted (window mem (cur + smpStartLen) (cur + smpStartLen + smpHdrLen)) = false
        from hrejected)]

/-- An accepted header is waited for, or its packet is written and the loop goes on behind it, with the bytes behind
the header as they were. No bytes at all are written only for a packet that announces four. -/
theorem procLogLoop_accepted (rounds : Nat) (h : AcceptedAt mem cur) :
    (mem.length < cur + 4 + pktLenAt mem cur ∧ procLogLoop (rounds + 1) mem cur = ((mem, cur), [])) ∨
      ∃ mem' rec, mem'.length = mem.length ∧ (∀ k, cur + 12 ≤ k → mem'.drop k = mem.drop k) ∧
        (rec = [] → pktLenAt mem cur = 4) ∧ cur + 4 + pktLenAt mem cur ≤ mem.length ∧
        procLogLoop (rounds + 1) mem cur
          = prepend [rec] (procLogLoop rounds mem' (cur + 4 + pktLenAt mem cur)) := by
  obtain ⟨header, t, hdrop, haccepted, hpktLen⟩ := h.drop_eq
  have hlen := h.1
  have hsize : pktLenAt mem cur < 2 ^ 16 := ofLeBytes_lt (k := 2) _ (length_window_le _ 0 2)
  have hoff : cur + smpStartLen + smpHdrLen - 4 = cur + 8 := rfl
  have hmem : cur + 8 + (leBytes 4 ((pktLenAt mem cur + 2 ^ 32 - smpHdrLen) % 2 ^ 32)).length = cur + 12 := by
    rw [length_leBytes]
  rw [procLogLoop_header hdrop haccepted, hpktLen]
  by_cases hwait : mem.length < cur + 4 + pktLenAt mem cur
  · exact Or.inl ⟨hwait, if_pos hwait⟩
  · refine Or.inr ⟨_, _, ?_, ?_, ?_, Nat.not_lt.mp hwait, if_neg hwait⟩
    · rw [writeDataToFile, if_pos (show 4 ≤ smpHdrLen by decide), hoff]
      exact length_overwrite _ _ (by omega)
    · intro k hk
      rw [writeDataToFile, if_pos (show 4 ≤ smpHdrLen by decide), hoff]
      exact drop_overwrite _ _ (by omega) (by omega)
    · intro hnil
      rw [hoff, window, List.drop_eq_nil_iff, List.length_take, length_overwrite _ _ (by omega)] at hnil
      -- the size of what is written is that of the packet, less four, as a `DWORD`
      rw [smpHdrLen] at hnil
      omega

theorem length_procLogLoop (rounds : Nat) (mem : List UInt8) (cur : Nat) :
    (procLogLoop rounds mem cur).1.1.length = mem.length := by
  induction rounds generalizing mem cur with
  | zero => rfl
  | succ rounds ih =>
      by_cases hshort : mem.length < cur + 12
      · rw [procLogLoop_short rounds hshort]
      · by_cases haccepted : AcceptedAt mem cur
        · obtain ⟨-, hloop⟩ | ⟨mem', rec, hmem, -, -, -, hloop⟩ := procLogLoop_accepted rounds haccepted
          · rw [hloop]
          · rw [hloop, prepend_fst, ih, hmem]
        · rw [procLogLoop_skip rounds (Nat.not_lt.mp hshort) haccepted, ih]

theorem waiting_of_short (hshort : mem.length < cur + 12) : Waiting (mem.drop cur) := by
  left
  rw [List.length_drop]
  omega

theorem waiting_of_incomplete (haccepted : AcceptedAt mem cur) (hwait : mem.length < cur + 4 + pktLenAt mem cur) :
    Waiting (mem.drop cur) := by
  right
  rw [acceptedAt_drop, pktLenAt_drop, List.length_drop]
  exact ⟨haccepted, by omega⟩

/-- What the loop leaves is something to wait with. -/
theorem procLogLoop_waiting (rounds : Nat) (mem : List UInt8) (cur : Nat) (hrounds : mem.length < cur + rounds) :
    Waiting ((procLogLoop rounds mem cur).1.1.drop (procLogLoop rounds mem cur).1.2) := by
  -- on the rounds, of which there are more than bytes ahead
  induction rounds generalizing mem cur with
  | zero => exact waiting_of_short (Nat.lt_of_lt_of_le hrounds (Nat.le_add_right cur 12))
  | succ rounds ih =>
      by_cases hshort : mem.length < cur + 12
      · rw [procLogLoop_short rounds hshort]
        exact waiting_of_short hshort
      · by_cases haccepted : AcceptedAt mem cur
        · obtain ⟨hwait, hloop⟩ | ⟨mem', rec, hmem, -, -, -, hloop⟩ := procLogLoop_accepted rounds haccepted
          · rw [hloop]
            exact waiting_of_incomplete haccepted hwait
          · rw [hloop]
            exact ih mem' _ (by omega)
        · rw [procLogLoop_skip rounds (Nat.not_lt.mp hshort) haccepted]
          exact ih mem _ (by omega)

theorem drop_append_congr {mem' : List UInt8} (more : List UInt8) {k : Nat} (hlen : mem'.length = mem.length)
    (hdrop : mem'.drop k = mem.drop k) : (mem' ++ more).drop k = (mem ++ more).drop k := by
  rw [List.drop_append, List.drop_append, hlen, hdrop]

/-- A loop that writes no bytes does not get past a packet: it stops in front of it, and leaves it as it was. -/
theorem procLogLoop_silent (rounds : Nat) (mem more : List UInt8) (cur : Nat) {p : Nat} (hcur : cur ≤ mem.length)
    (hp : cur ≤ p) (hpacket : AcceptedAt (mem ++ more) p) (hlong : smpHdrLen ≤ pktLenAt (mem ++ more) p)
    (h : (procLogLoop rounds mem cur).2.flatten = []) :
    (procLogLoop rounds mem cur).1.2 ≤ mem.length ∧ (procLogLoop rounds mem cur).1.2 ≤ p ∧
      ((procLogLoop rounds mem cur).1.1 ++ more).drop p = (mem ++ more).drop p := by
  induction rounds generalizing mem cur with
  | zero => exact ⟨hcur, hp, rfl⟩
  | succ rounds ih =>
      by_cases hshort : mem.length < cur + 12
      · rw [procLogLoop_short rounds hshort]
        exact ⟨hcur, hp, rfl⟩
      · by_cases haccepted : AcceptedAt mem cur
        · obtain ⟨-, hloop⟩ | ⟨mem', rec, hmem, hdrop, hempty, hcomplete, hloop⟩ :=
            procLogLoop_accepted rounds haccepted
          · rw [hloop]
            exact ⟨hcur, hp, rfl⟩
          · rw [hloop, prepend_snd, List.singleton_append, List.flatten_cons, List.append_eq_nil_iff] at h
            obtain ⟨hrec, hrest⟩ := h
            have hfour := hempty hrec
            -- nothing is written only for four bytes, so this is not yet the packet at `p`
            have hhere : AcceptedAt (mem ++ more) cur := (acceptedAt_append more haccepted.1).mpr haccepted
            have hfour' : pktLenAt (mem ++ more) cur = 4 := by
              rw [← hfour, pktLenAt, pktLenAt, window_append_left more haccepted.1]
            have hne : cur ≠ p := by
              rintro rfl
              rw [hfour', smpHdrLen] at hlong
              omega
            have hfar := hhere.add_twelve_le hfour' hpacket (by omega)
            have hbehind := drop_append_congr more hmem (hdrop p hfar)
            have hpacket' : AcceptedAt (mem' ++ more) p := by
              rw [← Nat.add_zero p, ← acceptedAt_drop, hbehind, acceptedAt_drop]
              exact hpacket
            rw [hfour] at hcomplete hloop hrest
            rw [← pktLenAt_drop, ← hbehind, pktLenAt_drop] at hlong
            obtain ⟨hin, hfront, hsame⟩ := ih mem' (cur + 4 + 4) (by omega) (by omega) hpacket' hlong hrest
            rw [hloop]
            exact ⟨hmem ▸ hin, hfront, hsame.trans hbehind⟩
        · have hne : cur ≠ p := by
            rintro rfl
            refine haccepted ((acceptedAt_append more (Nat.not_lt.mp hshort)).mp hpacket)
          rw [procLogLoop_skip rounds (Nat.not_lt.mp hshort) haccepted] at h ⊢
          exact ih mem (cur + 1) (by omega) (by omega) hpacket hlong h

end Loop

/-! ## Calls -/

theorem unisocProcLogBuf_of_fits {logBuf piece : List UInt8} (h : PieceFits logBuf piece) :
    unisocProcLogBuf logBuf piece
      = ((procLogLoop ((logBuf ++ piece).length + 1) (logBuf ++ piece) 0).1.1.drop
          (procLogLoop ((logBuf ++ piece).length + 1) (logBuf ++ piece) 0).1.2,
        (procLogLoop ((logBuf ++ piece).length + 1) (logBuf ++ piece) 0).2) :=
  if_neg fun hx => absurd h (Nat.not_le.mpr hx.2)

/-- Every call leaves something to wait with. -/
theorem Waiting.unisocProcLogBuf {logBuf : List UInt8} (h : Waiting logBuf) (piece : List UInt8) :
    Waiting (unisocProcLogBuf logBuf piece).1 := by
  rw [QLog.unisocProcLogBuf]
  split
  · exact h
  · exact procLogLoop_waiting _ _ _ (by omega)

theorem Waiting.length_le {logBuf : List UInt8} (h : Waiting logBuf) (hbound : BoundedWait logBuf) :
    logBuf.length + maxPiece ≤ unisocLogMax := by
  show logBuf.length + 2028 * 2 ≤ 24 * 1024
  rcases h with hshort | ⟨haccepted, hwait⟩
  · omega
  · have hmax : pktLenAt logBuf 0 ≤ 24 * 1024 - 2028 * 2 - 4 + 1 := hbound (by have := haccepted.1; omega)
    omega

/-- With bounded headers no piece is ever discarded. -/
theorem along_pieceFits (pieces : List (List UInt8)) (logBuf : List UInt8) (hwait : Waiting logBuf)
    (hpieces : ∀ c ∈ pieces, c.length ≤ maxPiece)
    (hbound : Along unisocProcLogBuf (fun logBuf _ => BoundedWait logBuf) logBuf pieces) :
    Along unisocProcLogBuf PieceFits logBuf pieces := by
  induction pieces generalizing logBuf with
  | nil => trivial
  | cons c pieces ih =>
      have hlen := hwait.length_le hbound.1
      have hc := hpieces c List.mem_cons_self
      refine ⟨?_, ih _ (hwait.unisocProcLogBuf c) (fun d hd => hpieces d (List.mem_cons_of_mem c hd)) hbound.2⟩
      show logBuf.length + c.length ≤ unisocLogMax
      omega

/-- The buffer never holds more than it has room for. -/
theorem length_runSteps_le (pieces : List (List UInt8)) (logBuf : List UInt8)
    (hfits : Along unisocProcLogBuf PieceFits logBuf pieces) (hlen : logBuf.length ≤ unisocLogMax) :
    (runSteps unisocProcLogBuf logBuf pieces).1.length ≤ unisocLogMax := by
  induction pieces generalizing logBuf with
  | nil => exact hlen
  | cons c pieces ih =>
      apply ih _ hfits.2
      have hroom : logBuf.length + c.length ≤ unisocLogMax := hfits.1
      rw [unisocProcLogBuf_of_fits hfits.1]
      show (List.drop _ _).length ≤ unisocLogMax
      rw [List.length_drop, length_procLogLoop, List.length_append]
      omega

/-- A run that writes no bytes keeps all of them from a packet on. -/
theorem runSteps_silent (pieces : List (List UInt8)) (logBuf : List UInt8) {p : Nat}
    (hfits : Along unisocProcLogBuf PieceFits logBuf pieces) (hpacket : AcceptedAt (logBuf ++ pieces.flatten) p)
    (hlong : smpHdrLen ≤ pktLenAt (logBuf ++ pieces.flatten) p)
    (h : (runSteps unisocProcLogBuf logBuf pieces).2.flatten = []) :
    (logBuf ++ pieces.flatten).length ≤ (runSteps unisocProcLogBuf logBuf pieces).1.length + p := by
  induction pieces generalizing logBuf p with
  | nil =>
      rw [List.flatten_nil, List.append_nil]
      exact Nat.le_add_right _ _
  | cons c pieces ih =>
      rw [List.flatten_cons, ← List.append_assoc] at hpacket hlong ⊢
      rw [runSteps_cons, prepend_snd, List.flatten_append, List.append_eq_nil_iff] at h
      obtain ⟨hcall, hrest⟩ := h
      have hstep := unisocProcLogBuf_of_fits hfits.1
      have hlength := length_procLogLoop ((logBuf ++ c).length + 1) (logBuf ++ c) 0
      rw [hstep] at hcall
      obtain ⟨hin, hfront, hsame⟩ := procLogLoop_silent _ (logBuf ++ c) pieces.flatten 0 (Nat.zero_le _)
        (Nat.zero_le p) hpacket hlong hcall
      -- the call keeps the bytes from `cur` on
      set loop := procLogLoop ((logBuf ++ c).length + 1) (logBuf ++ c) 0 with hloop
      obtain ⟨k, rfl⟩ := Nat.exists_eq_add_of_le hfront
      have hleft : (unisocProcLogBuf logBuf c).1 = loop.1.1.drop loop.1.2 := by rw [hstep]
      have hahead : (unisocProcLogBuf logBuf c).1 ++ pieces.flatten
          = (loop.1.1 ++ pieces.flatten).drop loop.1.2 := by
        rw [hleft, List.drop_append_of_le_length (by omega)]
      have hlater := ih (unisocProcLogBuf logBuf c).1 (p := k) hfits.2
        (by rw [hahead, acceptedAt_drop, ← Nat.add_zero (loop.1.2 + k), ← acceptedAt_drop, hsame, acceptedAt_drop]
            exact hpacket)
        (by rw [hahead, ← pktLenAt_drop, List.drop_drop, hsame, pktLenAt_drop]
            exact hlong)
        hrest
      rw [runSteps_cons, prepend_fst]
      rw [hahead, List.length_drop, List.length_append, hlength] at hlater
      rw [List.length_append]
      omega

/-- **The parser writes again**: a run of packets longer than the buffer makes it write, whatever it was waiting
for. -/
theorem runSteps_writes {logBuf : List UInt8} {pieces : List (List UInt8)} {ps : List SmpPacket}
    (hwait : Waiting logBuf) (hpieces : ∀ c ∈ pieces, c.length ≤ maxPiece)
    (hstream : pieces.flatten = ps.flatMap SmpPacket.bytes)
    (hbound : Along unisocProcLogBuf (fun logBuf _ => BoundedWait logBuf) logBuf pieces)
    (hlong : unisocLogMax < pieces.flatten.length) :
    (runSteps unisocProcLogBuf logBuf pieces).2.flatten ≠ [] := by
  intro hsilent
  have hfits := along_pieceFits pieces logBuf hwait hpieces hbound
  -- the first packet starts behind what is carried over, so no byte of the run would be dropped
  obtain ⟨p, ps, rfl⟩ : ∃ p ps', ps = p :: ps' := by
    cases ps with
    | nil =>
        rw [hstream] at hlong
        exact absurd hlong (Nat.not_lt_zero _)
    | cons p ps => exact ⟨p, ps, rfl⟩
  rw [List.flatMap_cons] at hstream
  have hpacket := acceptedAt_bytes p logBuf (ps.flatMap SmpPacket.bytes)
  rw [← hstream] at hpacket
  have hkept := runSteps_silent pieces logBuf hfits hpacket
    (by rw [hstream, pktLenAt_bytes, smpHdrLen]; exact Nat.le_add_left _ _) hsilent
  have hstart : logBuf.length ≤ unisocLogMax := by
    cases pieces with
    | nil => exact absurd hlong (Nat.not_lt_zero _)
    | cons c pieces => exact (Nat.le_add_right _ _).trans (hwait.length_le hbound.1)
  have hroom := length_runSteps_le pieces logBuf hfits hstart
  rw [List.length_append] at hkept
  omega

/-! ## Back in step -/

/-- No accepted header starts in `junk`, with the packets `ps` behind it. -/
def NoHeaderIn (junk : List UInt8) (ps : List SmpPacket) : Prop :=
  ∀ i < junk.length, ¬ AcceptedAt (junk ++ ps.flatMap SmpPacket.bytes) i

theorem NoHeaderIn.drop {junk : List UInt8} {ps : List SmpPacket} (h : NoHeaderIn junk ps) {d : Nat}
    (hd : d ≤ junk.length) : NoHeaderIn (junk.drop d) ps := by
  intro i hi
  rw [← List.drop_append_of_le_length hd, acceptedAt_drop]
  apply h
  rw [List.length_drop] at hi
  omega

theorem AcceptedAt.extend {front stream : List UInt8} (h : front <+: stream) {i : Nat}
    (hi : AcceptedAt front i) : AcceptedAt stream i := by
  obtain ⟨more, rfl⟩ := h
  exact (acceptedAt_append more hi.1).mpr hi

/-- The loop in front of bytes without a header: it stops in them with less than a header left, or it reaches the
packets behind them. -/
theorem procLogLoop_resync (junk : List UInt8) (ps : List SmpPacket) (rounds : Nat) (mem : List UInt8) (cur : Nat)
    (hcur : cur ≤ mem.length) (hrounds : mem.length < cur + rounds) (hjunk : NoHeaderIn junk ps)
    (hstream : mem.drop cur <+: junk ++ ps.flatMap SmpPacket.bytes) :
    (∃ d ≤ junk.length, procLogLoop rounds mem cur = ((mem, cur + d), []) ∧ cur + d ≤ mem.length ∧
        mem.length < cur + d + 12) ∨
      cur + junk.length ≤ mem.length ∧
        ReadsPackets (mem.drop (cur + junk.length)) ps
          ((procLogLoop rounds mem cur).1.1.drop (procLogLoop rounds mem cur).1.2)
          (procLogLoop rounds mem cur).2 := by
  induction junk generalizing rounds cur with
  | nil => exact Or.inr ⟨hcur, procLogLoop_reads ps rounds mem cur hrounds hstream⟩
  | cons b junk ih =>
      by_cases hshort : mem.length < cur + 12
      · left
        refine ⟨0, Nat.zero_le _, ?_, hcur, hshort⟩
        cases rounds with
        | zero => rfl
        | succ rounds => exact procLogLoop_short rounds hshort
      · cases rounds with
        | zero => omega
        | succ rounds =>
            have hnot : ¬ AcceptedAt mem cur := by
              intro haccepted
              have hat : AcceptedAt (mem.drop cur) 0 := (acceptedAt_drop cur 0).mpr haccepted
              exact hjunk 0 (Nat.succ_pos _) (AcceptedAt.extend hstream hat)
            have hnext : mem.drop (cur + 1) <+: junk ++ ps.flatMap SmpPacket.bytes := by
              have hdrop := hstream.drop 1
              rwa [List.drop_drop] at hdrop
            rw [procLogLoop_skip rounds (Nat.not_lt.mp hshort) hnot]
            obtain ⟨d, hd, hloop, hin, hleft⟩ | ⟨hin, hreads⟩ :=
              ih rounds (cur + 1) (by omega) (by omega) (hjunk.drop (Nat.succ_le_succ (Nat.zero_le _))) hnext
            · left
              refine ⟨d + 1, Nat.succ_le_succ hd, ?_, by omega, by omega⟩
              rw [hloop, Nat.add_assoc, Nat.add_comm 1 d]
            · right
              rw [List.length_cons, ← Nat.add_assoc, Nat.add_right_comm]
              exact ⟨hin, hreads⟩

/-- From where the loop is in step on, the calls read the packets one by one. -/
theorem runSteps_of_reads {pieces : List (List UInt8)} {junk mem left : List UInt8} {ps : List SmpPacket} {cur : Nat}
    {records : List (List UInt8)} (hpieces : ∀ c ∈ pieces, c.length ≤ maxPiece) (hin : cur + junk.length ≤ mem.length)
    (hreads : ReadsPackets (mem.drop (cur + junk.length)) ps left records)
    (hstream : mem.drop cur ++ pieces.flatten = junk ++ ps.flatMap SmpPacket.bytes) :
    records ++ (runSteps unisocProcLogBuf left pieces).2 = ps.map fun p => logRecord p.data := by
  obtain ⟨done, rest, hps, hsaved, hread, hleft⟩ := hreads
  have hnext : left ++ pieces.flatten = rest.flatMap SmpPacket.bytes := by
    have hdrop := congrArg (List.drop junk.length) hstream
    rw [List.drop_append_of_le_length (by rw [List.length_drop]; omega), List.drop_drop, List.drop_left,
      hread, hps, List.flatMap_append, List.append_assoc] at hdrop
    exact List.append_cancel_left hdrop
  have hrun := runSteps_unisocProcLogBuf_reads pieces _ rest hpieces hleft (by rw [hnext])
  rw [hnext] at hrun
  rw [hsaved, hps, List.map_append, hrun.whole.2]

/-- **Back in step**: once the loop is in front of bytes without a header, it and the calls after it write every
packet behind them. -/
theorem runSteps_resync (pieces : List (List UInt8)) (junk : List UInt8) (ps : List SmpPacket) (rounds : Nat)
    (mem : List UInt8) (cur : Nat) (hpieces : ∀ c ∈ pieces, c.length ≤ maxPiece) (hcur : cur ≤ mem.length)
    (hrounds : mem.length < cur + rounds) (hjunk : NoHeaderIn junk ps)
    (hstream : mem.drop cur ++ pieces.flatten = junk ++ ps.flatMap SmpPacket.bytes) :
    (procLogLoop rounds mem cur).2 ++ (runSteps unisocProcLogBuf
        ((procLogLoop rounds mem cur).1.1.drop (procLogLoop rounds mem cur).1.2) pieces).2
      = ps.map fun p => logRecord p.data := by
  -- on the calls; what a call leaves is in front of the same packets
  induction pieces generalizing junk rounds mem cur with
  | nil =>
      have hfront : mem.drop cur <+: junk ++ ps.flatMap SmpPacket.bytes := ⟨[], hstream⟩
      obtain ⟨d, hd, hloop, hin, hleft⟩ | ⟨hin, hreads⟩ :=
        procLogLoop_resync junk ps rounds mem cur hcur hrounds hjunk hfront
      · -- what is left is too short for a packet
        rw [List.flatten_nil, List.append_nil] at hstream
        rw [hloop]
        cases ps with
        | nil => rfl
        | cons p ps =>
            have hlen := congrArg List.length hstream
            have hp := p.length_bytes
            rw [List.length_drop, List.length_append, List.flatMap_cons, List.length_append] at hlen
            omega
      · exact runSteps_of_reads hpieces hin hreads hstream
  | cons c pieces ih =>
      have hrest : ∀ d ∈ pieces, d.length ≤ maxPiece := fun d hd => hpieces d (List.mem_cons_of_mem c hd)
      have hfront : mem.drop cur <+: junk ++ ps.flatMap SmpPacket.bytes := ⟨_, hstream⟩
      obtain ⟨d, hd, hloop, hin, hleft⟩ | ⟨hin, hreads⟩ :=
        procLogLoop_resync junk ps rounds mem cur hcur hrounds hjunk hfront
      · -- still in front of the packets: the next call starts with the few bytes left
        have hfits : PieceFits (mem.drop (cur + d)) c := by
          have hc : c.length ≤ 2028 * 2 := hpieces c List.mem_cons_self
          show (mem.drop (cur + d)).length + c.length ≤ 24 * 1024
          rw [List.length_drop]
          omega
        have hnext : (mem.drop (cur + d) ++ c).drop 0 ++ pieces.flatten
            = junk.drop d ++ ps.flatMap SmpPacket.bytes := by
          have hdrop := congrArg (List.drop d) hstream
          rw [List.drop_append_of_le_length (by rw [List.length_drop]; omega), List.drop_drop,
            List.drop_append_of_le_length hd, List.flatten_cons, ← List.append_assoc] at hdrop
          exact hdrop
        have hrun := ih (junk.drop d) ((mem.drop (cur + d) ++ c).length + 1) (mem.drop (cur + d) ++ c) 0 hrest
          (Nat.zero_le _) (by omega) (hjunk.drop hd) hnext
        rw [hloop, List.nil_append, runSteps_cons, prepend_snd, unisocProcLogBuf_of_fits hfits]
        exact hrun
      · exact runSteps_of_reads hpieces hin hreads hstream

/-! ## Waiting for a packet -/

theorem Waiting.of_append {front back : List UInt8} (h : Waiting (front ++ back)) : Waiting front := by
  rcases Nat.lt_or_ge front.length 12 with hshort | hfull
  · exact Or.inl hshort
  · rcases h with hshort | ⟨haccepted, hwait⟩
    · rw [List.length_append] at hshort
      omega
    · rw [acceptedAt_append back (show 0 + 12 ≤ front.length by omega)] at haccepted
      rw [pktLenAt_append back hfull, List.length_append] at hwait
      exact Or.inr ⟨haccepted, by omega⟩

/-- A call whose bytes do not complete anything keeps them. -/
theorem unisocProcLogBuf_waits {logBuf piece : List UInt8} (h : Waiting (logBuf ++ piece))
    (hfits : PieceFits logBuf piece) : unisocProcLogBuf logBuf piece = (logBuf ++ piece, []) := by
  have hloop : procLogLoop ((logBuf ++ piece).length + 1) (logBuf ++ piece) 0 = ((logBuf ++ piece, 0), []) := by
    rcases h with hshort | ⟨haccepted, hwait⟩
    · exact procLogLoop_short _ (by omega)
    · obtain ⟨-, hloop⟩ | ⟨-, -, -, -, -, hdone, -⟩ := procLogLoop_accepted (logBuf ++ piece).length haccepted
      · exact hloop
      · omega
  rw [unisocProcLogBuf_of_fits hfits, hloop]
  rfl

/-- Calls that do not complete anything keep all bytes. -/
theorem runSteps_waits (pieces : List (List UInt8)) (logBuf : List UInt8)
    (h : Waiting (logBuf ++ pieces.flatten)) (hlen : (logBuf ++ pieces.flatten).length ≤ unisocLogMax) :
    runSteps unisocProcLogBuf logBuf pieces = (logBuf ++ pieces.flatten, []) := by
  induction pieces generalizing logBuf with
  | nil =>
      rw [List.flatten_nil, List.append_nil]
      rfl
  | cons c pieces ih =>
      rw [List.flatten_cons, ← List.append_assoc] at h hlen ⊢
      have hfits : PieceFits logBuf c := by
        rw [List.length_append, List.length_append] at hlen
        exact (Nat.le_add_right _ _).trans hlen
      rw [runSteps_cons, unisocProcLogBuf_waits h.of_append hfits, ih _ h hlen]
      rfl

/-- **The end of the wait**: the packet waited for is written when its bytes are there, and so is every packet
behind the bytes without a header that follow. -/
theorem runSteps_completes (pieces : List (List UInt8)) (logBuf front junk : List UInt8) (ps : List SmpPacket)
    (hpieces : ∀ c ∈ pieces, c.length ≤ maxPiece) (haccepted : AcceptedAt logBuf 0)
    (hwait : logBuf.length < 4 + pktLenAt logBuf 0) (hbound : pktLenAt logBuf 0 ≤ announcedMax)
    (hfront : front.length = 4 + pktLenAt logBuf 0) (hjunk : NoHeaderIn junk ps)
    (hstream : logBuf ++ pieces.flatten = front ++ (junk ++ ps.flatMap SmpPacket.bytes)) :
    ∃ rec, (runSteps unisocProcLogBuf logBuf pieces).2 = rec :: ps.map fun p => logRecord p.data := by
  induction pieces generalizing logBuf with
  | nil =>
      have hlen := congrArg List.length hstream
      rw [List.flatten_nil, List.append_nil, List.length_append] at hlen
      omega
  | cons c pieces ih =>
      have hfits : PieceFits logBuf c := by
        have hlen := Waiting.length_le (Or.inr ⟨haccepted, hwait⟩) (fun _ => hbound)
        have hc := hpieces c List.mem_cons_self
        show logBuf.length + c.length ≤ unisocLogMax
        omega
      have hrest : ∀ d ∈ pieces, d.length ≤ maxPiece := fun d hd => hpieces d (List.mem_cons_of_mem c hd)
      have hfull : 12 ≤ logBuf.length := by
        have := haccepted.1
        omega
      have haccepted' : AcceptedAt (logBuf ++ c) 0 := (acceptedAt_append c haccepted.1).mpr haccepted
      rw [List.flatten_cons, ← List.append_assoc] at hstream
      rw [← pktLenAt_append c hfull] at hbound hfront
      rcases Nat.lt_or_ge (logBuf ++ c).length (4 + pktLenAt (logBuf ++ c) 0) with hmore | hdone
      · -- the piece does not complete the packet
        rw [runSteps_cons, unisocProcLogBuf_waits (Or.inr ⟨haccepted', hmore⟩) hfits]
        exact ih (logBuf ++ c) hrest haccepted' hmore hbound hfront hstream
      · -- the packet is written, and the loop goes on behind it
        obtain ⟨header, t, hdrop, hheader, hpktLen⟩ := haccepted'.drop_eq
        obtain ⟨n, hn⟩ : ∃ n, pktLenAt (logBuf ++ c) 0 = n + 8 := by
          rw [← pktLenAt_append c hfull] at hwait
          exact ⟨pktLenAt (logBuf ++ c) 0 - 8, by omega⟩
        have hlen := length_of_drop hdrop
        have hmax : n + 8 ≤ 24 * 1024 - 2028 * 2 - 4 + 1 := hn ▸ hbound
        obtain ⟨mem', hmemlen, hmem, hloop⟩ := procLogLoop_complete hdrop hheader (hpktLen.trans hn)
          (logBuf ++ c).length (show n ≤ t.length by omega) (by omega)
        have hbehind : mem'.drop (0 + 12 + n) = (logBuf ++ c).drop front.length := by
          rw [hmem, hfront, hn, show 4 + (n + 8) = 12 + n by omega, ← List.drop_drop,
            ← length_flag_header header]
          rw [List.drop_zero] at hdrop
          rw [hdrop, List.drop_left]
        have hahead : mem'.drop (0 + 12 + n) ++ pieces.flatten = junk ++ ps.flatMap SmpPacket.bytes := by
          rw [hbehind, ← List.drop_append_of_le_length (by omega), hstream, List.drop_left]
        have hrun := runSteps_resync pieces junk ps (logBuf ++ c).length mem' (0 + 12 + n) hrest (by omega)
          (by omega) hjunk hahead
        refine ⟨logRecord (t.take n), ?_⟩
        rw [runSteps_cons, prepend_snd, unisocProcLogBuf_of_fits hfits, hloop]
        exact congrArg (logRecord (t.take n) :: ·) hrun

/-! ## Packets after anything -/

/-- Behind `logBuf` and its own first header, no accepted header starts inside a packet of `ps`. -/
def NoStrayHeader (logBuf : List UInt8) (ps : List SmpPacket) : Prop :=
  ∀ i, AcceptedAt (logBuf ++ ps.flatMap SmpPacket.bytes) i →
    i = 0 ∧ 12 ≤ logBuf.length ∨
      ∃ k < ps.length, i = logBuf.length + ((ps.take k).flatMap SmpPacket.bytes).length

/-- The first packet that starts at the offset `n` or later. -/
theorem exists_next_packet (ps : List SmpPacket) (n : Nat) (hn : n ≤ (ps.flatMap SmpPacket.bytes).length) :
    ∃ skip rest, ps = skip ++ rest ∧ n ≤ (skip.flatMap SmpPacket.bytes).length ∧
      ∀ k < skip.length, ((skip.take k).flatMap SmpPacket.bytes).length < n := by
  -- on the packets in front of the offset
  induction ps generalizing n with
  | nil => exact ⟨[], [], rfl, hn, fun k hk => absurd hk (Nat.not_lt_zero k)⟩
  | cons p ps ih =>
      rcases Nat.eq_zero_or_pos n with rfl | hpos
      · exact ⟨[], p :: ps, rfl, Nat.zero_le _, fun k hk => absurd hk (Nat.not_lt_zero k)⟩
      · rw [List.flatMap_cons, List.length_append] at hn
        obtain ⟨skip, rest, rfl, hle, hlt⟩ := ih (n - p.bytes.length) (by omega)
        refine ⟨p :: skip, rest, rfl, ?_, fun k hk => ?_⟩
        · rw [List.flatMap_cons, List.length_append]
          omega
        · cases k with
          | zero => exact hpos
          | succ k =>
              have hk' := hlt k (Nat.lt_of_succ_lt_succ hk)
              rw [List.take_succ_cons, List.flatMap_cons, List.length_append]
              omega

section InStep

variable {logBuf : List UInt8} {ps : List SmpPacket}

/-- Less than a header in front of packets holds no header. -/
theorem NoStrayHeader.short (h : NoStrayHeader logBuf ps) (hshort : logBuf.length < 12) :
    NoHeaderIn logBuf ps := by
  intro i hi haccepted
  rcases h i haccepted with ⟨-, hfull⟩ | ⟨k, -, hk⟩
  · omega
  · omega

/-- Between the position `n` and the next packet there is no header. -/
theorem NoStrayHeader.between {skip rest : List SmpPacket} (h : NoStrayHeader logBuf (skip ++ rest)) {n : Nat}
    (hpos : 0 < n) (hle : n ≤ logBuf.length + (skip.flatMap SmpPacket.bytes).length)
    (hlt : ∀ k < skip.length, logBuf.length + ((skip.take k).flatMap SmpPacket.bytes).length < n) :
    NoHeaderIn ((logBuf ++ skip.flatMap SmpPacket.bytes).drop n) rest := by
  intro i hi haccepted
  have hlen : n ≤ (logBuf ++ skip.flatMap SmpPacket.bytes).length := by rwa [List.length_append]
  rw [List.length_drop, List.length_append] at hi
  rw [← List.drop_append_of_le_length hlen, acceptedAt_drop, List.append_assoc, ← List.flatMap_append]
    at haccepted
  rcases h _ haccepted with ⟨hzero, -⟩ | ⟨k, -, hk⟩
  · omega
  · rcases Nat.lt_or_ge k skip.length with hin | hout
    · -- a packet before `n`
      have hbefore := hlt k hin
      rw [List.take_append_of_le_length (Nat.le_of_lt hin)] at hk
      omega
    · -- a packet behind the skipped ones
      obtain ⟨m, rfl⟩ := Nat.exists_eq_add_of_le hout
      rw [List.take_length_add_append, List.flatMap_append, List.length_append] at hk
      omega

/-- **Resynchronisation**: of a run of packets that holds no other headers, all packets behind the first
`announcedMax` bytes are written. -/
theorem runSteps_in_step {pieces : List (List UInt8)} (hwait : Waiting logBuf) (hbound : BoundedWait logBuf)
    (hpieces : ∀ c ∈ pieces, c.length ≤ maxPiece) (hstream : pieces.flatten = ps.flatMap SmpPacket.bytes)
    (hstray : NoStrayHeader logBuf ps) {front back : List SmpPacket} (hps : ps = front ++ back)
    (hfront : announcedMax ≤ (front.flatMap SmpPacket.bytes).length) :
    ∃ out, (runSteps unisocProcLogBuf logBuf pieces).2 = out ++ back.map fun p => logRecord p.data := by
  rcases hwait with hshort | ⟨haccepted, hwait⟩
  · -- the parser waits for a header: every packet is written
    have hrun := runSteps_resync pieces logBuf ps (logBuf.length + 1) logBuf 0 hpieces (Nat.zero_le _) (by omega)
      (hstray.short hshort) (by rw [List.drop_zero, hstream])
    rw [procLogLoop_short _ (by omega)] at hrun
    refine ⟨front.map fun p => logRecord p.data, ?_⟩
    rw [← List.map_append, ← hps]
    exact hrun
  · -- the packet waited for ends inside the run
    have hfull : 12 ≤ logBuf.length := by
      have := haccepted.1
      omega
    have hmax := hbound hfull
    have hlong : 4 + pktLenAt logBuf 0 - logBuf.length ≤ (ps.flatMap SmpPacket.bytes).length := by
      rw [hps, List.flatMap_append, List.length_append]
      omega
    obtain ⟨skip, rest, hsplit, hle, hlt⟩ := exists_next_packet ps _ hlong
    subst hsplit
    have hin : 4 + pktLenAt logBuf 0 ≤ (logBuf ++ skip.flatMap SmpPacket.bytes).length := by
      rw [List.length_append]
      omega
    have hjunk := hstray.between (show 0 < 4 + pktLenAt logBuf 0 by omega) (by omega)
      fun k hk => by
        have hk' := hlt k hk
        omega
    obtain ⟨rec, hrun⟩ := runSteps_completes pieces logBuf
      ((logBuf ++ skip.flatMap SmpPacket.bytes).take (4 + pktLenAt logBuf 0)) _ rest hpieces haccepted hwait hmax
      (List.length_take_of_le hin) hjunk
      (by rw [hstream, ← List.append_assoc, List.take_append_drop, List.flatMap_append, List.append_assoc])
    obtain ⟨mid, rfl, rfl⟩ | ⟨mid, rfl, rfl⟩ := List.append_eq_append_iff.mp hps
    · refine ⟨rec :: mid.map fun p => logRecord p.data, ?_⟩
      rw [hrun, List.map_append]
      rfl
    · -- no packet of `back` is skipped: `front` reaches as far as the packet waited for
      cases mid with
      | nil => exact ⟨[rec], hrun⟩
      | cons p mid =>
          have hbefore := hlt front.length (by rw [List.length_append, List.length_cons]; omega)
          rw [List.take_left] at hbefore
          omega

end InStep

/-! ## The channel -/

/-- The calls of `unisoc_proc_log_buf` for the chunks of the channel. -/
def channelPieces (chunks : List (List UInt8)) : List (List UInt8) :=
  chunks.flatMap fun buf => logPieces buf.length buf

theorem runSteps_unisocLogSave_eq (logBuf : List UInt8) (chunks : List (List UInt8)) :
    runSteps unisocLogSave logBuf chunks = runSteps unisocProcLogBuf logBuf (channelPieces chunks) :=
  runSteps_flatMap unisocProcLogBuf (fun buf : List UInt8 => logPieces buf.length buf) logBuf chunks

theorem flatten_channelPieces (chunks : List (List UInt8)) :
    (channelPieces chunks).flatten = chunks.flatten := by
  induction chunks with
  | nil => rfl
  | cons buf chunks ih =>
      rw [channelPieces, List.flatMap_cons, List.flatten_append, flatten_logPieces _ _ (Nat.le_refl _),
        List.flatten_cons]
      exact congrArg (buf ++ ·) ih

theorem length_le_of_mem_channelPieces (chunks : List (List UInt8)) :
    ∀ c ∈ channelPieces chunks, c.length ≤ maxPiece := by
  intro c hc
  obtain ⟨buf, -, hc⟩ := List.mem_flatMap.mp hc
  exact length_le_of_mem_logPieces _ _ c hc

theorem channelPieces_append (chunks more : List (List UInt8)) :
    channelPieces (chunks ++ more) = channelPieces chunks ++ channelPieces more :=
  List.flatMap_append

/-- A chunk that is not too long is one piece. -/
theorem channelPieces_singleton {buf : List UInt8} (hne : buf ≠ []) (hlen : buf.length ≤ maxPiece) :
    channelPieces [buf] = [buf] := by
  have hpos : 0 < buf.length := List.length_pos_iff.mpr hne
  obtain ⟨n, hn⟩ := Nat.exists_eq_succ_of_ne_zero (Nat.ne_of_gt hpos)
  rw [channelPieces, List.flatMap_singleton, hn, logPieces, if_neg hne, List.take_of_length_le hlen,
    List.drop_of_length_le hlen]
  cases n with
  | zero => rfl
  | succ n => rw [logPieces, if_pos rfl]

/-- Between two chunks the parser waits, too. -/
theorem waiting_runSteps (pieces : List (List UInt8)) : Waiting (runSteps unisocProcLogBuf [] pieces).1 := by
  have hstep : ∀ logBuf piece, Waiting logBuf → Waiting (unisocProcLogBuf logBuf piece).1 :=
    fun _ piece h => h.unisocProcLogBuf piece
  exact runSteps_invariant unisocProcLogBuf hstep [] pieces (Or.inl (Nat.succ_pos _))

/-- **The parser does not wedge while it waits for bounded packets**: if in no state of a run the parser waits for
a packet of more than `announcedMax` bytes, no piece is discarded. When the run ends in packets, longer than the
buffer together, something is written for them, and where no further header is accepted inside them all packets
behind the first `announcedMax` bytes are written, in order and at the end. -/
theorem unisocLogSave_resumes (chunks more : List (List UInt8)) (ps : List SmpPacket)
    (hmore : more.flatten = ps.flatMap SmpPacket.bytes)
    (hbound : Along unisocProcLogBuf (fun logBuf _ => BoundedWait logBuf) [] (channelPieces (chunks ++ more))) :
    Along unisocProcLogBuf PieceFits [] (channelPieces (chunks ++ more)) ∧
      (unisocLogMax < more.flatten.length →
        (runSteps unisocLogSave (runSteps unisocLogSave [] chunks).1 more).2.flatten ≠ []) ∧
      (NoStrayHeader (runSteps unisocLogSave [] chunks).1 ps →
        ∀ front back, ps = front ++ back → announcedMax ≤ (front.flatMap SmpPacket.bytes).length →
          ∃ out, (runSteps unisocLogSave (runSteps unisocLogSave [] chunks).1 more).2
            = out ++ back.map fun p => logRecord p.data) := by
  have hwait := waiting_runSteps (channelPieces chunks)
  have hpieces := length_le_of_mem_channelPieces more
  have hstream := (flatten_channelPieces more).trans hmore
  have hfits := along_pieceFits _ [] (Or.inl (Nat.succ_pos _)) (length_le_of_mem_channelPieces _) hbound
  rw [channelPieces_append, along_append] at hbound
  rw [runSteps_unisocLogSave_eq, runSteps_unisocLogSave_eq]
  refine ⟨hfits, fun hlong => ?_, fun hstray front back hps hfront => ?_⟩
  · rw [← flatten_channelPieces more] at hlong
    exact runSteps_writes hwait hpieces hstream hbound.2 hlong
  · have hfirst : BoundedWait (runSteps unisocProcLogBuf [] (channelPieces chunks)).1 := by
      cases hcalls : channelPieces more with
      | nil =>
          -- no bytes, so `front` is not that long
          rw [hcalls, hps, List.flatMap_append] at hstream
          rw [(List.append_eq_nil_iff.mp hstream.symm).1] at hfront
          exact absurd hfront (Nat.not_succ_le_zero _)
      | cons c pieces =>
          rw [hcalls] at hbound
          exact hbound.2.1
    exact runSteps_in_step hwait hfirst hpieces hstream hstray hps hfront

/-- A packet without data. -/
def emptyPacket : SmpPacket where
  header := ⟨[0x08, 0x00, 0x00, 0x00, 0x5A, 0x5A, 0x9D, 0xA5], rfl⟩
  data := []
  accepted := by decide
  len := by decide
  le_max := by decide

theorem length_replicate_emptyPacket (n : Nat) :
    ((List.replicate n emptyPacket).flatMap SmpPacket.bytes).length = 12 * n := by
  have hblock : ∀ p ∈ List.replicate n emptyPacket, p.bytes.length = 12 := by
    intro p hp
    rw [List.eq_of_mem_replicate hp, SmpPacket.length_bytes]
    rfl
  rw [length_flatMap_block SmpPacket.bytes _ hblock, List.length_replicate]

/-- An accepted header that announces 32 bytes, without them. -/
def loneHeader : List UInt8 := agStartFlag ++ [0x20, 0x00, 0x00, 0x00, 0x5A, 0x5A, 0x85, 0xA5]

theorem unisocProcLogBuf_loneHeader : unisocProcLogBuf [] ([1, 2, 3] ++ loneHeader) = (loneHeader, []) := by decide

/-- Two packets are taken for the data of the header, and the parser is back in step behind them. -/
theorem unisocProcLogBuf_emptyPacket :
    unisocProcLogBuf loneHeader emptyPacket.bytes = (loneHeader ++ emptyPacket.bytes, []) ∧
      (unisocProcLogBuf (loneHeader ++ emptyPacket.bytes) emptyPacket.bytes).1 = [] ∧
      unisocProcLogBuf [] emptyPacket.bytes = ([], [logRecord []]) := by decide

/-- The states in which empty packets are read behind the header announce little. -/
theorem along_boundedWait_emptyPacket (n : Nat) {logBuf : List UInt8}
    (h : logBuf = loneHeader ∨ logBuf = loneHeader ++ emptyPacket.bytes ∨ logBuf = []) :
    Along unisocProcLogBuf (fun logBuf _ => BoundedWait logBuf) logBuf (List.replicate n emptyPacket.bytes) := by
  obtain ⟨hheader, hdata, hpacket⟩ := unisocProcLogBuf_emptyPacket
  induction n generalizing logBuf with
  | zero => trivial
  | succ n ih =>
      rw [List.replicate_succ]
      obtain rfl | rfl | rfl := h
      · exact ⟨fun _ => by decide, ih (by rw [hheader]; exact Or.inr (Or.inl rfl))⟩
      · exact ⟨fun _ => by decide, ih (by rw [hdata]; exact Or.inr (Or.inr rfl))⟩
      · exact ⟨fun hfull => absurd hfull (by decide), ih (by rw [hpacket]; exact Or.inr (Or.inr rfl))⟩

theorem channelPieces_replicate_emptyPacket (n : Nat) :
    channelPieces (List.replicate n emptyPacket.bytes) = List.replicate n emptyPacket.bytes := by
  induction n with
  | zero => rfl
  | succ n ih =>
      rw [List.replicate_succ, ← List.singleton_append, channelPieces_append,
        channelPieces_singleton (by decide) (by decide), ih]

theorem flatten_replicate_emptyPacket (n : Nat) :
    (List.replicate n emptyPacket.bytes).flatten = (List.replicate n emptyPacket).flatMap SmpPacket.bytes := by
  rw [List.flatMap_def, List.map_replicate]

/-- A block with a flag in front and no byte of a flag behind it. -/
def FlagFront (block : List UInt8) : Prop := block.length = 12 ∧ ∀ k < 12, block[k]? = some 0x7E → k < 4

instance (block : List UInt8) : Decidable (FlagFront block) :=
  inferInstanceAs (Decidable (_ ∧ ∀ k < 12, _))

/-- In blocks of this kind a header starts only where a block does. -/
theorem acceptedAt_flagFront {blocks : List (List UInt8)} (hblocks : ∀ b ∈ blocks, FlagFront b) {i : Nat}
    (h : AcceptedAt (blocks.flatMap id) i) : ∃ k < blocks.length, i = 12 * k := by
  have hsize : ∀ b ∈ blocks, (id b).length = 12 := fun b hb => (hblocks b hb).1
  have hlength := length_flatMap_block id blocks hsize
  have hend := h.1
  -- every byte of the flag at `i` is one of the first four of its block
  have hbyte : ∀ j < 4, (i + j) % 12 < 4 := by
    intro j hj
    obtain ⟨k, hk⟩ : ∃ k, k = (i + j) / 12 := ⟨_, rfl⟩
    have hcell : 12 * k + (i + j) % 12 = i + j := by omega
    have hin : k < blocks.length := by omega
    have hget : blocks[k]? = some blocks[k] := List.getElem?_eq_getElem hin
    have hmod : (i + j) % 12 < 12 := Nat.mod_lt _ (by decide)
    have hvalue : (blocks.flatMap id)[i + j]? = some 0x7E := by
      rw [← getElem?_window _ (show i + j < i + 4 by omega), h.2.1]
      have hall : agStartFlag = List.replicate 4 0x7E := rfl
      rw [hall, List.getElem?_replicate, if_pos hj]
    rw [← hcell, getElem?_flatMap_block id blocks hsize hget hmod] at hvalue
    exact (hblocks _ (List.getElem_mem hin)).2 _ hmod hvalue
  have hfirst := hbyte 0 (by decide)
  have hlast := hbyte 3 (by decide)
  exact ⟨i / 12, by omega, by omega⟩

theorem noStrayHeader_loneHeader (n : Nat) : NoStrayHeader loneHeader (List.replicate n emptyPacket) := by
  intro i haccepted
  have hblocks : ∀ b ∈ loneHeader :: List.replicate n emptyPacket.bytes, FlagFront b := by
    intro b hb
    obtain rfl | hb := List.mem_cons.mp hb
    · decide
    · rw [List.eq_of_mem_replicate hb]
      decide
  have hbytes : loneHeader ++ (List.replicate n emptyPacket).flatMap SmpPacket.bytes
      = (loneHeader :: List.replicate n emptyPacket.bytes).flatMap id := by
    rw [← flatten_replicate_emptyPacket, List.flatMap_id, List.flatten_cons]
  rw [hbytes] at haccepted
  obtain ⟨k, hk, rfl⟩ := acceptedAt_flagFront hblocks haccepted
  rw [List.length_cons, List.length_replicate] at hk
  cases k with
  | zero => exact Or.inl ⟨rfl, by decide⟩
  | succ k =>
      refine Or.inr ⟨k, by rw [List.length_replicate]; omega, ?_⟩
      rw [List.take_replicate, length_replicate_emptyPacket, Nat.min_eq_left (by omega)]
      show 12 * (k + 1) = 12 + 12 * k
      omega

/-- Noise whose last twelve bytes are an accepted header, and a run of packets that is longer than the buffer: two
packets are lost, and the last 400 are written among others. -/
theorem unisocLogSave_resumes_after_noise :
    Along unisocProcLogBuf PieceFits []
        (channelPieces ([[1, 2, 3] ++ loneHeader] ++ List.replicate 2110 emptyPacket.bytes)) ∧
      (runSteps unisocLogSave (runSteps unisocLogSave [] [[1, 2, 3] ++ loneHeader]).1
        (List.replicate 2110 emptyPacket.bytes)).2.flatten ≠ [] ∧
      ∃ out, (runSteps unisocLogSave (runSteps unisocLogSave [] [[1, 2, 3] ++ loneHeader]).1
          (List.replicate 2110 emptyPacket.bytes)).2 = out ++ List.replicate 400 [0, 0, 0, 0] := by
  have hnoise : (runSteps unisocProcLogBuf [] (channelPieces [[1, 2, 3] ++ loneHeader])).1 = loneHeader := by
    rw [channelPieces_singleton (by decide) (by decide), runSteps_singleton, unisocProcLogBuf_loneHeader]
  have hlong : unisocLogMax < (List.replicate 2110 emptyPacket.bytes).flatten.length := by
    rw [flatten_replicate_emptyPacket, length_replicate_emptyPacket]
    decide
  have hfront : announcedMax ≤ ((List.replicate 1710 emptyPacket).flatMap SmpPacket.bytes).length := by
    rw [length_replicate_emptyPacket]
    decide
  obtain ⟨hfits, hwrites, hstep⟩ := unisocLogSave_resumes [[1, 2, 3] ++ loneHeader]
    (List.replicate 2110 emptyPacket.bytes) (List.replicate 2110 emptyPacket) (flatten_replicate_emptyPacket 2110)
    (by
      rw [channelPieces_append, along_append, hnoise, channelPieces_replicate_emptyPacket,
        channelPieces_singleton (by decide) (by decide)]
      exact ⟨⟨fun hfull => absurd hfull (by decide), trivial⟩,
        along_boundedWait_emptyPacket 2110 (Or.inl rfl)⟩)
  refine ⟨hfits, hwrites hlong, ?_⟩
  rw [runSteps_unisocLogSave_eq [], hnoise] at hstep ⊢
  obtain ⟨out, hout⟩ := hstep (noStrayHeader_loneHeader 2110) (List.replicate 1710 emptyPacket)
    (List.replicate 400 emptyPacket) (by rw [List.replicate_append_replicate]) hfront
  rw [List.map_replicate] at hout
  exact ⟨out, hout⟩

/-- Where no piece of a run is discarded, the last one is not. -/
theorem pieceFits_of_along {logBuf left piece : List UInt8} {chunks : List (List UInt8)} {saved : List (List UInt8)}
    (hrun : runSteps unisocProcLogBuf logBuf (channelPieces chunks) = (left, saved)) (hne : piece ≠ [])
    (hlen : piece.length ≤ maxPiece)
    (h : Along unisocProcLogBuf PieceFits logBuf (channelPieces (chunks ++ [piece]))) : PieceFits left piece := by
  rw [channelPieces_append, along_append, hrun, channelPieces_singleton hne hlen] at h
  exact h.2.1

/-- The bound is sharp: behind a header that announces more, some continuation has a piece discarded. -/
theorem exists_discard {logBuf : List UInt8} (hwait : Waiting logBuf) (hlen : logBuf.length ≤ unisocLogMax)
    (h : ¬ BoundedWait logBuf) : ∃ chunk, ¬ Along unisocProcLogBuf PieceFits logBuf (channelPieces chunk) := by
  rw [BoundedWait, Classical.not_imp, Nat.not_le] at h
  obtain ⟨hfull, hmax⟩ := h
  obtain hshort | ⟨haccepted, hwait⟩ := hwait
  · omega
  -- fill the buffer up to the last byte that does not complete the packet, then send a whole piece
  set fill := List.replicate (min (3 + pktLenAt logBuf 0) unisocLogMax - logBuf.length) (0 : UInt8) with hfill
  set piece := List.replicate maxPiece (0 : UInt8) with hpiece
  refine ⟨[fill, piece], fun hfits => ?_⟩
  have hflat : (channelPieces [fill]).flatten = fill := by
    rw [flatten_channelPieces, List.flatten_singleton]
  have hlong : (logBuf ++ fill).length = min (3 + pktLenAt logBuf 0) unisocLogMax := by
    rw [List.length_append, hfill, List.length_replicate]
    omega
  have hstill : Waiting (logBuf ++ fill) := by
    right
    rw [acceptedAt_append fill haccepted.1, pktLenAt_append fill hfull, hlong]
    exact ⟨haccepted, by omega⟩
  have hrun := runSteps_waits (channelPieces [fill]) logBuf (by rwa [hflat]) (by rw [hflat, hlong]; omega)
  have hsize : piece.length = maxPiece := List.length_replicate
  have hne : piece ≠ [] := List.ne_nil_of_length_pos (by rw [hsize]; exact Nat.succ_pos _)
  have hlast := pieceFits_of_along hrun hne (Nat.le_of_eq hsize) hfits
  rw [hflat, PieceFits, hlong, hsize] at hlast
  have hbig : 24 * 1024 - 2028 * 2 - 4 + 1 < pktLenAt logBuf 0 := hmax
  have hroom : min (3 + pktLenAt logBuf 0) (24 * 1024) + 2028 * 2 ≤ 24 * 1024 := hlast
  omega

/-! ## A wedge -/

/-- A header that announces 65535 bytes, with zeros up to the end of the buffer. -/
def wedgeStream : List UInt8 :=
  agStartFlag ++ [0xFF, 0xFF, 0x00, 0x00, 0x5A, 0x5A, 0xA5, 0xA5] ++ List.replicate (unisocLogMax - 12) 0

theorem length_wedgeStream : wedgeStream.length = unisocLogMax := by
  rw [wedgeStream, List.length_append, List.length_replicate]
  rfl

theorem waiting_wedgeStream : Waiting wedgeStream := by
  have hfull : 12 ≤ (agStartFlag ++ [0xFF, 0xFF, 0x00, 0x00, 0x5A, 0x5A, 0xA5, 0xA5]).length := by decide
  right
  rw [length_wedgeStream, wedgeStream, acceptedAt_append _ hfull, pktLenAt_append _ hfull, AcceptedAt]
  decide

/-- Nothing gets past it. -/
theorem runSteps_wedgeStream (pieces : List (List UInt8)) :
    runSteps unisocProcLogBuf wedgeStream pieces = (wedgeStream, []) := by
  induction pieces with
  | nil => rfl
  | cons c pieces ih =>
      have hcall : unisocProcLogBuf wedgeStream c = (wedgeStream, []) := by
        cases c with
        | nil =>
            rw [unisocProcLogBuf_waits, List.append_nil]
            · rw [List.append_nil]
              exact waiting_wedgeStream
            · rw [PieceFits, length_wedgeStream]
              exact Nat.le_refl _
        | cons b c =>
            apply if_pos
            rw [← List.length_pos_iff, length_wedgeStream, List.length_cons]
            exact ⟨Nat.succ_pos _, by omega⟩
      rw [runSteps_cons, hcall, ih]
      rfl

theorem runSteps_fill_wedgeStream :
    runSteps unisocProcLogBuf [] (channelPieces [wedgeStream]) = (wedgeStream, []) := by
  have hflat : [] ++ (channelPieces [wedgeStream]).flatten = wedgeStream := by
    rw [flatten_channelPieces, List.flatten_singleton, List.nil_append]
  have hwaits := runSteps_waits (channelPieces [wedgeStream]) []
  rw [hflat] at hwaits
  exact hwaits waiting_wedgeStream (Nat.le_of_eq length_wedgeStream)

/-- A reachable state in which a piece does not fit. -/
theorem not_forall_pieceFits {left piece : List UInt8} {chunks saved : List (List UInt8)}
    (hrun : runSteps unisocProcLogBuf [] (channelPieces chunks) = (left, saved)) (hne : piece ≠ [])
    (hlen : piece.length ≤ maxPiece) (h : ¬ PieceFits left piece) :
    ¬ ∀ chunks, Along unisocProcLogBuf PieceFits [] (channelPieces chunks) :=
  fun hall => h (pieceFits_of_along hrun hne hlen (hall _))

/-- One corrupted header is enough: afterwards every piece is discarded, and no packet is ever written again. -/
theorem unisocLogSave_wedges :
    (¬ ∀ chunks, Along unisocProcLogBuf PieceFits [] (channelPieces chunks)) ∧
      ¬ ∀ chunks, ∃ n, ∀ (more : List (List UInt8)) (ps : List SmpPacket),
        more.flatten = ps.flatMap SmpPacket.bytes → n ≤ more.flatten.length →
          (runSteps unisocLogSave (runSteps unisocLogSave [] chunks).1 more).2 ≠ [] := by
  constructor
  · refine not_forall_pieceFits runSteps_fill_wedgeStream (List.cons_ne_nil 0 []) (by decide) ?_
    rw [PieceFits, length_wedgeStream]
    exact Nat.not_succ_le_self unisocLogMax
  · intro h
    obtain ⟨n, hn⟩ := h [wedgeStream]
    refine hn [(List.replicate n emptyPacket).flatMap SmpPacket.bytes] (List.replicate n emptyPacket) ?_ ?_ ?_
    · rw [List.flatten_singleton]
    · rw [List.flatten_singleton, length_replicate_emptyPacket]
      omega
    · rw [runSteps_unisocLogSave_eq, runSteps_unisocLogSave_eq, runSteps_fill_wedgeStream, runSteps_wedgeStream]

end QLog
