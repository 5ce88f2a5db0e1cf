import QLog.Diag.SendCmd

/-! # Progress of `mdm_send_cmd`

Every round of the outer loop sends a frame and goes on behind it, whatever becomes of the write and of the answer that
is waited for. It comes no further only at a frame whose length overflows to zero: its last byte is then taken to be the
one before the frame, and that is the `7E` the frame before has ended with. -/

namespace QLog.MdmCmd

/-- What a round of the loop meets. The results of the writes are not looked at. -/
structure SendRound where
  /-- `qlog_exit_requested == 1` -/
  exitRequested : Bool
  /-- `diag_cond_timeout` -/
  timedOut : Bool

/-- The locals of the loop. -/
structure SendState where
  wc : Nat
  retryTime : Nat
deriving DecidableEq

variable (c : MdmCmd)

/-- `buf[flag] == 0x7E || flag == size` -/
def sends (wc : Nat) : Bool := c.buf (c.flag wc) == 0x7E || c.flag wc == c.size

/-- A round of the loop, if there is one. -/
def sendRound (sync : Bool) (s : SendState) (r : SendRound) : Option SendState :=
  if s.wc < c.size then
    if r.exitRequested then none
    -- `retry_time` is never set back
    else if 3 < s.retryTime then none
    else
      some {
        wc := c.next s.wc
        retryTime := if sync && c.sends s.wc && r.timedOut then (s.retryTime + 1) % 2 ^ 16 else s.retryTime }
  else none

/-- The states behind the rounds of the loop. -/
def sendRounds (sync : Bool) : SendState → List SendRound → List SendState
  | _, [] => []
  | s, r :: rs =>
      match c.sendRound sync s r with
      | none => []
      | some s' => s' :: sendRounds sync s' rs

/-- The state in front of the loop. -/
def sendStart : SendState := ⟨0, 0⟩

/-- **The call ends**: `wc` grows in every round, whatever the rounds meet, and there are no more of them than bytes. -/
def Advances (sync : Bool) : Prop :=
  ∀ rs, (sendStart :: c.sendRounds sync sendStart rs).IsChain (fun before after => before.wc < after.wc) ∧
    (c.sendRounds sync sendStart rs).length ≤ c.size

section Progress

variable {c : MdmCmd} {sync : Bool} {wc : Nat}

theorem searchStart_le (hmore : wc < c.size) : wc ≤ c.searchStart wc ∧ c.searchStart wc ≤ c.size := by
  rw [searchStart]
  split <;> omega

/-- The search for the end of a frame starts in the buffer and stays in it. -/
theorem findFlag_bounds (hmore : wc < c.size) :
    wc ≤ c.findFlag (c.size - c.searchStart wc) (c.searchStart wc) ∧
      c.findFlag (c.size - c.searchStart wc) (c.searchStart wc) ≤ c.size := by
  obtain ⟨hle, hin⟩ := searchStart_le hmore
  obtain ⟨hfrom, hto, -, -⟩ := c.findFlag_spec (c.size - c.searchStart wc) (c.searchStart wc)
  exact ⟨Nat.le_trans hle hfrom, by omega⟩

/-- The byte that is taken for the last one of the frame is the one before it. -/
theorem lastIndex_zeroLength (hzero : c.ZeroLength wc) : c.lastIndex wc = (wc + 2 ^ 64 - 1) % 2 ^ 64 := by
  have hlen : c.len wc = 0 := len_eq_zero.mpr hzero.2.2
  simp only [lastIndex, hlen, Nat.add_zero]

/-- A frame whose length overflows to zero leads back to itself, behind a `7E`. -/
theorem next_zeroLength (hsize : c.size < 2 ^ 64) (hmore : wc < c.size) (hzero : c.ZeroLength wc)
    (hprev : c.buf ((wc + 2 ^ 64 - 1) % 2 ^ 64) = 0x7E) : c.next wc = wc := by
  have hlook : c.looksAhead wc = true := by
    simp [looksAhead, hzero.1, hzero.2.1, len_eq_zero.mpr hzero.2.2, Nat.le_of_lt hmore]
  have hlength : c.hasLength wc = true := by
    rw [hasLength, hlook, lastIndex_zeroLength hzero, hprev]
    rfl
  rw [next, flag, if_pos hlength, lastIndex_zeroLength hzero]
  omega

/-- Any other frame is got past. -/
theorem lt_next (hsize : c.size < 2 ^ 63) (hmore : wc < c.size)
    (hzero : c.ZeroLength wc → c.buf ((wc + 2 ^ 64 - 1) % 2 ^ 64) ≠ 0x7E) :
    wc < c.next wc ∧ c.next wc ≤ c.size + 1 := by
  have hflag : wc ≤ c.flag wc ∧ c.flag wc ≤ c.size := by
    rw [flag]
    split
    · next hlength =>
        simp only [hasLength, looksAhead, Bool.and_eq_true, beq_iff_eq, decide_eq_true_eq] at hlength
        obtain ⟨⟨⟨h0, h1⟩, hle⟩, hlast⟩ := hlength
        -- a length of zero would lead back to `wc`
        have hpos : c.len wc ≠ 0 := by
          intro hlen
          obtain ⟨h2, h3⟩ := len_eq_zero.mp hlen
          have hback : c.ZeroLength wc := ⟨h0, h1, h2, h3⟩
          rw [lastIndex_zeroLength hback] at hlast
          exact hzero hback hlast
        rw [lastIndex]
        omega
    · exact findFlag_bounds hmore
  rw [next, Nat.mod_eq_of_lt (by omega)]
  omega

/-- A frame inside the buffer starts behind a `7E`, if it is not the first. -/
theorem buf_before_next (hsize : c.size < 2 ^ 64) (hmore : wc < c.size) (hnext : c.next wc < c.size)
    (hpos : c.next wc ≠ 0) : c.buf (c.next wc - 1) = 0x7E := by
  have hflag : c.flag wc < 2 ^ 64 := by
    rw [flag]
    split
    · exact Nat.mod_lt _ (by omega)
    · exact Nat.lt_of_le_of_lt (findFlag_bounds hmore).2 hsize
  have hlast : c.next wc - 1 = c.flag wc := by
    rw [next] at hpos ⊢
    omega
  rw [hlast]
  exact buf_flag hmore (by omega)

/-- A round of the loop goes on to the next frame. -/
theorem sendRound_eq_some {s s' : SendState} {r : SendRound} (h : c.sendRound sync s r = some s') :
    s.wc < c.size ∧ s'.wc = c.next s.wc := by
  rw [sendRound] at h
  split at h
  · next hmore =>
      split at h
      · cases h
      · split at h
        · cases h
        · obtain rfl := Option.some.inj h
          exact ⟨hmore, rfl⟩
  · cases h

/-- Nothing keeps the loop from going on. -/
theorem sendRound_quiet (hmore : wc < c.size) : c.sendRound sync ⟨wc, 0⟩ ⟨false, false⟩ = some ⟨c.next wc, 0⟩ := by
  simp [sendRound, hmore]

/-- Where no frame ahead leads back to itself, every round advances. -/
theorem sendRounds_advance (hsize : c.size < 2 ^ 63) (rs : List SendRound) (s : SendState)
    (h : ∀ wc, c.FrameFrom s.wc wc → wc < c.size →
      c.ZeroLength wc → c.buf ((wc + 2 ^ 64 - 1) % 2 ^ 64) ≠ 0x7E) :
    (s :: c.sendRounds sync s rs).IsChain (fun before after => before.wc < after.wc) ∧
      (c.sendRounds sync s rs).length ≤ c.size - s.wc := by
  induction rs generalizing s with
  | nil => exact ⟨List.isChain_singleton s, Nat.zero_le _⟩
  | cons r rs ih =>
      rw [sendRounds]
      split
      · exact ⟨List.isChain_singleton s, Nat.zero_le _⟩
      · next s' hround =>
          obtain ⟨hmore, hnext⟩ := sendRound_eq_some hround
          obtain ⟨hlt, hle⟩ := lt_next hsize hmore (h s.wc (FrameFrom.refl s.wc) hmore)
          rw [← hnext] at hlt hle
          obtain ⟨hchain, hlength⟩ := ih s' fun wc hfrom => h wc (FrameFrom.next hmore (hnext ▸ hfrom))
          refine ⟨List.isChain_cons_cons.mpr ⟨hlt, hchain⟩, ?_⟩
          rw [List.length_cons]
          omega

/-- Where every round advances, no frame ahead leads back to itself. -/
theorem lt_next_of_advance {wc' : Nat} (hfrom : c.FrameFrom wc wc')
    (h : ∀ rs, (⟨wc, 0⟩ :: c.sendRounds sync ⟨wc, 0⟩ rs).IsChain (fun before after => before.wc < after.wc))
    (hmore : wc' < c.size) : wc' < c.next wc' := by
  induction hfrom with
  | refl wc =>
      have hone := h [⟨false, false⟩]
      rw [sendRounds, sendRound_quiet hmore] at hone
      exact (List.isChain_cons_cons.mp hone).1
  | next hstart hfrom ih =>
      refine ih (fun rs => ?_) hmore
      have hrest := h (⟨false, false⟩ :: rs)
      rw [sendRounds, sendRound_quiet hstart] at hrest
      exact (List.isChain_cons_cons.mp hrest).2

/-- The frames of the loop start behind a `7E`, but for the first. -/
theorem buf_before_frame (hsize : c.size < 2 ^ 64) {wc' : Nat} (hfrom : c.FrameFrom wc wc')
    (hprev : wc ≠ 0 → c.buf (wc - 1) = 0x7E) (hmore : wc' < c.size) (hpos : wc' ≠ 0) : c.buf (wc' - 1) = 0x7E := by
  induction hfrom with
  | refl wc => exact hprev hpos
  | next hstart hfrom ih =>
      -- only a frame inside the buffer has a frame behind it
      refine ih (fun hnext => ?_) hmore hpos
      rcases Nat.lt_or_ge (c.next _) c.size with hin | hout
      · exact buf_before_next hsize hstart hin hnext
      · cases hfrom with
        | refl => exact absurd hmore (Nat.not_lt.mpr hout)
        | next hin _ => exact absurd hin (Nat.not_lt.mpr hout)

/-- **When the call ends**: no frame starts with `7E 01 FB FF`, but for the first one of a buffer that has no `7E` in
front of it in memory. No buffer in memory has `2 ^ 63` bytes. -/
theorem mdmSendCmd_advances_iff (c : MdmCmd) (sync : Bool) (hsize : c.size < 2 ^ 63) :
    c.Advances sync ↔ ∀ wc, c.FrameFrom 0 wc → wc < c.size → c.ZeroLength wc →
      wc = 0 ∧ c.buf (2 ^ 64 - 1) ≠ 0x7E := by
  constructor
  · intro h wc hfrom hmore hzero
    have hlt := lt_next_of_advance hfrom (fun rs => (h rs).1) hmore
    have hprev : c.buf ((wc + 2 ^ 64 - 1) % 2 ^ 64) ≠ 0x7E := by
      intro hprev
      rw [next_zeroLength (by omega) hmore hzero hprev] at hlt
      exact Nat.lt_irrefl wc hlt
    have hfirst : wc = 0 := by
      by_contra hpos
      apply hprev
      have hindex : (wc + 2 ^ 64 - 1) % 2 ^ 64 = wc - 1 := by omega
      rw [hindex]
      exact buf_before_frame (by omega) hfrom (fun hx => absurd rfl hx) hmore hpos
    refine ⟨hfirst, ?_⟩
    rw [hfirst] at hprev
    exact hprev
  · intro h rs
    refine sendRounds_advance hsize rs sendStart fun wc hfrom hmore hzero => ?_
    obtain ⟨rfl, hprev⟩ := h wc hfrom hmore hzero
    exact hprev

end Progress

/-- A frame with a length, followed by one without. -/
theorem mdmSendCmd_advances_twoFrames :
    (ofBytes [0x7E, 0x01, 0x03, 0x00, 0x4B, 0x7E, 0x00, 0x7E, 0x4B, 0x12, 0x7E] true).Advances true := by
  refine (mdmSendCmd_advances_iff _ true (by decide)).mpr fun wc hfrom hmore hzero => ?_
  have hfirst : (ofBytes [0x7E, 0x01, 0x03, 0x00, 0x4B, 0x7E, 0x00, 0x7E, 0x4B, 0x12, 0x7E] true).next 0 = 8 := by
    decide
  have hsecond : (ofBytes [0x7E, 0x01, 0x03, 0x00, 0x4B, 0x7E, 0x00, 0x7E, 0x4B, 0x12, 0x7E] true).next 8 = 11 := by
    decide
  cases hfrom with
  | refl => exact absurd hzero (by decide)
  | next _ hfrom =>
      rw [hfirst] at hfrom
      cases hfrom with
      | refl => exact absurd hzero (by decide)
      | next _ hfrom =>
          rw [hsecond] at hfrom
          cases hfrom with
          | refl => exact absurd hmore (by decide)
          | next hbelow _ => exact absurd hbelow (by decide)

/-- A frame `7E 01 FB FF` behind another is sent for ever. -/
theorem not_mdmSendCmd_advances :
    ¬ ∀ (c : MdmCmd) (sync : Bool), c.size < 2 ^ 63 → c.Advances sync := by
  intro h
  have hback : (ofBytes [0x4B, 0x12, 0x00, 0x7E, 0x7E, 0x01, 0xFB, 0xFF, 0x7E] false).next 4 = 4 := by decide
  have hfirst : (ofBytes [0x4B, 0x12, 0x00, 0x7E, 0x7E, 0x01, 0xFB, 0xFF, 0x7E] false).next 0 = 4 := by decide
  have hadvance := fun rs =>
    (h (ofBytes [0x4B, 0x12, 0x00, 0x7E, 0x7E, 0x01, 0xFB, 0xFF, 0x7E] false) false (by decide) rs).1
  have hfrom : (ofBytes [0x4B, 0x12, 0x00, 0x7E, 0x7E, 0x01, 0xFB, 0xFF, 0x7E] false).FrameFrom 0 4 := by
    apply FrameFrom.next (by decide)
    rw [hfirst]
    exact FrameFrom.refl 4
  have hlt := lt_next_of_advance hfrom hadvance (by decide)
  rw [hback] at hlt
  exact Nat.lt_irrefl 4 hlt

end QLog.MdmCmd
