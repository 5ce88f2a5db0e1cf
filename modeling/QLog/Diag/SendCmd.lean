import Mathlib.Algebra.Ring.Nat
import Mathlib.Data.List.Basic
import Mathlib.Data.List.Range

/-! # Sending commands to the modem

`mdm_send_cmd` cuts a buffer into frames and writes them one by one. A frame that starts with `7E 01` may be longer
than up to the next `7E`: its length is then taken from the header, if a `7E` stands where that frame would end.

The function looks at bytes of the frame before it knows that they are there. The model keeps the memory behind the
buffer and the indices that are looked at: what is sent is the buffer, and nothing else is touched, exactly under
the conditions of `mdmSendCmd_transparent_iff`. -/

namespace QLog

/-- The call: the bytes in memory from `buf` on, `size`, and whether a TCP tool is connected. -/
structure MdmCmd where
  buf : Nat → UInt8
  size : Nat
  /-- `tty2tcp_sockfd > 0` -/
  connected : Bool

namespace MdmCmd

variable (c : MdmCmd)

/-- `len`, as the 16 bits it is kept in. -/
def len (wc : Nat) : Nat := ((c.buf (wc + 2)).toNat + 256 * (c.buf (wc + 3)).toNat + 5) % 2 ^ 16

/-- The index of `cur[len - 1]`, which lies before `cur` if `len` is zero. -/
def lastIndex (wc : Nat) : Nat := (wc + c.len wc + 2 ^ 64 - 1) % 2 ^ 64

/-- `cur[len - 1]` is looked at. -/
def looksAhead (wc : Nat) : Bool := c.buf wc == 0x7E && c.buf (wc + 1) == 0x01 && wc + c.len wc ≤ c.size

/-- The frame is one of the kind with a length. -/
def hasLength (wc : Nat) : Bool := c.looksAhead wc && c.buf (c.lastIndex wc) == 0x7E

/-- `while (buf[flag] != 0x7E && flag < size) flag++`, with the bytes up to `size` counted. -/
def findFlag : Nat → Nat → Nat
  | 0, flag => flag
  | n + 1, flag => if c.buf flag = 0x7E then flag else findFlag n (flag + 1)

/-- Where the search for the end of a frame starts: behind a `7E` at the very front. -/
def searchStart (wc : Nat) : Nat := if wc = 0 ∧ c.buf 0 = 0x7E then 1 else wc

/-- `flag` behind the search. -/
def flag (wc : Nat) : Nat :=
  if c.hasLength wc then c.lastIndex wc else c.findFlag (c.size - c.searchStart wc) (c.searchStart wc)

/-- The indices of the bytes that are written: `flag - wc + 1` bytes from `wc` on. -/
def written (wc : Nat) : List Nat :=
  if c.buf (c.flag wc) = 0x7E ∨ c.flag wc = c.size then List.range' wc ((c.flag wc + 2 ^ 64 - wc + 1) % 2 ^ 64)
  else []

/-- The indices of the bytes that are looked at. -/
def read (wc : Nat) : List Nat :=
  [wc + 2, wc + 3, wc] ++ (if c.buf wc = 0x7E then [wc + 1] else [])
    ++ (if c.looksAhead wc then [c.lastIndex wc] else [])
    ++ (if c.hasLength wc then [] else List.range' (c.searchStart wc) (c.flag wc - c.searchStart wc + 1))
    ++ [c.flag wc]
    -- the bytes shown when more frames follow
    ++ (if c.connected ∧ c.flag wc + 1 < c.size then List.range' wc 16 else [])

/-- `wc` of the next frame. -/
def next (wc : Nat) : Nat := (c.flag wc + 1) % 2 ^ 64

/-- The outer loop, if it ends after at most so many frames: the indices of the bytes written, and of all bytes
touched. -/
def loop : Nat → Nat → Option (List Nat × List Nat)
  | 0, _ => none
  | n + 1, wc =>
      if wc < c.size then
        (loop n (c.next wc)).map fun r => (c.written wc ++ r.1, c.read wc ++ c.written wc ++ r.2)
      else some ([], [])

/-- The call ends, writes the bytes of the buffer, and touches no byte at `size` or above. -/
def Transparent : Prop :=
  ∃ n written touched, c.loop n 0 = some (written, touched) ∧
    written.map c.buf = (List.range c.size).map c.buf ∧ ∀ i ∈ touched, i < c.size

/-! ## Frames -/

/-- The loop comes from the frame at the first index to the one at the second. -/
inductive FrameFrom : Nat → Nat → Prop
  | refl (wc : Nat) : FrameFrom wc wc
  | next {wc wc' : Nat} : wc < c.size → FrameFrom (c.next wc) wc' → FrameFrom wc wc'

/-- The frame does not claim a length that overflows its 16 bits to zero. -/
def ZeroLength (wc : Nat) : Prop :=
  c.buf wc = 0x7E ∧ c.buf (wc + 1) = 0x01 ∧ c.buf (wc + 2) = 0xFB ∧ c.buf (wc + 3) = 0xFF

instance (wc : Nat) : Decidable (c.ZeroLength wc) := inferInstanceAs (Decidable (_ ∧ _))

/-- At the start of the frame there are as many bytes as are looked at. -/
structure FrameFits (wc : Nat) : Prop where
  four_bytes : wc + 4 ≤ c.size
  not_zeroLength : ¬ c.ZeroLength wc
  shown : c.connected = true → c.flag wc + 1 < c.size → wc + 16 ≤ c.size

section Frame

variable {c}

theorem findFlag_spec (n flag : Nat) :
    flag ≤ c.findFlag n flag ∧ c.findFlag n flag ≤ flag + n ∧
      (c.buf (c.findFlag n flag) = 0x7E ∨ c.findFlag n flag = flag + n) ∧
      ∀ j, flag ≤ j → j < c.findFlag n flag → c.buf j ≠ 0x7E := by
  induction n generalizing flag with
  | zero => exact ⟨Nat.le_refl _, Nat.le_refl _, Or.inr rfl, fun j hlo hhi => absurd hhi (Nat.not_lt.mpr hlo)⟩
  | succ n ih =>
      rw [findFlag]
      split
      · next hflag =>
          exact ⟨Nat.le_refl _, Nat.le_add_right _ _, Or.inl hflag,
            fun j hlo hhi => absurd hhi (Nat.not_lt.mpr hlo)⟩
      · next hflag =>
          obtain ⟨hle, hge, hend, hbefore⟩ := ih (flag + 1)
          refine ⟨by omega, by omega, hend.imp id (fun hx => by omega), fun j hlo hhi => ?_⟩
          rcases Nat.eq_or_lt_of_le hlo with rfl | hlt
          · exact hflag
          · exact hbefore j hlt hhi

/-- A length of zero. -/
theorem len_eq_zero {wc : Nat} : c.len wc = 0 ↔ c.buf (wc + 2) = 0xFB ∧ c.buf (wc + 3) = 0xFF := by
  have h2 := (c.buf (wc + 2)).toNat_lt
  have h3 := (c.buf (wc + 3)).toNat_lt
  rw [← UInt8.toNat_inj, ← UInt8.toNat_inj, len]
  show _ ↔ (c.buf (wc + 2)).toNat = 251 ∧ (c.buf (wc + 3)).toNat = 255
  omega

/-- Where a length is looked at, it is not zero and does not lead out of the buffer. -/
theorem FrameFits.lastIndex_eq {wc : Nat} (h : c.FrameFits wc) (hsize : c.size < 2 ^ 64)
    (hlook : c.looksAhead wc = true) : wc ≤ c.lastIndex wc ∧ c.lastIndex wc < c.size := by
  simp only [looksAhead, Bool.and_eq_true, beq_iff_eq, decide_eq_true_eq] at hlook
  obtain ⟨⟨h0, h1⟩, hle⟩ := hlook
  have hpos : c.len wc ≠ 0 := by
    intro hzero
    obtain ⟨h2, h3⟩ := len_eq_zero.mp hzero
    exact h.not_zeroLength ⟨h0, h1, h2, h3⟩
  have hlast : c.lastIndex wc = wc + c.len wc - 1 := by
    rw [lastIndex]
    omega
  omega

theorem FrameFits.searchStart_lt {wc : Nat} (h : c.FrameFits wc) :
    wc ≤ c.searchStart wc ∧ c.searchStart wc < c.size := by
  have hfour := h.four_bytes
  rw [searchStart]
  split <;> omega

/-- A frame that fits, in a buffer that ends with `7E`, ends inside the buffer. -/
theorem FrameFits.flag_lt {wc : Nat} (h : c.FrameFits wc) (hsize : c.size < 2 ^ 64)
    (hend : c.buf (c.size - 1) = 0x7E) :
    wc ≤ c.flag wc ∧ c.flag wc < c.size ∧ c.buf (c.flag wc) = 0x7E := by
  rw [flag]
  split
  · next hlength =>
      rw [hasLength, Bool.and_eq_true, beq_iff_eq] at hlength
      obtain ⟨hle, hlt⟩ := h.lastIndex_eq hsize hlength.1
      exact ⟨hle, hlt, hlength.2⟩
  · obtain ⟨hle, hlt⟩ := h.searchStart_lt
    obtain ⟨hfrom, hto, hfound, hbefore⟩ := c.findFlag_spec (c.size - c.searchStart wc) (c.searchStart wc)
    -- the search does not get past the last byte
    have hin : c.findFlag (c.size - c.searchStart wc) (c.searchStart wc) ≤ c.size - 1 := by
      by_contra hpast
      exact hbefore (c.size - 1) (by omega) (by omega) hend
    refine ⟨by omega, by omega, hfound.resolve_right (by omega)⟩

/-- Such a frame touches only bytes of the buffer. -/
theorem FrameFits.read_lt {wc : Nat} (h : c.FrameFits wc) (hsize : c.size < 2 ^ 64)
    (hend : c.buf (c.size - 1) = 0x7E) : ∀ i ∈ c.read wc, i < c.size := by
  obtain ⟨hle, hlt, -⟩ := h.flag_lt hsize hend
  have hfour := h.four_bytes
  have hstart := h.searchStart_lt
  intro i hi
  simp only [read, List.mem_append, List.mem_cons, List.not_mem_nil, or_false] at hi
  rcases hi with ((((hi | hi) | hi) | hi) | hi) | hi
  · omega
  · split at hi
    · rw [List.mem_singleton] at hi
      omega
    · exact absurd hi List.not_mem_nil
  · split at hi
    · next hlook =>
        rw [List.mem_singleton] at hi
        rw [hi]
        exact (h.lastIndex_eq hsize hlook).2
    · exact absurd hi List.not_mem_nil
  · split at hi
    · exact absurd hi List.not_mem_nil
    · rw [List.mem_range'_1] at hi
      omega
  · omega
  · split at hi
    · next hmore =>
        have hshown := h.shown hmore.1 hmore.2
        rw [List.mem_range'_1] at hi
        omega
    · exact absurd hi List.not_mem_nil

/-- It is written as it stands, and the next one starts behind it. -/
theorem FrameFits.written_eq {wc : Nat} (h : c.FrameFits wc) (hsize : c.size < 2 ^ 64)
    (hend : c.buf (c.size - 1) = 0x7E) :
    c.next wc = c.flag wc + 1 ∧ c.written wc = List.range' wc (c.flag wc + 1 - wc) := by
  obtain ⟨hle, hlt, hflag⟩ := h.flag_lt hsize hend
  have hnext : c.next wc = c.flag wc + 1 := Nat.mod_eq_of_lt (by omega)
  have hcount : (c.flag wc + 2 ^ 64 - wc + 1) % 2 ^ 64 = c.flag wc + 1 - wc := by omega
  refine ⟨hnext, ?_⟩
  rw [written, if_pos (Or.inl hflag), hcount]

/-- From a frame on everything is written, if every frame that follows fits. -/
theorem loop_of_fits (hsize : c.size < 2 ^ 64) (hend : c.buf (c.size - 1) = 0x7E) (n wc : Nat)
    (hn : c.size < wc + n) (hwc : wc ≤ c.size)
    (h : ∀ wc', c.FrameFrom wc wc' → wc' < c.size → c.FrameFits wc') :
    ∃ touched, c.loop n wc = some (List.range' wc (c.size - wc), touched) ∧ ∀ i ∈ touched, i < c.size := by
  induction n generalizing wc with
  | zero => omega
  | succ n ih =>
      rw [loop]
      split
      · next hmore =>
          have hfits := h wc (FrameFrom.refl wc) hmore
          obtain ⟨hle, hlt, -⟩ := hfits.flag_lt hsize hend
          obtain ⟨hnext, hwritten⟩ := hfits.written_eq hsize hend
          obtain ⟨touched, hloop, htouched⟩ := ih (c.next wc) (by omega) (by omega)
            fun wc' hwc' => h wc' (FrameFrom.next hmore hwc')
          refine ⟨c.read wc ++ c.written wc ++ touched, ?_, ?_⟩
          · rw [hloop, Option.map_some, hwritten, hnext]
            have hjoin : List.range' wc (c.flag wc + 1 - wc)
                ++ List.range' (c.flag wc + 1) (c.size - (c.flag wc + 1)) = List.range' wc (c.size - wc) := by
              rw [show c.flag wc + 1 = wc + (c.flag wc + 1 - wc) by omega, Nat.add_sub_cancel_left,
                List.range'_append_1]
              congr 1
              omega
            rw [hjoin]
          · intro i hi
            rcases List.mem_append.mp hi with hi | hi
            · rcases List.mem_append.mp hi with hi | hi
              · exact hfits.read_lt hsize hend i hi
              · rw [hwritten, List.mem_range'_1] at hi
                omega
            · exact htouched i hi
      · next hdone =>
          refine ⟨[], ?_, fun i hi => absurd hi List.not_mem_nil⟩
          rw [show c.size - wc = 0 by omega]
          rfl

/-- A frame that leads back to itself is never got past. -/
theorem loop_of_next_eq {wc : Nat} (hmore : wc < c.size) (hnext : c.next wc = wc) (n : Nat) :
    c.loop n wc = none := by
  induction n with
  | zero => rfl
  | succ n ih => rw [loop, if_pos hmore, hnext, ih, Option.map_none]

/-- A frame behind another whose length overflows to zero leads back to itself, and at the front of the buffer its
end is looked for before it. -/
theorem not_zeroLength (hsize : c.size < 2 ^ 64) {n wc : Nat} {r : List Nat × List Nat}
    (hloop : c.loop n wc = some r) (hread : ∀ i ∈ c.read wc, i < c.size) (hmore : wc < c.size)
    (hprev : wc ≠ 0 → c.buf (wc - 1) = 0x7E) : ¬ c.ZeroLength wc := by
  rintro ⟨h0, h1, h2, h3⟩
  have hlen : c.len wc = 0 := len_eq_zero.mpr ⟨h2, h3⟩
  have hlook : c.looksAhead wc = true := by
    simp [looksAhead, h0, h1, hlen, Nat.le_of_lt hmore]
  have hlast : c.lastIndex wc < c.size := by
    apply hread
    simp [read, hlook]
  rw [lastIndex, hlen] at hlast
  have hpos : wc ≠ 0 := by
    rintro rfl
    omega
  have hindex : c.lastIndex wc = wc - 1 := by
    rw [lastIndex, hlen]
    omega
  have hlength : c.hasLength wc = true := by
    simp [hasLength, hlook, hindex, hprev hpos]
  have hnext : c.next wc = wc := by
    rw [next, flag, if_pos hlength, hindex, Nat.sub_add_cancel (Nat.pos_of_ne_zero hpos)]
    exact Nat.mod_eq_of_lt (by omega)
  rw [loop_of_next_eq hmore hnext] at hloop
  cases hloop

/-- The end of a frame that lies inside the buffer is a `7E`. -/
theorem buf_flag {wc : Nat} (hmore : wc < c.size) (hlt : c.flag wc < c.size) : c.buf (c.flag wc) = 0x7E := by
  rw [flag] at hlt ⊢
  split
  · next hlength =>
      rw [hasLength, Bool.and_eq_true, beq_iff_eq] at hlength
      exact hlength.2
  · next hlength =>
      rw [if_neg hlength] at hlt
      have hstart : c.searchStart wc ≤ c.size := by
        rw [searchStart]
        split <;> omega
      obtain ⟨-, -, hfound, -⟩ := c.findFlag_spec (c.size - c.searchStart wc) (c.searchStart wc)
      exact hfound.resolve_right (by omega)

/-- If the call ends and touches only the buffer, every frame fits and the buffer ends with `7E`. -/
theorem fits_of_loop (hsize : c.size < 2 ^ 64) (n wc : Nat) {written touched : List Nat}
    (hloop : c.loop n wc = some (written, touched)) (htouched : ∀ i ∈ touched, i < c.size) (hmore : wc < c.size)
    (hprev : wc ≠ 0 → c.buf (wc - 1) = 0x7E) :
    c.buf (c.size - 1) = 0x7E ∧ ∀ wc', c.FrameFrom wc wc' → wc' < c.size → c.FrameFits wc' := by
  induction n generalizing wc written touched with
  | zero => cases hloop
  | succ n ih =>
      have hall := hloop
      rw [loop, if_pos hmore] at hloop
      cases hrest : c.loop n (c.next wc) with
      | none =>
          rw [hrest] at hloop
          cases hloop
      | some r =>
          rw [hrest] at hloop
          obtain ⟨-, rfl⟩ := Prod.mk.inj (Option.some.inj hloop)
          have hread : ∀ i ∈ c.read wc, i < c.size := fun i hi =>
            htouched i (List.mem_append_left _ (List.mem_append_left _ hi))
          have hflag : c.flag wc < c.size := hread _ (by simp [read])
          have hend := buf_flag hmore hflag
          have hfits : c.FrameFits wc := by
            refine ⟨hread (wc + 3) (by simp [read]), not_zeroLength hsize hall hread hmore hprev, ?_⟩
            intro hconnected hfollows
            have hlast : wc + 15 ∈ c.read wc := by simp [read, hconnected, hfollows]
            exact hread _ hlast
          have hnext : c.next wc = c.flag wc + 1 := Nat.mod_eq_of_lt (by omega)
          rw [hnext] at hrest
          rcases Nat.lt_or_ge (c.flag wc + 1) c.size with hfollows | hlast
          · have htail : ∀ i ∈ r.2, i < c.size := fun i hi => htouched i (List.mem_append_right _ hi)
            obtain ⟨hsizeEnd, hframes⟩ := ih (c.flag wc + 1) hrest htail hfollows fun _ => hend
            refine ⟨hsizeEnd, fun wc' hfrom hwc' => ?_⟩
            cases hfrom with
            | refl => exact hfits
            | next _ hfrom => exact hframes wc' (hnext ▸ hfrom) hwc'
          · have hsizeEnd : c.size - 1 = c.flag wc := by omega
            refine ⟨hsizeEnd ▸ hend, fun wc' hfrom hwc' => ?_⟩
            cases hfrom with
            | refl => exact hfits
            | next _ hfrom =>
                -- this was the last frame
                rw [hnext] at hfrom
                cases hfrom with
                | refl => omega
                | next hbelow _ => omega

/-- **When forwarding is transparent**: the buffer is empty, or it ends with `7E`, and at the start of every frame it
is cut into there are as many bytes as are looked at, and no length that overflows to zero. -/
theorem mdmSendCmd_transparent_iff (c : MdmCmd) (hsize : c.size < 2 ^ 64) :
    c.Transparent ↔ c.size = 0 ∨ c.buf (c.size - 1) = 0x7E ∧
      ∀ wc, c.FrameFrom 0 wc → wc < c.size → c.FrameFits wc := by
  constructor
  · rintro ⟨n, written, touched, hloop, -, htouched⟩
    rcases Nat.eq_zero_or_pos c.size with hempty | hpos
    · exact Or.inl hempty
    · exact Or.inr (fits_of_loop hsize n 0 hloop htouched hpos fun hx => absurd rfl hx)
  · rintro (hempty | ⟨hend, hfits⟩)
    · refine ⟨1, [], [], ?_, ?_, fun i hi => absurd hi List.not_mem_nil⟩
      · rw [loop, if_neg (by omega)]
      · rw [hempty]
        rfl
    · obtain ⟨touched, hloop, htouched⟩ := loop_of_fits hsize hend (c.size + 1) 0 (by omega) (Nat.zero_le _) hfits
      refine ⟨c.size + 1, _, touched, hloop, ?_, htouched⟩
      rw [Nat.sub_zero, List.range_eq_range']

end Frame

/-- A buffer in memory, with zeros behind it. -/
def ofBytes (bytes : List UInt8) (connected : Bool) : MdmCmd where
  buf i := bytes.getD i 0
  size := bytes.length
  connected := connected

/-- A frame with a length that holds a `7E` in its data. -/
theorem transparent_lengthFrame :
    (ofBytes [0x7E, 0x01, 0x03, 0x00, 0x4B, 0x7E, 0x00, 0x7E] true).Transparent := by
  refine (mdmSendCmd_transparent_iff _ (by decide)).mpr (Or.inr ⟨by decide, fun wc hfrom hwc => ?_⟩)
  have hnext : (ofBytes [0x7E, 0x01, 0x03, 0x00, 0x4B, 0x7E, 0x00, 0x7E] true).next 0 = 8 := by decide
  cases hfrom with
  | refl => exact ⟨by decide, by decide, by decide⟩
  | next _ hfrom =>
      rw [hnext] at hfrom
      cases hfrom with
      | refl => exact absurd hwc (by decide)
      | next hbelow _ => exact absurd hbelow (by decide)

/-- A chunk that ends inside a frame is sent with one byte more. -/
theorem not_transparent_cut_frame :
    ¬ ∀ c : MdmCmd, c.size < 2 ^ 64 → c.Transparent := by
  intro h
  obtain ⟨n, written, touched, hloop, -, htouched⟩ := h (ofBytes [0x4B, 0x12, 0x00, 0x00, 0x01] false) (by decide)
  have hend := (fits_of_loop (by decide) n 0 hloop htouched (by decide) fun hx => absurd rfl hx).1
  exact absurd hend (by decide)

end MdmCmd

end QLog
