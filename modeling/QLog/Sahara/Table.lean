import QLog.Library.CString
import QLog.Sahara.Client

/-! # The memory table in `q_misc_buf`

A table with 64-bit fields is copied to `q_misc_buf` as it has come. One with 32-bit fields is converted field by field,
its strings by `strncpy`, so that an entry grows from 52 to 64 bytes. In both cases `q_misc_buf` holds one entry of 64
bytes behind the other, and behind the last one what was there before. -/

namespace QLog

open Library

/-- `DLOAD_DEBUG_STRLEN_BYTES` -/
def dloadDebugStrlenBytes : Nat := 20

/-- The conversion of the entry `k` of a table with 32-bit fields, inside of its 64 bytes. -/
def convertFields (rxBuf : List UInt8) (k : Nat) : List (Write UInt8) :=
  let rx := k * debugTypeSize false
  [⟨0, leBytes 8 (ofLeBytes (window rxBuf rx (rx + 4)))⟩,
    ⟨8, leBytes 8 (ofLeBytes (window rxBuf (rx + 4) (rx + 8)))⟩,
    ⟨16, leBytes 8 (ofLeBytes (window rxBuf (rx + 8) (rx + 12)))⟩,
    ⟨44, strncpy (window rxBuf (rx + 32) (rx + 52)) dloadDebugStrlenBytes⟩,
    ⟨24, strncpy (window rxBuf (rx + 12) (rx + 32)) dloadDebugStrlenBytes⟩]

/-- The conversion of the entry `k`. -/
def convertWrites (rxBuf : List UInt8) (k : Nat) : List (Write UInt8) :=
  (convertFields rxBuf k).map (Write.shift (k * debugTypeSize true))

/-- What a received table is written to `q_misc_buf` by. -/
def tableWrites (is64 : Bool) (rxBuf : List UInt8) (length : Nat) : List (Write UInt8) :=
  if is64 then [⟨0, rxBuf.take length⟩]
  else (List.range (length / debugTypeSize false)).flatMap (convertWrites rxBuf)

theorem inBounds_convertFields (rxBuf : List UInt8) (k : Nat) :
    ∀ w ∈ convertFields rxBuf k, w.InBounds (debugTypeSize true) := by
  simp only [convertFields, Write.InBounds, List.forall_mem_cons, length_leBytes, length_strncpy, debugTypeSize,
    dloadDebugStrlenBytes, if_true]
  exact ⟨by omega, by omega, by omega, by omega, by omega, List.forall_mem_nil _⟩

/-- A converted entry lies in its 64 bytes. -/
theorem inBounds_convertWrites (rxBuf : List UInt8) (k : Nat) :
    ∀ w ∈ convertWrites rxBuf k, w.InBounds ((k + 1) * debugTypeSize true) := by
  refine List.forall_mem_map.mpr fun w hw => ?_
  have hfield := inBounds_convertFields rxBuf k w hw
  rw [Write.InBounds, Write.shift, Nat.succ_mul, Nat.add_assoc]
  exact Nat.add_le_add_left hfield _

/-- A table is written inside of the buffer where its length has been compared with the size before the receive and,
with 32-bit fields, after it. -/
theorem inBounds_tableWrites {is64 : Bool} {length : Nat} (hlen : length ≤ qSaharaRawBufSz) (rxBuf : List UInt8)
    (hconv : is64 = false → length / debugTypeSize false * debugTypeSize true ≤ qSaharaRawBufSz) :
    ∀ w ∈ tableWrites is64 rxBuf length, w.InBounds qSaharaRawBufSz := by
  cases is64 with
  | true =>
      refine List.forall_mem_singleton.mpr ?_
      rw [Write.InBounds, Nat.zero_add]
      exact (List.length_take_le _ _).trans hlen
  | false =>
      intro w hw
      obtain ⟨k, hk, hw⟩ := List.mem_flatMap.mp hw
      have hlast : (k + 1) * debugTypeSize true ≤ length / debugTypeSize false * debugTypeSize true :=
        Nat.mul_le_mul_right _ (List.mem_range.mp hk)
      exact (inBounds_convertWrites rxBuf k w hw).trans (hlast.trans (hconv rfl))

/-! ## What the buffer holds -/

/-- The 64 bytes of an entry in `q_misc_buf`. -/
def miscEntry (is64 : Bool) (rxBuf : List UInt8) (k : Nat) : List UInt8 :=
  if is64 then window rxBuf (k * debugTypeSize true) ((k + 1) * debugTypeSize true)
  else
    let rx := k * debugTypeSize false
    leBytes 8 (ofLeBytes (window rxBuf rx (rx + 4))) ++ leBytes 8 (ofLeBytes (window rxBuf (rx + 4) (rx + 8))) ++
      leBytes 8 (ofLeBytes (window rxBuf (rx + 8) (rx + 12))) ++
      strncpy (window rxBuf (rx + 12) (rx + 32)) dloadDebugStrlenBytes ++
      strncpy (window rxBuf (rx + 32) (rx + 52)) dloadDebugStrlenBytes

/-- The entries in `q_misc_buf`. -/
def miscEntries (is64 : Bool) (rxBuf : List UInt8) (n : Nat) : List UInt8 :=
  (List.range n).flatMap (miscEntry is64 rxBuf)

theorem miscEntries_succ (is64 : Bool) (rxBuf : List UInt8) (n : Nat) :
    miscEntries is64 rxBuf (n + 1) = miscEntries is64 rxBuf n ++ miscEntry is64 rxBuf n := by
  rw [miscEntries, List.range_succ, List.flatMap_append, List.flatMap_singleton]
  rfl

section Misc

variable {rxBuf : List UInt8}

theorem length_miscEntry_false (k : Nat) : (miscEntry false rxBuf k).length = debugTypeSize true := by
  simp only [miscEntry, Bool.false_eq_true, if_false, List.length_append, length_leBytes, length_strncpy]
  rfl

theorem length_miscEntries_false (n : Nat) : (miscEntries false rxBuf n).length = n * debugTypeSize true := by
  rw [miscEntries, length_flatMap_block _ _ (fun k _ => length_miscEntry_false k), List.length_range, Nat.mul_comm]

/-- The five copies fill the 64 bytes of an entry, the last but one ahead of the last. -/
theorem applyWrites_fields {mid a b c d e : List UInt8} (hmid : mid.length = 64) (ha : a.length = 8)
    (hb : b.length = 8) (hc : c.length = 8) (hd : d.length = 20) (he : e.length = 20) :
    applyWrites mid [⟨0, a⟩, ⟨8, b⟩, ⟨16, c⟩, ⟨44, e⟩, ⟨24, d⟩] = a ++ b ++ c ++ d ++ e := by
  have hab : (a ++ b).length = 16 := by rw [List.length_append, ha, hb]
  have habc : (a ++ b ++ c).length = 24 := by rw [List.length_append, hab, hc]
  have hold : ((mid.drop 24).take 20).length = 20 := by
    rw [List.length_take, List.length_drop, hmid]
    rfl
  have habco : (a ++ b ++ c ++ (mid.drop 24).take 20).length = 44 := by rw [List.length_append, habc, hold]
  have hthree : overwrite (overwrite (overwrite mid 0 a) 8 b) 16 c =
      a ++ b ++ c ++ (mid.drop 24).take 20 ++ mid.drop 44 := by
    have htwo : overwrite (overwrite mid 0 a) 8 b = a ++ b ++ mid.drop 16 := by
      rw [overwrite_zero, ha, ← ha, overwrite_append, hb, List.drop_drop, ha]
    rw [htwo, ← hab, overwrite_append, hc, List.drop_drop, hab, List.append_assoc _ (List.take _ _)]
    have hsplit := List.take_append_drop 20 (mid.drop 24)
    rw [List.drop_drop] at hsplit
    rw [hsplit]
  have hfour : overwrite (a ++ b ++ c ++ (mid.drop 24).take 20 ++ mid.drop 44) 44 e =
      a ++ b ++ c ++ ((mid.drop 24).take 20 ++ e) := by
    rw [← habco, overwrite_append, he, List.drop_drop, habco, List.drop_of_length_le (Nat.le_of_eq hmid),
      List.append_nil, List.append_assoc]
  have hfive : ∀ old : List UInt8, old.length = 20 →
      overwrite (a ++ b ++ c ++ (old ++ e)) 24 d = a ++ b ++ c ++ d ++ e := by
    intro old hold
    rw [← habc, overwrite_append, hd, List.drop_left' hold]
  rw [applyWrites_cons, applyWrites_cons, applyWrites_cons, applyWrites_cons, applyWrites_cons, applyWrites_nil]
  dsimp only
  rw [hthree, hfour, hfive _ hold]

/-- The conversion of an entry behind others. -/
theorem applyWrites_convertWrites {front rest : List UInt8} {k : Nat} (hfront : front.length = k * debugTypeSize true)
    (hrest : debugTypeSize true ≤ rest.length) :
    applyWrites (front ++ rest) (convertWrites rxBuf k)
      = front ++ miscEntry false rxBuf k ++ rest.drop (debugTypeSize true) := by
  have hmid : (rest.take (debugTypeSize true)).length = 64 := List.length_take_of_le hrest
  have hmiddle := applyWrites_middle front (rest.take (debugTypeSize true)) (rest.drop (debugTypeSize true))
    (convertFields rxBuf k) (by rw [hmid]; exact inBounds_convertFields rxBuf k)
  rw [List.append_assoc, List.take_append_drop, hfront] at hmiddle
  rw [convertWrites, hmiddle, convertFields,
    applyWrites_fields hmid (length_leBytes 8 _) (length_leBytes 8 _) (length_leBytes 8 _)
    (length_strncpy _ dloadDebugStrlenBytes) (length_strncpy _ dloadDebugStrlenBytes)]
  rfl

/-- What a table leaves in the buffer. -/
theorem applyWrites_tableWrites {is64 : Bool} {misc : List UInt8} {n : Nat}
    (hmisc : n * debugTypeSize true ≤ misc.length) (hrx : n * debugTypeSize is64 ≤ rxBuf.length) :
    applyWrites misc (tableWrites is64 rxBuf (n * debugTypeSize is64))
      = miscEntries is64 rxBuf n ++ misc.drop (n * debugTypeSize true) := by
  cases is64 with
  | true =>
      have hentries : ∀ n, miscEntries true rxBuf n = rxBuf.take (n * debugTypeSize true) := by
        intro n
        induction n with
        | zero => rw [Nat.zero_mul, List.take_zero]; rfl
        | succ n ih =>
            have happend := window_append rxBuf (Nat.zero_le (n * debugTypeSize true))
              (Nat.mul_le_mul_right (debugTypeSize true) (Nat.le_succ n))
            rw [window_zero, window_zero] at happend
            rw [miscEntries_succ, ih, ← happend]
            rfl
      rw [hentries, tableWrites, if_pos rfl, applyWrites_cons, applyWrites_nil, overwrite_zero]
      dsimp only
      rw [List.length_take_of_le hrx]
  | false =>
      have hdiv : n * debugTypeSize false / debugTypeSize false = n := Nat.mul_div_cancel n (by decide)
      rw [tableWrites, if_neg Bool.false_ne_true, hdiv]
      clear hdiv hrx
      induction n with
      | zero => rw [Nat.zero_mul, List.drop_zero]; rfl
      | succ n ih =>
          rw [Nat.succ_mul] at hmisc ⊢
          have hrest : debugTypeSize true ≤ (misc.drop (n * debugTypeSize true)).length := by
            rw [List.length_drop]
            omega
          rw [List.range_succ, List.flatMap_append, List.flatMap_singleton, applyWrites_append, ih (by omega),
            applyWrites_convertWrites (length_miscEntries_false n) hrest, List.drop_drop, miscEntries_succ]

end Misc

end QLog
