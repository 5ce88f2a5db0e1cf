import QLog.Sahara.Writes

/-! # The path of a dump file

`full_filename` has 255 bytes. It gets the first 250 bytes of the save path, a slash, and by `strcat` the string at the
name of the entry. The name is the last field of its entry in `q_misc_buf`, and nothing says that it has a zero byte:
a name of 20 bytes goes on in `q_save_pref` of the next entry, the one of the last entry in what stands behind the
table. -/

namespace QLog

open Library

/-- A memory table when it is dumped: how it came in `q_rx_buf`, and what `q_misc_buf` and the memory behind it held
before. The bounds are those that are checked before the table is taken. -/
structure ReceivedTable where
  is64 : Bool
  /-- `num_debug_entries` -/
  entries : Nat
  rxBuf : List UInt8
  misc : List UInt8
  behind : List UInt8
  length_rxBuf : rxBuf.length = qSaharaRawBufSz
  length_misc : misc.length = qSaharaRawBufSz
  fits : entries * debugTypeSize true ≤ qSaharaRawBufSz

/-- `full_filename`, as long as it gets; without a save path there is no slash either. -/
def fullFilename (path : Option (List UInt8)) (filename : List UInt8) : List UInt8 :=
  (match path with
    | some path => path.take 250 ++ [0x2f]
    | none => []) ++ cString filename

namespace ReceivedTable

variable (t : ReceivedTable)

/-- `q_misc_buf` once the table is there. -/
def miscBuf : List UInt8 := applyWrites t.misc (tableWrites t.is64 t.rxBuf (t.entries * debugTypeSize t.is64))

/-- The memory from `sahara_memory_table[k].q_filename` on. -/
def filenameMemory (k : Nat) : List UInt8 := t.miscBuf.drop (k * debugTypeSize true + 44) ++ t.behind

/-- `q_filename` of an entry, as it has come. -/
def qFilename (k : Nat) : List UInt8 := (debugEntry t.is64 t.rxBuf k).filename

/-- The byte behind the name: the first one of the next entry, or of what stands behind the table. -/
def byteBehind (k : Nat) : UInt8 :=
  if k + 1 < t.entries then t.rxBuf.getD ((k + 1) * debugTypeSize t.is64) 0
  else (t.misc.drop (t.entries * debugTypeSize true) ++ t.behind).headD 0

/-- The path of an entry fits, and it is made of the save path and the entry's own name. -/
def PathWellFormed (path : List UInt8) (k : Nat) : Prop :=
  fullFilename (some path) (t.filenameMemory k) = path.take 250 ++ [0x2f] ++ cString (t.qFilename k) ∧
    (fullFilename (some path) (t.filenameMemory k)).length + 1 ≤ 255

/-! ## An entry in the memory -/

/-- The entries behind the entry `k`. -/
def laterEntries (k : Nat) : List UInt8 :=
  ((List.range (t.entries - (k + 1))).map (k + 1 + ·)).flatMap (miscEntry t.is64 t.rxBuf)

/-- The name in `q_misc_buf`. -/
def miscFilename (k : Nat) : List UInt8 :=
  if t.is64 then t.qFilename k else strncpy (t.qFilename k) dloadDebugStrlenBytes

variable {t} {k : Nat}

theorem entries_le_rxBuf : t.entries * debugTypeSize t.is64 ≤ t.rxBuf.length := by
  have hfits := t.fits
  rw [t.length_rxBuf]
  refine Nat.le_trans (Nat.mul_le_mul_left t.entries ?_) hfits
  cases t.is64 <;> decide

theorem miscBuf_eq : t.miscBuf = miscEntries t.is64 t.rxBuf t.entries ++ t.misc.drop (t.entries * debugTypeSize true) :=
  applyWrites_tableWrites (t.length_misc.symm ▸ t.fits) entries_le_rxBuf

theorem entry_le_rxBuf (hk : k < t.entries) : (k + 1) * debugTypeSize t.is64 ≤ t.rxBuf.length :=
  (Nat.mul_le_mul_right _ hk).trans entries_le_rxBuf

theorem length_miscEntry (hk : k < t.entries) : (miscEntry t.is64 t.rxBuf k).length = debugTypeSize true := by
  have hle := entry_le_rxBuf hk
  cases his64 : t.is64 with
  | false => exact length_miscEntry_false k
  | true =>
      rw [his64] at hle
      rw [miscEntry, if_pos rfl, length_window _ hle, Nat.succ_mul, Nat.add_sub_cancel_left]

theorem length_qFilename (hk : k < t.entries) : (t.qFilename k).length = dloadDebugStrlenBytes := by
  have hle := entry_le_rxBuf hk
  rw [qFilename, debugEntry]
  cases his64 : t.is64 with
  | false =>
      rw [his64] at hle
      have hend : k * 52 + 52 ≤ t.rxBuf.length := by
        rw [← Nat.succ_mul]
        exact hle
      rw [if_neg Bool.false_ne_true]
      show (window t.rxBuf (k * 52 + 32) (k * 52 + 52)).length = 20
      rw [length_window _ hend]
      omega
  | true =>
      rw [his64] at hle
      have hend : k * 64 + 64 ≤ t.rxBuf.length := by
        rw [← Nat.succ_mul]
        exact hle
      rw [if_pos rfl]
      show (window t.rxBuf (k * 64 + 44) (k * 64 + 64)).length = 20
      rw [length_window _ hend]
      omega

/-- The name stands at the end of its entry. -/
theorem drop_miscEntry (k : Nat) : (miscEntry t.is64 t.rxBuf k).drop 44 = t.miscFilename k := by
  rw [miscFilename, qFilename, debugEntry, miscEntry]
  cases t.is64 with
  | true =>
      rw [if_pos rfl, if_pos rfl, if_pos rfl, drop_window, Nat.succ_mul]
      rfl
  | false =>
      rw [if_neg Bool.false_ne_true, if_neg Bool.false_ne_true, if_neg Bool.false_ne_true]
      refine List.drop_left' ?_
      simp only [List.length_append, length_leBytes, length_strncpy]
      rfl

theorem length_miscEntries (hk : k < t.entries) :
    (miscEntries t.is64 t.rxBuf k).length = k * debugTypeSize true := by
  rw [miscEntries, length_flatMap_block _ _ (fun j hj => length_miscEntry ((List.mem_range.mp hj).trans hk)),
    List.length_range, Nat.mul_comm]

/-- The buffer around an entry. -/
theorem miscBuf_split (hk : k < t.entries) :
    t.miscBuf = miscEntries t.is64 t.rxBuf k ++ miscEntry t.is64 t.rxBuf k ++
      (t.laterEntries k ++ t.misc.drop (t.entries * debugTypeSize true)) := by
  obtain ⟨m, hm⟩ := Nat.exists_eq_add_of_le hk
  have hsplit : miscEntries t.is64 t.rxBuf t.entries = miscEntries t.is64 t.rxBuf (k + 1) ++ t.laterEntries k := by
    rw [laterEntries, hm, Nat.add_sub_cancel_left, miscEntries, List.range_add, List.flatMap_append, miscEntries]
  rw [miscBuf_eq, hsplit, miscEntries_succ, List.append_assoc _ (t.laterEntries k)]

/-- What stands from the name of an entry on. -/
theorem filenameMemory_eq (hk : k < t.entries) :
    t.filenameMemory k = t.miscFilename k ++
      (t.laterEntries k ++ t.misc.drop (t.entries * debugTypeSize true) ++ t.behind) := by
  have hentry : 44 ≤ (miscEntry t.is64 t.rxBuf k).length := by
    rw [length_miscEntry hk]
    decide
  rw [filenameMemory, miscBuf_split hk, ← List.drop_drop, List.append_assoc, List.drop_left' (length_miscEntries hk),
    List.drop_append_of_le_length hentry, drop_miscEntry, List.append_assoc]

/-- A field of an entry in the buffer. -/
theorem window_miscBuf (hk : k < t.entries) (lo : Nat) {hi : Nat} (hhi : hi ≤ debugTypeSize true) :
    window t.miscBuf (k * debugTypeSize true + lo) (k * debugTypeSize true + hi)
      = window (miscEntry t.is64 t.rxBuf k) lo hi := by
  rw [← length_miscEntry hk] at hhi
  rw [miscBuf_split hk, ← length_miscEntries hk]
  exact window_middle _ _ _ lo hhi

theorem window_second_third {a b c : List UInt8} (ha : a.length = 8) (hb : b.length = 8) (hc : c.length = 8)
    (d e : List UInt8) :
    window (a ++ b ++ c ++ d ++ e) 8 16 = b ∧ window (a ++ b ++ c ++ d ++ e) 16 24 = c := by
  have hab : (a ++ b).length = 16 := by rw [List.length_append, ha, hb]
  have hsecond := window_mid a b (c ++ (d ++ e))
  have hthird := window_mid (a ++ b) c (d ++ e)
  rw [ha, hb] at hsecond
  rw [hab, hc] at hthird
  simp only [List.append_assoc] at hsecond hthird ⊢
  exact ⟨hsecond, hthird⟩

/-- The table that is used is the one that has come. -/
theorem debugEntry_miscBuf (hk : k < t.entries) :
    (debugEntry true t.miscBuf k).memBase = (debugEntry t.is64 t.rxBuf k).memBase ∧
      (debugEntry true t.miscBuf k).len = (debugEntry t.is64 t.rxBuf k).len := by
  have hbase := window_miscBuf hk 8 (show 16 ≤ debugTypeSize true by decide)
  have hlen := window_miscBuf hk 16 (show 24 ≤ debugTypeSize true by decide)
  rw [debugEntry, debugEntry, if_pos rfl, hbase, hlen, miscEntry]
  cases t.is64 with
  | true =>
      have hfield : ∀ lo hi, hi ≤ debugTypeSize true →
          window (window t.rxBuf (k * debugTypeSize true) ((k + 1) * debugTypeSize true)) lo hi =
            window t.rxBuf (k * debugTypeSize true + lo) (k * debugTypeSize true + hi) := by
        intro lo hi hhi
        rw [Nat.succ_mul, window, take_window _ (Nat.add_le_add_left hhi _), drop_window]
      rw [if_pos rfl, if_pos rfl, hfield 8 16 (by decide), hfield 16 24 (by decide)]
      exact ⟨rfl, rfl⟩
  | false =>
      have hfits : ∀ lo hi, hi ≤ lo + 4 → ofLeBytes (window t.rxBuf lo hi) < 256 ^ 8 := by
        intro lo hi hhi
        refine ofLeBytes_lt _ ((length_window_le _ lo hi).trans ?_)
        omega
      obtain ⟨hsecond, hthird⟩ := window_second_third
        (length_leBytes 8 (ofLeBytes (window t.rxBuf (k * debugTypeSize false) (k * debugTypeSize false + 4))))
        (length_leBytes 8 (ofLeBytes (window t.rxBuf (k * debugTypeSize false + 4) (k * debugTypeSize false + 8))))
        (length_leBytes 8 (ofLeBytes (window t.rxBuf (k * debugTypeSize false + 8) (k * debugTypeSize false + 12))))
        (strncpy (window t.rxBuf (k * debugTypeSize false + 12) (k * debugTypeSize false + 32)) dloadDebugStrlenBytes)
        (strncpy (window t.rxBuf (k * debugTypeSize false + 32) (k * debugTypeSize false + 52)) dloadDebugStrlenBytes)
      rw [if_neg Bool.false_ne_true, if_neg Bool.false_ne_true, hsecond, hthird]
      exact ⟨ofLeBytes_leBytes 8 _ (hfits _ _ (by omega)), ofLeBytes_leBytes 8 _ (hfits _ _ (by omega))⟩

theorem debugTypeSize_pos (is64 : Bool) : 0 < debugTypeSize is64 := by
  cases is64 <;> decide

/-- The first byte of an entry is the first one of `q_save_pref`, as it has come. -/
theorem headD_miscEntry (hk : k < t.entries) (more : List UInt8) :
    (miscEntry t.is64 t.rxBuf k ++ more).headD 0 = t.rxBuf.getD (k * debugTypeSize t.is64) 0 := by
  have hle := entry_le_rxBuf hk
  have hpos := debugTypeSize_pos t.is64
  rw [Nat.succ_mul] at hle
  obtain ⟨b, rest, hdrop⟩ := List.exists_cons_of_length_pos (l := t.rxBuf.drop (k * debugTypeSize t.is64))
    (by rw [List.length_drop]; omega)
  have hbyte : t.rxBuf.getD (k * debugTypeSize t.is64) 0 = b := by
    have hfirst : (t.rxBuf.drop (k * debugTypeSize t.is64))[0]? = some b := by rw [hdrop]; rfl
    rw [List.getElem?_drop, Nat.add_zero] at hfirst
    rw [List.getD_eq_getElem?_getD, hfirst]
    rfl
  have hwindow : ∀ n, window t.rxBuf (k * debugTypeSize t.is64) (k * debugTypeSize t.is64 + (n + 1)) =
      b :: rest.take n := by
    intro n
    have hzero := window_drop t.rxBuf (k * debugTypeSize t.is64) 0 (n + 1)
    rw [hdrop, window_zero, Nat.add_zero] at hzero
    exact hzero.symm
  rw [hbyte, miscEntry]
  cases his64 : t.is64 with
  | true =>
      rw [his64] at hwindow
      have hentry := hwindow 63
      rw [if_pos rfl, Nat.succ_mul]
      rw [show debugTypeSize true = 63 + 1 from rfl] at hentry ⊢
      rw [hentry]
      rfl
  | false =>
      rw [his64] at hwindow
      have hfield : UInt8.ofNat (ofLeBytes (b :: rest.take 3)) = b := by
        rw [ofLeBytes]
        apply UInt8.toNat_inj.mp
        have hb := b.toNat_lt
        rw [UInt8.toNat_ofNat']
        omega
      rw [if_neg Bool.false_ne_true]
      dsimp only
      rw [hwindow 3, leBytes, hfield]
      rfl

/-- What stands right behind the name. -/
theorem headD_behind (hk : k < t.entries) :
    (t.laterEntries k ++ t.misc.drop (t.entries * debugTypeSize true) ++ t.behind).headD 0 = t.byteBehind k := by
  rw [byteBehind, List.append_assoc]
  split
  · next hnext =>
      obtain ⟨m, hm⟩ := Nat.exists_eq_add_of_lt hnext
      have hcount : t.entries - (k + 1) = m + 1 := by omega
      rw [laterEntries, hcount, List.range_succ_eq_map, List.map_cons, List.flatMap_cons, List.append_assoc]
      exact headD_miscEntry hnext _
  · next hlast =>
      have hcount : t.entries - (k + 1) = 0 := by omega
      rw [laterEntries, hcount]
      rfl

/-- The string that is appended. -/
theorem cString_filenameMemory (hk : k < t.entries) :
    cString (t.filenameMemory k) = cString (t.qFilename k ++
      (t.laterEntries k ++ t.misc.drop (t.entries * debugTypeSize true) ++ t.behind)) := by
  rw [filenameMemory_eq hk, miscFilename]
  cases t.is64 with
  | true => rfl
  | false => exact cString_strncpy_append (length_qFilename hk) _

end ReceivedTable

/-- The tables of this kind are those that the client takes in `Q_SAHARA_WAIT_SEVEN`. -/
theorem SaharaClient.exists_receivedTable {s : SaharaClient} {a : SaharaAnswers} (h : s.SizesOk)
    (hresult : s.result = none) (hstate : s.state = .waitSeven) (hpos : s.memoryTableLength ≠ 0)
    (hvalid : isValidMemoryTable s.ramDump64bit s.memoryTableLength = true)
    (hbuf : s.rxBuf.length = qSaharaRawBufSz) (hnext : (s.waitSeven a).1.state = .waitEight)
    (misc behind : List UInt8) (hmisc : misc.length = qSaharaRawBufSz) :
    ∃ t : ReceivedTable, t.misc = misc ∧ t.behind = behind ∧ t.miscBuf = applyWrites misc (s.miscWrites a) ∧
      (s.waitSeven a).1.memoryTable = (List.range t.entries).map (debugEntry t.is64 t.rxBuf) := by
  have htable := h.table_le hstate
  have hroom : 8 + maxToRead ≤ s.rxBuf.length := by
    rw [hbuf]
    decide
  have hspec := (saharaRxData_spec s.rxBuf a.rx (htable.trans (Nat.le_of_eq hbuf.symm)) hroom).1
  have hcount : s.memoryTableLength / debugTypeSize s.ramDump64bit * debugTypeSize s.ramDump64bit =
      s.memoryTableLength := Nat.div_mul_cancel (Nat.dvd_of_mod_eq_zero (by simpa [isValidMemoryTable] using hvalid))
  rw [SaharaClient.waitSeven, if_neg hpos] at hnext ⊢
  rw [SaharaClient.miscWrites, if_pos ⟨hresult, hstate, hpos⟩]
  cases hrx : saharaRxData s.memoryTableLength s.rxBuf a.rx with
  | mk data rxBuf =>
      rw [hrx] at hnext hspec
      cases data with
      | none => exact absurd (hstate.symm.trans hnext) (by simp)
      | some data =>
          dsimp only at hnext ⊢
          by_cases hconv : s.ramDump64bit = false ∧
              qSaharaRawBufSz < s.memoryTableLength / debugTypeSize false * debugTypeSize true
          · rw [if_pos hconv] at hnext
            exact absurd (hstate.symm.trans hnext) (by simp)
          · rw [if_neg hconv, if_neg hconv]
            have hfits : s.memoryTableLength / debugTypeSize s.ramDump64bit * debugTypeSize true ≤ qSaharaRawBufSz := by
              cases his64 : s.ramDump64bit with
              | false =>
                  rw [his64, not_and, Nat.not_lt] at hconv
                  exact hconv rfl
              | true => exact (Nat.div_mul_le_self _ _).trans htable
            refine ⟨⟨s.ramDump64bit, s.memoryTableLength / debugTypeSize s.ramDump64bit, rxBuf, misc, behind,
              hspec.trans hbuf, hmisc, hfits⟩, rfl, rfl, ?_, rfl⟩
            rw [ReceivedTable.miscBuf, hcount]

/-- **When the path of a dump file is well formed**: exactly if the name has a zero byte or one follows it, and the save
path, the slash and the name leave room for the zero at the end. -/
theorem pathWellFormed_iff (t : ReceivedTable) (path : List UInt8) (k : Fin t.entries) :
    t.PathWellFormed path k ↔
      (0 ∈ t.qFilename k ∨ t.byteBehind k = 0) ∧
        (path.take 250).length + (cString (t.qFilename k)).length + 2 ≤ 255 := by
  have hname := cString_append_eq_iff (t.qFilename k)
    (t.laterEntries k ++ t.misc.drop (t.entries * debugTypeSize true) ++ t.behind)
  rw [ReceivedTable.headD_behind k.isLt, ← ReceivedTable.cString_filenameMemory k.isLt] at hname
  rw [ReceivedTable.PathWellFormed, fullFilename, List.append_cancel_left_eq, hname]
  refine and_congr_right fun hown => ?_
  rw [hname.mpr hown, List.length_append, List.length_append, List.length_singleton]
  omega

/-- Two entries, the name of the first one of 20 bytes. -/
def fullName : ReceivedTable where
  is64 := true
  entries := 2
  rxBuf := List.replicate 44 0 ++ List.replicate 20 0x41 ++ [1] ++ List.replicate (qSaharaRawBufSz - 65) 0
  misc := List.replicate qSaharaRawBufSz 0
  behind := []
  length_rxBuf := by
    simp only [List.length_append, List.length_replicate, List.length_singleton]
    decide
  length_misc := List.length_replicate ..
  fits := by decide

/-- The path goes on with `q_save_pref` of the second entry. -/
theorem not_pathWellFormed :
    ¬ ∀ (t : ReceivedTable) (path : List UInt8) (k : Fin t.entries), t.PathWellFormed path k := by
  intro h
  have hpath := (h fullName [] ⟨0, by decide⟩).1
  exact absurd hpath (by decide +kernel)

end QLog
