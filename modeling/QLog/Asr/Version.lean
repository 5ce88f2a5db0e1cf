import QLog.Library.ByteBuffer
import QLog.Library.LittleEndian

/-! # The version parser of ASR modems

Until the versions of the diagnostic databases are known, every buffer of the log is also parsed for the records that
hold them. `asr_parser_dbversion` collects the bytes in a buffer of 8 KiB: a pass fills it, walks over the packets in
it and moves what is left to the front, and the backward `goto` starts the next pass while bytes of the call remain.

A pass that finds the last version it needs leaves the walk without stepping over the record. If the rest of the
data does not fit behind the record the next pass fills the buffer, stops at the same record, and so does every pass
after it. -/

namespace QLog

open Library

/-- `data_max` -/
def dataMax : Nat := 8192

/-- `sizeof (struct DBVerInfo)` -/
def dbVerInfoSize : Nat := 16

/-- `g_dwUETime`, `g_u32APVersion`, `g_u32CPVersion` and `g_query_version_done`. -/
structure AsrVersions where
  dwUETime : Nat
  apVersion : Nat
  cpVersion : Nat
  queryVersionDone : Bool

/-- The globals, `data_buf` and `data_len`. -/
structure AsrState where
  versions : AsrVersions
  dataBuf : List UInt8
  length_le : dataBuf.length ≤ dataMax

/-! ## Packets -/

/-- `wPduLen` of the packet at the front. -/
def wPduLen (pbuf : List UInt8) : Nat := ofLeBytes (window pbuf 0 2)

/-- `wSap` of the packet at the front. -/
def wSap (pbuf : List UInt8) : Nat := ofLeBytes (window pbuf 4 6)

/-- The packet at the front has a plausible header. -/
def asrAccepted (pbuf : List UInt8) : Bool :=
  wPduLen pbuf ≠ 0 && ofLeBytes (window pbuf 2 4) = 0 && wPduLen pbuf ≤ (if wSap pbuf = 5 then 5328 else 7680)

/-- `dwUETime` of the packet, which stands elsewhere in `struct SAP5`. -/
def ueTimeField (pbuf : List UInt8) : Nat :=
  if wSap pbuf = 5 then ofLeBytes (window pbuf 8 12) else ofLeBytes (window pbuf 12 16)

/-- `g_dwUETime` after a packet: a time that jumps by more than 4 seconds is not taken over. -/
def AsrVersions.updateUETime (g : AsrVersions) (pbuf : List UInt8) : AsrVersions :=
  let dwUETime := ueTimeField pbuf
  let diff := (dwUETime + 2 ^ 32 - g.dwUETime) % 2 ^ 32
  if g.dwUETime ≠ 0 ∧ dwUETime ≠ 0 ∧ dwUETime ≠ 0xFFFFFFFF ∧ 4 * 1000 * 1000 < min diff (2 ^ 32 - diff) then g
  else { g with dwUETime := dwUETime }

/-- The packet is the answer to a query of the database version. -/
def isDbVersion (pbuf : List UInt8) : Bool :=
  wPduLen pbuf = 0x1B && window pbuf 16 18 == [0x30, 0x78] && pbuf.getD 26 0 == 0 &&
    ofLeBytes (window pbuf 8 10) = 0xFFFF && ofLeBytes (window pbuf 10 12) = 0x00

/-- The value of a hexadecimal digit. -/
def hexDigit (c : UInt8) : Option Nat :=
  if 0x30 ≤ c ∧ c ≤ 0x39 then some (c.toNat - 0x30)
  else if 0x41 ≤ c ∧ c ≤ 0x46 then some (c.toNat - 0x37)
  else if 0x61 ≤ c ∧ c ≤ 0x66 then some (c.toNat - 0x57)
  else none

/-- `strtoul` with base 16 behind the prefix: it stops at the first character that is no digit. -/
def strtoulHex : Nat → List UInt8 → Nat
  | value, [] => value
  | value, c :: cs =>
      match hexDigit c with
      | some d => strtoulHex (16 * value + d) cs
      | none => value

/-- `ver` -/
def dbVersion (pbuf : List UInt8) : Nat := strtoulHex 0 (window pbuf 18 27) % 2 ^ 32

/-- The version is stored by the side it comes from, `DIAG_SAP_AP` or `DIAG_SAP_CP`. -/
def AsrVersions.store (g : AsrVersions) (pbuf : List UInt8) : AsrVersions :=
  if isDbVersion pbuf then
    if wSap pbuf = 0x8001 then { g with apVersion := dbVersion pbuf }
    else if wSap pbuf = 0x01 then { g with cpVersion := dbVersion pbuf }
    else g
  else g

/-- With this packet the version of the CP is known. -/
def AsrVersions.found (g : AsrVersions) (pbuf : List UInt8) : Bool :=
  isDbVersion pbuf && (g.store pbuf).cpVersion ≠ 0

/-! ## Passes -/

/-- The `while` loop over `data_buf`, from `data_buf + offset`: the globals, and what is left behind `offset`. Every
round but the last drops bytes, so as many rounds as there are bytes are enough. -/
def asrWalk : Nat → AsrVersions → List UInt8 → AsrVersions × List UInt8
  | 0, g, pbuf => (g, pbuf)
  | rounds + 1, g, pbuf =>
      if pbuf.length ≤ dbVerInfoSize then (g, pbuf)
      else if asrAccepted pbuf = false then asrWalk rounds g (pbuf.drop 1)
      else
        let g := g.updateUETime pbuf
        if pbuf.length < wPduLen pbuf then (g, pbuf)
        else if g.found pbuf then ({ g.store pbuf with queryVersionDone := true }, pbuf)
        else asrWalk rounds (g.store pbuf) (pbuf.drop (wPduLen pbuf))

/-- The walk leaves a part of the buffer. -/
theorem length_asrWalk (rounds : Nat) (g : AsrVersions) (pbuf : List UInt8) :
    (asrWalk rounds g pbuf).2.length ≤ pbuf.length := by
  induction rounds generalizing g pbuf with
  | zero => exact Nat.le_refl _
  | succ rounds ih =>
      have hdrop : ∀ n, (pbuf.drop n).length ≤ pbuf.length := fun n => by
        rw [List.length_drop]
        exact Nat.sub_le _ _
      rw [asrWalk]
      dsimp only
      split
      · exact Nat.le_refl _
      · split
        · exact (ih _ _).trans (hdrop 1)
        · split
          · exact Nat.le_refl _
          · split
            · exact Nat.le_refl _
            · exact (ih _ _).trans (hdrop _)

/-- One pass from `_start`: the state, and what remains of the buffer of the call. -/
def asrPass (s : AsrState) (buf : List UInt8) : AsrState × List UInt8 :=
  let leftRoom := dataMax - s.dataBuf.length
  let mem := s.dataBuf ++ buf.take leftRoom
  ({ versions := (asrWalk mem.length s.versions mem).1
     dataBuf := (asrWalk mem.length s.versions mem).2
     length_le := by
       refine (length_asrWalk _ _ _).trans ?_
       have hlen := s.length_le
       rw [List.length_append, List.length_take]
       omega },
    buf.drop leftRoom)

/-- `asr_parser_dbversion`, if it returns after at most so many passes. -/
def asrParserDbversion : Nat → AsrState → List UInt8 → Option AsrState
  | 0, _, _ => none
  | passes + 1, s, buf =>
      let r := asrPass s buf
      if r.2 = [] then some r.1 else asrParserDbversion passes r.1 r.2

/-- `asr_logfile_save`, without the save of the buffer. -/
def asrLogfileSave (passes : Nat) (s : AsrState) (buf : List UInt8) : Option AsrState :=
  if buf = [] ∨ s.versions.queryVersionDone then some s else asrParserDbversion passes s buf

/-- The call returns. -/
def AsrReturns (s : AsrState) (buf : List UInt8) : Prop := ∃ passes, (asrLogfileSave passes s buf).isSome

/-! ## The record ahead -/

/-- The version of the CP after the packet at the front. -/
def cpVersionAfter (cpVersion : Nat) (pbuf : List UInt8) : Nat :=
  if isDbVersion pbuf ∧ wSap pbuf = 0x01 then dbVersion pbuf else cpVersion

/-- With the packet at the front the version of the CP is known. -/
def completesVersion (cpVersion : Nat) (pbuf : List UInt8) : Prop :=
  isDbVersion pbuf = true ∧ cpVersionAfter cpVersion pbuf ≠ 0

instance (cpVersion : Nat) (pbuf : List UInt8) : Decidable (completesVersion cpVersion pbuf) :=
  inferInstanceAs (Decidable (_ ∧ _))

/-- In a stream of bytes the packets, one after the other from the front, lead to a record with which the version of
the CP is known, and `n` bytes of the stream lie from the start of that record to the end. -/
inductive VersionAhead : Nat → List UInt8 → Nat → Prop
  /-- Here is no packet: the next one is searched byte by byte. -/
  | skip {cpVersion n : Nat} {stream : List UInt8} : dbVerInfoSize < stream.length → asrAccepted stream = false →
      VersionAhead cpVersion (stream.drop 1) n → VersionAhead cpVersion stream n
  | packet {cpVersion n : Nat} {stream : List UInt8} : dbVerInfoSize < stream.length → asrAccepted stream = true →
      wPduLen stream ≤ stream.length → ¬ completesVersion cpVersion stream →
      VersionAhead (cpVersionAfter cpVersion stream) (stream.drop (wPduLen stream)) n →
      VersionAhead cpVersion stream n
  | here {cpVersion : Nat} {stream : List UInt8} : dbVerInfoSize < stream.length → asrAccepted stream = true →
      wPduLen stream ≤ stream.length → completesVersion cpVersion stream →
      VersionAhead cpVersion stream stream.length

section Ahead

variable {cpVersion n : Nat} {stream : List UInt8}

theorem VersionAhead.le (h : VersionAhead cpVersion stream n) : n ≤ stream.length := by
  induction h with
  | skip _ _ _ ih =>
      rw [List.length_drop] at ih
      omega
  | packet _ _ _ _ _ ih =>
      rw [List.length_drop] at ih
      omega
  | here => exact Nat.le_refl _

theorem versionAhead_skip (hlen : dbVerInfoSize < stream.length) (h : asrAccepted stream = false) :
    VersionAhead cpVersion stream n ↔ VersionAhead cpVersion (stream.drop 1) n := by
  constructor
  · intro hahead
    -- the other two rules take an accepted packet off the front
    cases hahead with
    | skip _ _ hrest => exact hrest
    | packet _ haccepted => exact absurd (h.symm.trans haccepted) Bool.noConfusion
    | here _ haccepted => exact absurd (h.symm.trans haccepted) Bool.noConfusion
  · exact VersionAhead.skip hlen h

theorem versionAhead_packet (hlen : dbVerInfoSize < stream.length) (h : asrAccepted stream = true)
    (hfull : wPduLen stream ≤ stream.length) (hmore : ¬ completesVersion cpVersion stream) :
    VersionAhead cpVersion stream n ↔
      VersionAhead (cpVersionAfter cpVersion stream) (stream.drop (wPduLen stream)) n := by
  constructor
  · intro hahead
    cases hahead with
    | skip _ hrejected => exact absurd (hrejected.symm.trans h) Bool.noConfusion
    | packet _ _ _ _ hrest => exact hrest
    | here _ _ _ hcomplete => exact absurd hcomplete hmore
  · exact VersionAhead.packet hlen h hfull hmore

theorem versionAhead_here (hlen : dbVerInfoSize < stream.length) (h : asrAccepted stream = true)
    (hfull : wPduLen stream ≤ stream.length) (hcomplete : completesVersion cpVersion stream) :
    VersionAhead cpVersion stream n ↔ n = stream.length := by
  constructor
  · intro hahead
    cases hahead with
    | skip _ hrejected => exact absurd (hrejected.symm.trans h) Bool.noConfusion
    | packet _ _ _ hmore => exact absurd hcomplete hmore
    | here => rfl
  · rintro rfl
    exact VersionAhead.here hlen h hfull hcomplete

/-- The record still completes the version when it is met once more. -/
theorem completesVersion_again (h : completesVersion cpVersion stream) :
    completesVersion (cpVersionAfter cpVersion stream) stream := by
  have hagain : cpVersionAfter (cpVersionAfter cpVersion stream) stream = cpVersionAfter cpVersion stream := by
    rw [cpVersionAfter, cpVersionAfter]
    split <;> rfl
  exact ⟨h.1, by rw [hagain]; exact h.2⟩

end Ahead

/-! ## One walk -/

section Walk

variable {g : AsrVersions} {pbuf : List UInt8}

theorem cpVersion_updateUETime : (g.updateUETime pbuf).cpVersion = g.cpVersion := by
  rw [AsrVersions.updateUETime]
  split <;> rfl

theorem cpVersion_store : (g.store pbuf).cpVersion = cpVersionAfter g.cpVersion pbuf := by
  rw [AsrVersions.store, cpVersionAfter]
  by_cases hdb : isDbVersion pbuf = true
  · rw [if_pos hdb]
    by_cases hap : wSap pbuf = 0x8001
    · rw [if_pos hap, if_neg (by omega)]
    · rw [if_neg hap]
      by_cases hcp : wSap pbuf = 0x01
      · rw [if_pos hcp, if_pos ⟨hdb, hcp⟩]
      · rw [if_neg hcp, if_neg (fun hx => hcp hx.2)]
  · rw [if_neg hdb, if_neg (fun hx => hdb hx.1)]

theorem found_iff : g.found pbuf = true ↔ completesVersion g.cpVersion pbuf := by
  rw [AsrVersions.found, completesVersion, Bool.and_eq_true, decide_eq_true_eq, cpVersion_store]

/-- What is read of a packet lies inside it. -/
theorem asrPacket_append (more : List UInt8) (hlen : dbVerInfoSize ≤ pbuf.length) :
    wPduLen (pbuf ++ more) = wPduLen pbuf ∧ asrAccepted (pbuf ++ more) = asrAccepted pbuf := by
  have hsize : 16 ≤ pbuf.length := hlen
  have hpdu : wPduLen (pbuf ++ more) = wPduLen pbuf := by
    rw [wPduLen, wPduLen, window_append_left more (by omega)]
  have hsap : wSap (pbuf ++ more) = wSap pbuf := by
    rw [wSap, wSap, window_append_left more (by omega)]
  refine ⟨hpdu, ?_⟩
  rw [asrAccepted, asrAccepted, hpdu, hsap, window_append_left more (by omega)]

theorem isDbVersion_append (more : List UInt8) (hlen : dbVerInfoSize ≤ pbuf.length)
    (hfull : wPduLen pbuf ≤ pbuf.length) :
    isDbVersion (pbuf ++ more) = isDbVersion pbuf ∧
      (isDbVersion pbuf = true → wSap (pbuf ++ more) = wSap pbuf ∧ dbVersion (pbuf ++ more) = dbVersion pbuf) := by
  have hsize : 16 ≤ pbuf.length := hlen
  have hpdu := (asrPacket_append more hlen).1
  by_cases hrecord : wPduLen pbuf = 0x1B
  · -- the whole record is there
    have h27 : 27 ≤ pbuf.length := by omega
    have hlast : (pbuf ++ more).getD 26 0 = pbuf.getD 26 0 := by
      rw [List.getD_eq_getElem?_getD, List.getD_eq_getElem?_getD, List.getElem?_append_left (by omega)]
    refine ⟨?_, fun _ => ⟨?_, ?_⟩⟩
    · rw [isDbVersion, isDbVersion, hpdu, hlast, window_append_left more (by omega),
        window_append_left more (by omega), window_append_left more (by omega)]
    · rw [wSap, wSap, window_append_left more (by omega)]
    · rw [dbVersion, dbVersion, window_append_left more h27]
  -- the length of the packet alone rules out a record
  · have hno : isDbVersion pbuf = false := by
      rw [isDbVersion, decide_eq_false hrecord]
      rfl
    have hno' : isDbVersion (pbuf ++ more) = false := by
      rw [isDbVersion, hpdu, decide_eq_false hrecord]
      rfl
    exact ⟨hno'.trans hno.symm, fun hx => absurd (hno.symm.trans hx) Bool.noConfusion⟩

theorem completesVersion_append (more : List UInt8) (hlen : dbVerInfoSize < pbuf.length)
    (hfull : wPduLen pbuf ≤ pbuf.length) (cpVersion : Nat) :
    cpVersionAfter cpVersion (pbuf ++ more) = cpVersionAfter cpVersion pbuf ∧
      (completesVersion cpVersion (pbuf ++ more) ↔ completesVersion cpVersion pbuf) := by
  obtain ⟨hdb, hfields⟩ := isDbVersion_append more hlen.le hfull
  have hafter : cpVersionAfter cpVersion (pbuf ++ more) = cpVersionAfter cpVersion pbuf := by
    rw [cpVersionAfter, cpVersionAfter, hdb]
    by_cases hrecord : isDbVersion pbuf = true
    · rw [(hfields hrecord).1, (hfields hrecord).2]
    · rw [if_neg (fun hx => hrecord hx.1), if_neg (fun hx => hrecord hx.1)]
  exact ⟨hafter, by rw [completesVersion, completesVersion, hafter, hdb]⟩

/-- How a walk ends: with less than a header, with a packet that is not complete, or at the record looked for. -/
inductive WalkEnd (g : AsrVersions) (rest : List UInt8) : Prop
  | short : rest.length ≤ dbVerInfoSize → WalkEnd g rest
  | incomplete : asrAccepted rest = true → rest.length < wPduLen rest → WalkEnd g rest
  | found : dbVerInfoSize < rest.length → asrAccepted rest = true → wPduLen rest ≤ rest.length →
      completesVersion g.cpVersion rest → WalkEnd g rest

theorem asrWalk_end (rounds : Nat) (g : AsrVersions) (pbuf : List UInt8) (hrounds : pbuf.length ≤ rounds) :
    WalkEnd (asrWalk rounds g pbuf).1 (asrWalk rounds g pbuf).2 := by
  induction rounds generalizing g pbuf with
  | zero => exact WalkEnd.short (hrounds.trans (Nat.zero_le _))
  | succ rounds ih =>
      rw [asrWalk]
      split
      · next hshort => exact WalkEnd.short hshort
      · next hlen =>
          split
          · exact ih _ _ (by rw [List.length_drop]; omega)
          · next haccepted =>
              rw [Bool.not_eq_false] at haccepted
              dsimp only
              split
              · next hwait => exact WalkEnd.incomplete haccepted hwait
              · next hfull =>
                  split
                  · next hfound =>
                      refine WalkEnd.found (Nat.not_le.mp hlen) haccepted (Nat.not_lt.mp hfull) ?_
                      show completesVersion ((g.updateUETime pbuf).store pbuf).cpVersion pbuf
                      rw [cpVersion_store]
                      exact completesVersion_again (found_iff.mp hfound)
                  · have hpos : 0 < wPduLen pbuf := by
                      rw [asrAccepted, Bool.and_eq_true, Bool.and_eq_true, decide_eq_true_eq] at haccepted
                      exact Nat.pos_of_ne_zero haccepted.1.1
                    exact ih _ _ (by rw [List.length_drop]; omega)

/-- A packet that is not complete is not longer than what the parser takes for one. -/
theorem length_of_incomplete (haccepted : asrAccepted pbuf = true) (hwait : pbuf.length < wPduLen pbuf) :
    pbuf.length < 7680 := by
  rw [asrAccepted, Bool.and_eq_true, decide_eq_true_eq (p := _ ≤ _)] at haccepted
  have hmax := haccepted.2
  split at hmax <;> omega

/-- **A walk does not change what is ahead**, with any bytes behind the buffer. -/
theorem versionAhead_asrWalk (rounds : Nat) (g : AsrVersions) (pbuf more : List UInt8) (n : Nat) :
    VersionAhead (asrWalk rounds g pbuf).1.cpVersion ((asrWalk rounds g pbuf).2 ++ more) n ↔
      VersionAhead g.cpVersion (pbuf ++ more) n := by
  induction rounds generalizing g pbuf with
  | zero => exact Iff.rfl
  | succ rounds ih =>
      rw [asrWalk]
      split
      · exact Iff.rfl
      · next hlen =>
          rw [Nat.not_le] at hlen
          have hlen' : dbVerInfoSize < (pbuf ++ more).length := by
            rw [List.length_append]
            omega
          obtain ⟨hpdu, hsame⟩ := asrPacket_append more hlen.le
          split
          · next hrejected =>
              rw [ih, versionAhead_skip hlen' (hsame.trans hrejected), List.drop_append_of_le_length (by omega)]
          · next haccepted =>
              rw [Bool.not_eq_false] at haccepted
              dsimp only
              split
              · rw [cpVersion_updateUETime]
              · next hfull =>
                  rw [Nat.not_lt] at hfull
                  have hfull' : wPduLen (pbuf ++ more) ≤ (pbuf ++ more).length := by
                    rw [hpdu, List.length_append]
                    omega
                  obtain ⟨hafter, hcompletes⟩ := completesVersion_append more hlen hfull g.cpVersion
                  split
                  · next hfound =>
                      -- the record is here, before the walk and after it
                      rw [found_iff, cpVersion_updateUETime] at hfound
                      have hhere := hcompletes.mpr hfound
                      have hagain := completesVersion_again hhere
                      show VersionAhead ((g.updateUETime pbuf).store pbuf).cpVersion _ n ↔ _
                      rw [cpVersion_store, cpVersion_updateUETime, ← hafter,
                        versionAhead_here hlen' (hsame.trans haccepted) hfull' hhere,
                        versionAhead_here hlen' (hsame.trans haccepted) hfull' hagain]
                  · next hmore =>
                      rw [found_iff, cpVersion_updateUETime] at hmore
                      rw [ih, cpVersion_store, cpVersion_updateUETime,
                        versionAhead_packet hlen' (hsame.trans haccepted) hfull'
                          (fun hx => hmore (hcompletes.mp hx)),
                        hafter, hpdu, List.drop_append_of_le_length hfull]

end Walk

/-! ## Whole calls -/

section Call

variable {s : AsrState} {buf : List UInt8}

theorem asrPass_stream (s : AsrState) (buf : List UInt8) :
    s.dataBuf ++ buf.take (dataMax - s.dataBuf.length) ++ (asrPass s buf).2 = s.dataBuf ++ buf := by
  rw [asrPass, List.append_assoc, List.take_append_drop]

/-- A pass does not change what is ahead. -/
theorem versionAhead_asrPass {n : Nat} :
    VersionAhead (asrPass s buf).1.versions.cpVersion ((asrPass s buf).1.dataBuf ++ (asrPass s buf).2) n ↔
      VersionAhead s.versions.cpVersion (s.dataBuf ++ buf) n := by
  rw [← asrPass_stream s buf]
  exact versionAhead_asrWalk _ s.versions _ _ n

/-- A record with more behind it than the buffer holds is never got past. -/
theorem asrParserDbversion_none {n : Nat} (h : VersionAhead s.versions.cpVersion (s.dataBuf ++ buf) n)
    (hn : dataMax < n) (passes : Nat) : asrParserDbversion passes s buf = none := by
  induction passes generalizing s buf with
  | zero => rfl
  | succ passes ih =>
      have hahead := versionAhead_asrPass.mpr h
      have hle := hahead.le
      have hbuf := (asrPass s buf).1.length_le
      -- with nothing left over, all from the record on would be in the buffer
      have hmore : (asrPass s buf).2 ≠ [] := by
        intro hnil
        rw [hnil, List.append_nil] at hle
        omega
      rw [asrParserDbversion, if_neg hmore]
      exact ih hahead

/-- A pass after which bytes of the call remain has had a full buffer. -/
theorem length_mem_of_more (h : (asrPass s buf).2 ≠ []) :
    (s.dataBuf ++ buf.take (dataMax - s.dataBuf.length)).length = dataMax := by
  have hlen := s.length_le
  have hpos : 0 < (buf.drop (dataMax - s.dataBuf.length)).length := List.length_pos_iff.mpr h
  rw [List.length_drop] at hpos
  rw [List.length_append, List.length_take]
  omega

/-- From a buffer that starts with such a record the next pass takes all that fits behind it. -/
theorem asrPass_of_found (hlong : dbVerInfoSize < s.dataBuf.length) (haccepted : asrAccepted s.dataBuf = true)
    (hfull : wPduLen s.dataBuf ≤ s.dataBuf.length) (hcomplete : completesVersion s.versions.cpVersion s.dataBuf)
    (h : ∀ n, VersionAhead s.versions.cpVersion (s.dataBuf ++ buf) n → n ≤ dataMax) : (asrPass s buf).2 = [] := by
  obtain ⟨hpdu, hsame⟩ := asrPacket_append buf hlong.le
  have hlong' : dbVerInfoSize < (s.dataBuf ++ buf).length := by
    rw [List.length_append]
    omega
  have hhere := VersionAhead.here hlong' (hsame.trans haccepted) (by rw [hpdu, List.length_append]; omega)
    ((completesVersion_append buf hlong hfull _).2.mpr hcomplete)
  have hfits := h _ hhere
  apply List.drop_of_length_le
  rw [List.length_append] at hfits
  omega

/-- Without such a record the parser comes to the end of the buffer. -/
theorem asrParserDbversion_returns
    (h : ∀ n, VersionAhead s.versions.cpVersion (s.dataBuf ++ buf) n → n ≤ dataMax) :
    ∃ passes, (asrParserDbversion passes s buf).isSome := by
  -- by induction on the bytes that are buffered or still to come
  induction hlen : (s.dataBuf ++ buf).length using Nat.strong_induction_on generalizing s buf with
  | _ len ih =>
      have hahead : ∀ n, VersionAhead (asrPass s buf).1.versions.cpVersion
          ((asrPass s buf).1.dataBuf ++ (asrPass s buf).2) n → n ≤ dataMax :=
        fun n hn => h n (versionAhead_asrPass.mp hn)
      by_cases hmore : (asrPass s buf).2 = []
      · refine ⟨1, ?_⟩
        rw [asrParserDbversion, if_pos hmore]
        rfl
      · have hmem := length_mem_of_more hmore
        have hstream := congrArg List.length (asrPass_stream s buf)
        rw [List.length_append, hmem, hlen] at hstream
        have hnext : ∀ passes, (asrParserDbversion passes (asrPass s buf).1 (asrPass s buf).2).isSome →
            ∃ passes, (asrParserDbversion passes s buf).isSome := by
          intro passes hpasses
          refine ⟨passes + 1, ?_⟩
          rw [asrParserDbversion, if_neg hmore]
          exact hpasses
        have hshorter : (asrPass s buf).1.dataBuf.length < dataMax →
            ∃ passes, (asrParserDbversion passes s buf).isSome := by
          intro hless
          obtain ⟨passes, hpasses⟩ := ih ((asrPass s buf).1.dataBuf ++ (asrPass s buf).2).length
            (by rw [List.length_append]; omega) hahead rfl
          exact hnext passes hpasses
        have hend : WalkEnd (asrPass s buf).1.versions (asrPass s buf).1.dataBuf :=
          asrWalk_end _ s.versions _ (Nat.le_refl _)
        -- the walk has made room in the buffer, or it has stopped at the record, and then the next pass is the last
        cases hend with
        | short hshort => exact hshorter (Nat.lt_of_le_of_lt hshort (by decide))
        | incomplete haccepted hwait =>
            exact hshorter (Nat.lt_trans (length_of_incomplete haccepted hwait) (by decide))
        | found hfound haccepted hfull hcomplete =>
            have hlast := asrPass_of_found hfound haccepted hfull hcomplete hahead
            refine hnext 1 ?_
            rw [asrParserDbversion, if_pos hlast]
            rfl

/-- **When the version parser returns**: unless the version is already known, exactly if not more than `data_max`
bytes lie from the record that completes it to the end of the data. -/
theorem asrReturns_iff (s : AsrState) (buf : List UInt8) :
    AsrReturns s buf ↔ s.versions.queryVersionDone = true ∨
      ∀ n, VersionAhead s.versions.cpVersion (s.dataBuf ++ buf) n → n ≤ dataMax := by
  by_cases hnothing : buf = [] ∨ s.versions.queryVersionDone = true
  · have hreturns : AsrReturns s buf := ⟨0, by rw [asrLogfileSave, if_pos hnothing]; rfl⟩
    refine iff_of_true hreturns ?_
    rcases hnothing with rfl | hdone
    · right
      intro n hn
      rw [List.append_nil] at hn
      exact hn.le.trans s.length_le
    · exact Or.inl hdone
  · have hsave : ∀ passes, asrLogfileSave passes s buf = asrParserDbversion passes s buf :=
      fun passes => if_neg hnothing
    constructor
    · rintro ⟨passes, hpasses⟩
      right
      intro n hn
      by_contra hlong
      rw [hsave, asrParserDbversion_none hn (Nat.not_le.mp hlong)] at hpasses
      cases hpasses
    · rintro (hdone | hahead)
      · exact absurd (Or.inr hdone) hnothing
      · obtain ⟨passes, hpasses⟩ := asrParserDbversion_returns hahead
        exact ⟨passes, by rw [hsave]; exact hpasses⟩

end Call

/-! ## A call that does not return -/

/-- The answer of the CP with the version 0x100b, as it stands in the description of the commands. -/
def cpVersionRecord : List UInt8 :=
  [0x1B, 0x00, 0x00, 0x00, 0x01, 0x00, 0x00, 0x00, 0xFF, 0xFF, 0x00, 0x00, 0x45, 0x49, 0x5C, 0x05,
    0x30, 0x78, 0x30, 0x30, 0x30, 0x30, 0x31, 0x30, 0x30, 0x62, 0x00]

/-- The state at the start of a log. -/
def asrStart : AsrState where
  versions := ⟨0, 0, 0, false⟩
  dataBuf := []
  length_le := Nat.zero_le _

theorem not_asrReturns_cpVersionRecord :
    ¬ ∀ (s : AsrState) (buf : List UInt8), s.versions.queryVersionDone = false → AsrReturns s buf := by
  intro h
  obtain ⟨passes, hpasses⟩ := h asrStart (cpVersionRecord ++ List.replicate dataMax 0) rfl
  have hlen : dbVerInfoSize < cpVersionRecord.length := by decide
  have hfull : wPduLen cpVersionRecord ≤ cpVersionRecord.length := by decide
  obtain ⟨hpdu, hsame⟩ := asrPacket_append (List.replicate dataMax 0) hlen.le
  have hcomplete : completesVersion 0 (cpVersionRecord ++ List.replicate dataMax 0) :=
    (completesVersion_append _ hlen hfull 0).2.mpr (by decide)
  have htotal : (cpVersionRecord ++ List.replicate dataMax 0).length = 27 + dataMax := by
    rw [List.length_append, List.length_replicate]
    rfl
  have hhere : VersionAhead 0 (cpVersionRecord ++ List.replicate dataMax 0) (27 + dataMax) := by
    refine (versionAhead_here ?_ (hsame.trans (by decide)) ?_ hcomplete).mpr htotal.symm
    · rw [htotal]
      decide
    · rw [hpdu, htotal]
      decide
  have hnone := asrParserDbversion_none (s := asrStart) hhere (by decide) passes
  have hsave : asrLogfileSave passes asrStart (cpVersionRecord ++ List.replicate dataMax 0) = none := by
    rw [asrLogfileSave, if_neg (by simp [cpVersionRecord, asrStart])]
    exact hnone
  rw [hsave] at hpasses
  cases hpasses

end QLog
