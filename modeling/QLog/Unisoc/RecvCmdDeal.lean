import QLog.Library.ByteBuffer
import QLog.Library.CNumber
import QLog.Library.LittleEndian

/-! # Answers of the EC800G

`unisoc_ec800g_recv_cmd_deal` reads until an answer to the last request has come. It unescapes what it has read into
`pbuf_tmp`, looks there for the header of an answer, and checks the request id, the length and the delimiters.

Several counts of bytes are taken for the same: those that have been read, less one for every escape, and those that
have been decoded; an escape that is none loses a byte. The length of the answer is compared with them as if it began
with the first one, and where no header is found, the place of an earlier one is looked at again. `pbuf_tmp` keeps what
was decoded before. -/

namespace QLog.Ec800g

open Library

/-- `QLOG_BUF_SIZE` -/
def qlogBufSize : Nat := 64 * 1024

/-- What `unisoc_ec800g_recv_cmd` returns. -/
inductive ReadResult
  | bytes (chunk : List UInt8) (le : chunk.length ≤ qlogBufSize)
  /-- `-1`, taken for a `size_t`. -/
  | failed

/-- The bytes of a read. -/
def ReadResult.chunk : ReadResult → List UInt8
  | .bytes chunk _ => chunk
  | .failed => []

/-- `rc` -/
def ReadResult.rc : ReadResult → Nat
  | .bytes chunk _ => chunk.length
  | .failed => 2 ^ 64 - 1

theorem ReadResult.length_chunk_le (read : ReadResult) : read.chunk.length ≤ qlogBufSize := by
  cases read with
  | bytes chunk le => exact le
  | failed => exact Nat.zero_le _

/-- The `type` of an answer. -/
inductive AnswerType
  | readBlock
  | read32
deriving DecidableEq

/-- What a round of the loop meets. -/
structure RecvInput where
  read : ReadResult
  /-- The memory of the stack from `buf_tmp1` on. -/
  stack : Nat → UInt8
  /-- `qlog_exit_requested`, at the end of the round. -/
  exit : Bool

/-- The variables of the loop, with `*psize`, `*pvalue` and the number `j` of bytes decoded in the last round. -/
structure RecvVars where
  pbuf : List UInt8
  pbufTmp : List UInt8
  rc : Nat
  rcValidSize : Nat
  rcNeedSize : Nat
  realStartOffset : Nat
  psize : Nat
  pvalue : Nat
  j : Nat

/-- The byte that an escape stands for. -/
def escaped (b : UInt8) : Option UInt8 :=
  if b = 0x5d then some 0x7d else if b = 0x5e then some 0x7e else none

/-- The loop that unescapes, with the byte of `pbuf` behind those that have been read: the bytes decoded, and how often
`rc_valid_size` is made smaller. -/
def unescape (behind : UInt8) : List UInt8 → List UInt8 × Nat
  | [] => ([], 0)
  | [b] =>
      if b = 0x7d then
        match escaped behind with
        | some e => ([e], 1)
        | none => ([], 0)
      else ([b], 0)
  | b :: c :: rest =>
      if b = 0x7d then
        match escaped c with
        | some e => (e :: (unescape behind rest).1, (unescape behind rest).2 + 1)
        -- an escape that is none: its first byte is lost, and nobody counts that
        | none => unescape behind (c :: rest)
      else (b :: (unescape behind (c :: rest)).1, (unescape behind (c :: rest)).2)

/-- The comparison of the bytes from `i` on with the header of an answer. -/
def HeaderAt (pbufTmp : List UInt8) (i : Nat) : Prop :=
  pbufTmp[i]? = some 0x7e ∧ window pbufTmp (i + 7) (i + 11) = [0x0b, 0x00, 0x03, 0xa0]

instance (pbufTmp : List UInt8) (i : Nat) : Decidable (HeaderAt pbufTmp i) := inferInstanceAs (Decidable (_ ∧ _))

/-- The loop that looks for a header. -/
def findHeader (pbufTmp : List UInt8) (rcValidSize : Nat) : Option Nat :=
  (List.range (toInt32 (rcValidSize % 2 ^ 32)).toNat).find? fun i => 20 ≤ rcValidSize - i ∧ HeaderAt pbufTmp i

/-- The two bytes of the length field. -/
def lengthField (pbufTmp : List UInt8) (realStartOffset : Nat) : Nat :=
  ofLeBytes (window pbufTmp (realStartOffset + 11) (realStartOffset + 13))

/-- A round of the loop, up to its checks. -/
def recvRound (type : AnswerType) (s : RecvVars) (inp : RecvInput) : RecvVars :=
  let pbuf := overwrite s.pbuf 0 inp.read.chunk
  let decoded := unescape (pbuf.getD inp.read.chunk.length 0) inp.read.chunk
  let pbufTmp := overwrite s.pbufTmp 0 decoded.1
  let rcValidSize := inp.read.rc - decoded.2
  -- the place of an earlier round stays where nothing is found
  let realStartOffset := (findHeader pbufTmp rcValidSize).getD s.realStartOffset
  let psize := (lengthField pbufTmp realStartOffset + 2 ^ 16 - 16) % 2 ^ 16
  { pbuf := pbuf
    pbufTmp := pbufTmp
    rc := inp.read.rc
    rcValidSize := rcValidSize
    rcNeedSize := psize + 16 + 8 + 2
    realStartOffset := realStartOffset
    psize := psize
    pvalue :=
      match type with
      | .readBlock => s.pvalue
      -- `buf_tmp1[0] = buf_tmp1[real_start_offset + 25]`, and so on: bytes behind the array, not those of the answer
      | .read32 => ofLeBytes ((List.range 4).map fun k => inp.stack (realStartOffset + 25 + k))
    j := decoded.1.length }

/-- The checks of a round: the loop is left by its `break`. -/
def Accepts (rid : Nat) (s : RecvVars) : Prop :=
  rid = ofLeBytes (window s.pbufTmp (s.realStartOffset + 1) (s.realStartOffset + 5)) ∧
    s.rcNeedSize ≤ s.rcValidSize ∧ s.pbufTmp[s.realStartOffset]? = some 0x7e ∧
      s.pbufTmp[s.realStartOffset + s.rcNeedSize - 1]? = some 0x7e

instance (rid : Nat) (s : RecvVars) : Decidable (Accepts rid s) := inferInstanceAs (Decidable (_ ∧ _))

/-- How the loop has been left: by its `break` or because of `qlog_exit_requested`, in which last round, with the
variables in front of that round and behind it. -/
structure RecvResult where
  accepted : Bool
  last : RecvInput
  before : RecvVars
  vars : RecvVars

/-- The loop, if it ends with these reads. -/
def recvLoop (rid : Nat) (type : AnswerType) : RecvVars → List RecvInput → Option RecvResult
  | _, [] => none
  | s, inp :: inputs =>
      if Accepts rid (recvRound type s inp) then some ⟨true, inp, s, recvRound type s inp⟩
      else if inp.exit then some ⟨false, inp, s, recvRound type s inp⟩
      else recvLoop rid type (recvRound type s inp) inputs

/-- `pbuf_tmp[real_start_offset .. real_start_offset + rc_need_size)` -/
def RecvVars.frame (s : RecvVars) : List UInt8 :=
  window s.pbufTmp s.realStartOffset (s.realStartOffset + s.rcNeedSize)

/-- `pbuf` in the end, with the frame at its front. -/
def RecvResult.pbuf (r : RecvResult) : List UInt8 := overwrite r.vars.pbuf 0 r.vars.frame

/-- The variables of `unisoc_ec800g_recv_cmd_deal` when it begins; `pbuf_tmp`, `*psize` and `*pvalue` are older. -/
def recvStart (pbuf pbufTmp : List UInt8) (psize pvalue : Nat) : RecvVars :=
  ⟨pbuf, pbufTmp, 0, 0, 0, 0, psize, pvalue, 0⟩

/-- `unisoc_ec800g_recv_cmd_deal` -/
def recvCmdDeal (rid : Nat) (type : AnswerType) (pbuf pbufTmp : List UInt8) (psize pvalue : Nat)
    (inputs : List RecvInput) : Option RecvResult :=
  recvLoop rid type (recvStart pbuf pbufTmp psize pvalue) inputs

/-! ## Valid answers -/

/-- The frame is an answer with the id `rid`, and lies within the bytes that the last round has decoded. -/
structure FrameOk (rid : Nat) (s : RecvVars) : Prop where
  inside : s.realStartOffset + s.rcNeedSize ≤ s.j
  first : s.pbufTmp[s.realStartOffset]? = some 0x7e
  last : s.pbufTmp[s.realStartOffset + s.rcNeedSize - 1]? = some 0x7e
  tag : window s.pbufTmp (s.realStartOffset + 7) (s.realStartOffset + 11) = [0x0b, 0x00, 0x03, 0xa0]
  rid : ofLeBytes (window s.pbufTmp (s.realStartOffset + 1) (s.realStartOffset + 5)) = rid
  length : 16 ≤ lengthField s.pbufTmp s.realStartOffset

/-- **Answers are validated**: an accepted frame is an answer, and nothing else is copied over what the reads have left
in `pbuf`. -/
structure Validated (rid : Nat) (r : RecvResult) : Prop where
  frame : r.accepted = true → FrameOk rid r.vars
  changed : r.accepted = false → r.pbuf = r.vars.pbuf

/-- The bytes `0x7d` that are lost. -/
def dropped (behind : UInt8) : List UInt8 → Nat
  | [] => 0
  | [b] => if b = 0x7d ∧ escaped behind = none then 1 else 0
  | b :: c :: rest =>
      if b = 0x7d then
        match escaped c with
        | some _ => dropped behind rest
        | none => dropped behind (c :: rest) + 1
      else dropped behind (c :: rest)

/-- An escape whose second byte is an old one. -/
def cutEscape (behind : UInt8) : List UInt8 → Nat
  | [] => 0
  | [b] => if b = 0x7d ∧ escaped behind ≠ none then 1 else 0
  | b :: c :: rest => if b = 0x7d ∧ escaped c ≠ none then cutEscape behind rest else cutEscape behind (c :: rest)

/-! ### The last read -/

namespace RecvResult

variable (r : RecvResult)

/-- `pbuf` with the last read at its front. -/
def pbufRead : List UInt8 := overwrite r.before.pbuf 0 r.last.read.chunk

/-- The byte of `pbuf` behind those of the last read. -/
def behind : UInt8 := r.pbufRead.getD r.last.read.chunk.length 0

/-- `pbuf_tmp` with what the last read is decoded to at its front. -/
def decoded : List UInt8 := overwrite r.before.pbufTmp 0 (unescape r.behind r.last.read.chunk).1

/-- The size of the last read, less one for every escape. -/
def validSize : Nat := r.last.read.rc - (unescape r.behind r.last.read.chunk).2

/-- Where the header is that the last round has found, or an earlier one. -/
def offset : Nat := (findHeader r.decoded r.validSize).getD r.before.realStartOffset

/-- How long a frame is whose header is there. -/
def needSize : Nat := (lengthField r.decoded r.offset + 2 ^ 16 - 16) % 2 ^ 16 + 26

end RecvResult

/-- The last read has a header, and behind it as many bytes as its frame needs; without an accepted read, the frame is
at the front of `pbuf` already. -/
structure Sound (r : RecvResult) : Prop where
  found : r.accepted = true → (findHeader r.decoded r.validSize).isSome
  /-- Where the header begins counts, and so do bytes lost; a cut escape makes one byte more. -/
  room : r.accepted = true →
    r.offset + r.needSize + dropped r.behind r.last.read.chunk ≤
      r.validSize + cutEscape r.behind r.last.read.chunk
  exit : r.accepted = false → window r.decoded r.offset (r.offset + r.needSize) <+: r.pbufRead

section Unescape

variable {behind : UInt8} {chunk : List UInt8}

/-- How many bytes are decoded. -/
theorem length_unescape (behind : UInt8) (chunk : List UInt8) :
    (unescape behind chunk).1.length + (unescape behind chunk).2 + dropped behind chunk =
      chunk.length + cutEscape behind chunk := by
  induction chunk using unescape.induct behind with
  | case1 => rfl
  | case2 e he => simp [unescape, dropped, cutEscape, he]
  | case3 he => simp [unescape, dropped, cutEscape, he]
  | case4 b hb => simp [unescape, dropped, cutEscape, hb]
  | case5 c rest e he ih =>
      simp only [unescape, dropped, cutEscape, he, if_true, List.length_cons, ne_eq, reduceCtorEq, not_false_eq_true,
        and_self]
      omega
  | case6 c rest he ih =>
      simp only [unescape, dropped, cutEscape, he, if_true, List.length_cons, ne_eq, not_true_eq_false, and_false,
        if_false] at ih ⊢
      omega
  | case7 b c rest hb ih =>
      simp only [unescape, dropped, cutEscape, hb, if_false, List.length_cons, false_and] at ih ⊢
      omega

theorem cutEscape_le (behind : UInt8) (chunk : List UInt8) : cutEscape behind chunk ≤ 1 := by
  induction chunk using unescape.induct behind with
  | case1 => exact Nat.zero_le 1
  | case2 e he => simp [cutEscape, he]
  | case3 he => simp [cutEscape, he]
  | case4 b hb => simp [cutEscape, hb]
  | case5 c rest e he ih => simpa [cutEscape, he] using ih
  | case6 c rest he ih => simpa [cutEscape, he] using ih
  | case7 b c rest hb ih => simpa [cutEscape, hb] using ih

/-- No more is taken off for escapes than has been read. -/
theorem unescape_snd_le (behind : UInt8) (chunk : List UInt8) : (unescape behind chunk).2 ≤ chunk.length := by
  induction chunk using unescape.induct behind with
  | case1 => exact Nat.zero_le 0
  | case2 e he => simp [unescape, he]
  | case3 he => simp [unescape, he]
  | case4 b hb => simp [unescape, hb]
  | case5 c rest e he ih =>
      simp only [unescape, he, if_true, List.length_cons]
      omega
  | case6 c rest he ih =>
      simp only [unescape, he, if_true, List.length_cons] at ih ⊢
      omega
  | case7 b c rest hb ih =>
      simp only [unescape, hb, if_false, List.length_cons] at ih ⊢
      omega

end Unescape

/-! ## A round that is left -/

section Round

variable {rid : Nat} {type : AnswerType} {s : RecvVars} {inp : RecvInput} {inputs : List RecvInput} {r : RecvResult}

/-- What is known of the round that leaves the loop. -/
theorem recvLoop_spec (h : recvLoop rid type s inputs = some r) :
    r.vars = recvRound type r.before r.last ∧ (r.accepted = true → Accepts rid r.vars) := by
  induction inputs generalizing s with
  | nil => cases h
  | cons inp inputs ih =>
      rw [recvLoop] at h
      split at h
      · next haccepts =>
          obtain rfl := Option.some.inj h
          exact ⟨rfl, fun _ => haccepts⟩
      · split at h
        · obtain rfl := Option.some.inj h
          exact ⟨rfl, fun hfalse => by cases hfalse⟩
        · exact ih h

theorem lengthField_lt (pbufTmp : List UInt8) (i : Nat) : lengthField pbufTmp i < 2 ^ 16 := by
  have h := ofLeBytes_lt (k := 2) (window pbufTmp (i + 11) (i + 13))
    ((length_window_le pbufTmp (i + 11) (i + 13)).trans (by omega))
  exact h

/-- A search among as many bytes as a read can bring. -/
theorem findHeader_range {pbufTmp : List UInt8} {n : Nat} (hn : n ≤ qlogBufSize) :
    findHeader pbufTmp n = (List.range n).find? fun i => 20 ≤ n - i ∧ HeaderAt pbufTmp i := by
  have hsize : qlogBufSize = 65536 := rfl
  have hint : (toInt32 (n % 2 ^ 32)).toNat = n := by
    rw [Nat.mod_eq_of_lt (by omega), toInt32, if_pos (by omega)]
    exact Int.toNat_natCast n
  rw [findHeader, hint]

/-- A search that finds a header finds one at the place that is looked at. -/
theorem recvRound_found
    (hfound : (findHeader (recvRound type s inp).pbufTmp (recvRound type s inp).rcValidSize).isSome) :
    HeaderAt (recvRound type s inp).pbufTmp (recvRound type s inp).realStartOffset := by
  obtain ⟨i, hi⟩ := Option.isSome_iff_exists.mp hfound
  have hoff : (recvRound type s inp).realStartOffset = i := by
    show (findHeader (recvRound type s inp).pbufTmp (recvRound type s inp).rcValidSize).getD s.realStartOffset = i
    rw [hi]
    rfl
  have hat := List.find?_some hi
  rw [decide_eq_true_eq] at hat
  rw [hoff]
  exact hat.2

/-- After a read that has failed nothing is found, and nothing has been decoded. -/
theorem recvRound_failed (type : AnswerType) (s : RecvVars) (hread : inp.read = .failed) :
    (recvRound type s inp).j = 0 ∧
      findHeader (recvRound type s inp).pbufTmp (recvRound type s inp).rcValidSize = none := by
  have hvalid : (recvRound type s inp).rcValidSize = 2 ^ 64 - 1 := by
    show inp.read.rc - (unescape _ inp.read.chunk).2 = _
    rw [hread]
    rfl
  refine ⟨?_, ?_⟩
  · show (unescape _ inp.read.chunk).1.length = 0
    rw [hread]
    rfl
  · rw [hvalid]
    rfl

/-- The counts of a round that has read something. -/
theorem recvRound_counts (type : AnswerType) (s : RecvVars) {chunk : List UInt8} {hle : chunk.length ≤ qlogBufSize}
    (hread : inp.read = .bytes chunk hle) :
    (recvRound type s inp).rcValidSize ≤ qlogBufSize ∧
      (recvRound type s inp).j + dropped ((recvRound type s inp).pbuf.getD inp.read.chunk.length 0) inp.read.chunk =
        (recvRound type s inp).rcValidSize +
          cutEscape ((recvRound type s inp).pbuf.getD inp.read.chunk.length 0) inp.read.chunk := by
  set behind := (recvRound type s inp).pbuf.getD inp.read.chunk.length 0
  have hvalid : (recvRound type s inp).rcValidSize = inp.read.chunk.length - (unescape behind inp.read.chunk).2 := by
    show inp.read.rc - (unescape behind inp.read.chunk).2 = _
    rw [hread]
    rfl
  have hj : (recvRound type s inp).j = (unescape behind inp.read.chunk).1.length := rfl
  have hchunk := inp.read.length_chunk_le
  have hlength := length_unescape behind inp.read.chunk
  have hescapes := unescape_snd_le behind inp.read.chunk
  omega

/-- An accepted frame is an answer within the bytes decoded exactly if the read has a header, and room for the frame
behind it. -/
theorem frameOk_iff (haccepts : Accepts rid (recvRound type s inp)) :
    FrameOk rid (recvRound type s inp) ↔
      (findHeader (recvRound type s inp).pbufTmp (recvRound type s inp).rcValidSize).isSome ∧
        (recvRound type s inp).realStartOffset + (recvRound type s inp).rcNeedSize +
            dropped ((recvRound type s inp).pbuf.getD inp.read.chunk.length 0) inp.read.chunk ≤
          (recvRound type s inp).rcValidSize +
            cutEscape ((recvRound type s inp).pbuf.getD inp.read.chunk.length 0) inp.read.chunk := by
  have hneed : (recvRound type s inp).rcNeedSize =
      (lengthField (recvRound type s inp).pbufTmp (recvRound type s inp).realStartOffset + 2 ^ 16 - 16) % 2 ^ 16 + 26 :=
    rfl
  have hcut := cutEscape_le ((recvRound type s inp).pbuf.getD inp.read.chunk.length 0) inp.read.chunk
  have hfield := lengthField_lt (recvRound type s inp).pbufTmp (recvRound type s inp).realStartOffset
  have hsize : qlogBufSize = 65536 := rfl
  obtain ⟨hrid, hvalid, hfirst, hlast⟩ := haccepts
  cases hread : inp.read with
  | failed =>
      obtain ⟨hj, hnone⟩ := recvRound_failed type s hread
      refine iff_of_false (fun h => ?_) fun h => ?_
      · have hinside := h.inside
        omega
      · rw [hnone] at h
        exact absurd h.1 (by decide)
  | bytes chunk hle =>
      obtain ⟨hbound, hcounts⟩ := recvRound_counts type s hread
      rw [hread] at hcounts hcut
      constructor
      · intro h
        have hinside := h.inside
        refine ⟨?_, by omega⟩
        -- the frame itself begins with a header, so that the search comes to one
        rw [findHeader_range hbound, List.find?_isSome]
        refine ⟨(recvRound type s inp).realStartOffset, List.mem_range.mpr (by omega), decide_eq_true ⟨by omega, ?_⟩⟩
        exact ⟨h.first, h.tag⟩
      · rintro ⟨hfound, hroom⟩
        refine ⟨by omega, hfirst, hlast, (recvRound_found hfound).2, hrid.symm, ?_⟩
        -- a length that wraps is larger than any read
        omega

end Round

/-- **When answers are validated**: exactly if an accepted read has a header, with room behind it for a frame of the
announced size, and the function is not told to end before an answer is accepted. -/
theorem recvCmdDeal_validated_iff (rid : Nat) (type : AnswerType) (pbuf pbufTmp : List UInt8) (psize pvalue : Nat)
    (inputs : List RecvInput) :
    (∀ r ∈ recvCmdDeal rid type pbuf pbufTmp psize pvalue inputs, Validated rid r) ↔
      ∀ r ∈ recvCmdDeal rid type pbuf pbufTmp psize pvalue inputs, Sound r := by
  refine forall₂_congr fun r hr => ?_
  obtain ⟨hvars, haccepts⟩ := recvLoop_spec hr
  have hframe : r.accepted = true → (FrameOk rid r.vars ↔
      (findHeader r.decoded r.validSize).isSome ∧
        r.offset + r.needSize + dropped r.behind r.last.read.chunk ≤
          r.validSize + cutEscape r.behind r.last.read.chunk) := by
    intro haccepted
    have h := haccepts haccepted
    rw [hvars] at h ⊢
    exact frameOk_iff h
  have hcopy : r.pbuf = r.vars.pbuf ↔ window r.decoded r.offset (r.offset + r.needSize) <+: r.pbufRead := by
    rw [RecvResult.pbuf, hvars]
    exact overwrite_zero_eq_self_iff
  constructor
  · rintro ⟨hok, hchanged⟩
    exact ⟨fun h => ((hframe h).mp (hok h)).1, fun h => ((hframe h).mp (hok h)).2, fun h => hcopy.mp (hchanged h)⟩
  · rintro ⟨hfound, hroom, hexit⟩
    exact ⟨fun h => (hframe h).mpr ⟨hfound h, hroom h⟩, fun h => hcopy.mpr (hexit h)⟩

/-- A late answer with the id 0 and four bytes of data, and the one with the id 1, of which the last byte has not come,
but one that should not have come at all. -/
def cutAnswer : List RecvInput :=
  let answer := fun (rid : UInt8) (rest : List UInt8) =>
    [0x7e, rid, 0, 0, 0, 0, 0, 0x0b, 0x00, 0x03, 0xa0, 20, 0, 0, 0, 0, 0, 0, 0, 0, 0, 0, 0, 0, 0] ++ rest
  [⟨.bytes (answer 0 [1, 2, 3, 4, 0x7e]) (by decide), fun _ => 0, false⟩,
    ⟨.bytes (answer 1 [0x7d, 5, 6, 7, 8]) (by decide), fun _ => 0, false⟩]

/-- An escape that is none makes up for the last byte: the delimiter is that of the answer before. -/
theorem not_recvCmdDeal_validated :
    ¬ ∀ (rid : Nat) (type : AnswerType) (pbuf pbufTmp : List UInt8) (psize pvalue : Nat) (inputs : List RecvInput),
      pbuf.length = qlogBufSize → pbufTmp.length = 2 * qlogBufSize →
        ∀ r ∈ recvCmdDeal rid type pbuf pbufTmp psize pvalue inputs, Validated rid r := by
  intro h
  have hresult : (recvCmdDeal 1 .readBlock (List.replicate qlogBufSize 0) (List.replicate (2 * qlogBufSize) 0) 0 0
      cutAnswer).map (fun r => (r.accepted, r.vars.realStartOffset + r.vars.rcNeedSize, r.vars.j)) =
        some (true, 30, 29) := by decide
  obtain ⟨r, hr, heq⟩ := Option.map_eq_some_iff.mp hresult
  obtain ⟨haccepted, hend, hj⟩ :
      r.accepted = true ∧ r.vars.realStartOffset + r.vars.rcNeedSize = 30 ∧ r.vars.j = 29 := by
    simpa using heq
  have hinside := ((h 1 .readBlock _ _ 0 0 cutAnswer List.length_replicate List.length_replicate r hr).frame
    haccepted).inside
  omega

end QLog.Ec800g
