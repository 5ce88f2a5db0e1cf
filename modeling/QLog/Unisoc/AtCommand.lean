import QLog.Diag.Unescaped
import QLog.Library.ByteBuffer
import QLog.Library.CString
import QLog.Library.LittleEndian

/-! # The AT commands of a Unisoc configuration file

`unisoc_init_filter` reads the file line by line, takes a line feed and a carriage return off the end of each line and
sends the rest as an AT command. The end is looked for from the length of the string, and the length is not looked at:
in a line that has become empty, the byte before the buffer is read. The frame of a command is built in 256 bytes,
whatever its length, and is not stuffed. -/

namespace QLog.AtCommand

open Library DiagPkt

/-- `sizeof(recv_cfg_buf)` -/
def sizeofRecvCfgBuf : Nat := 512

/-- The lines of a file, as `fgets` returns them: up to a line feed, or as much as the buffer holds with a zero behind
it. `line` is what has been read of the current one. -/
def fgetsLines (line : List UInt8) : List UInt8 → List (List UInt8)
  | [] => if line = [] then [] else [line]
  | b :: bytes =>
      if b = 0x0a ∨ line.length + 2 = sizeofRecvCfgBuf then (line ++ [b]) :: fgetsLines [] bytes
      else fgetsLines (line ++ [b]) bytes

/-- `recv_cfg_buf`, with the string in it, and `length_cfg`; and the indices that have been used. -/
structure Trimmed where
  text : List UInt8
  length : Int
  indices : List Int

/-- `recv_cfg_buf[i]`, with what stands before the buffer in memory, backwards. -/
def recvCfgByte (before : Nat → UInt8) (text : List UInt8) (i : Int) : UInt8 :=
  if i < 0 then before (-i - 1).toNat else text.getD i.toNat 0

/-- `if (recv_cfg_buf[length_cfg - 1] == c)`, and the body. -/
def trimLast (before : Nat → UInt8) (t : Trimmed) (c : UInt8) : Trimmed :=
  let i := t.length - 1
  if recvCfgByte before t.text i = c then ⟨t.text.dropLast, i, t.indices ++ [i]⟩
  else ⟨t.text, t.length, t.indices ++ [i]⟩

/-- A line without its end. -/
def trim (before : Nat → UInt8) (line : List UInt8) : Trimmed :=
  trimLast before (trimLast before ⟨cString line, (cString line).length, []⟩ 0x0a) 0x0d

/-- `total_len` -/
def totalLen (len : Nat) : Nat := 11 + len

/-- The length field. -/
def lengthField (len : Nat) : List UInt8 := leBytes 2 (totalLen len - 2)

/-- `lpBuf` as it is initialised. -/
def lpBuf : List UInt8 := [0x7e, 0x54, 0xaf, 0x26, 0x6f] ++ List.replicate 251 0

/-- What is written to `lpBuf`. -/
def atWrites (text : List UInt8) : List (Write UInt8) :=
  [⟨5, lengthField text.length⟩, ⟨7, [0x68, 0x00]⟩, ⟨9, text⟩, ⟨9 + text.length, [0x0d]⟩,
    ⟨9 + text.length + 1, [0x7e]⟩]

/-- `unisco_send_at_command`: what is sent. -/
def atFrame (text : List UInt8) : List UInt8 := (applyWrites lpBuf (atWrites text)).take (totalLen text.length)

/-- The header of the frame. -/
def atHeader (len : Nat) : List UInt8 := [0x54, 0xaf, 0x26, 0x6f] ++ lengthField len ++ [0x68, 0x00]

/-- What stands between the delimiters. -/
def atPayload (text : List UInt8) : List UInt8 := atHeader text.length ++ text ++ [0x0d]

/-- **A line is framed safely**: it is trimmed inside the buffer, its frame fits into its own, the length field counts
the bytes between the delimiters, and the frame is decoded to the command and a carriage return. -/
structure FramedSafely (before : Nat → UInt8) (line : List UInt8) : Prop where
  trimmed : ∀ i ∈ (trim before line).indices, 0 ≤ i ∧ i < sizeofRecvCfgBuf
  fits : ∀ w ∈ atWrites (trim before line).text, w.InBounds 256
  length : ofLeBytes (window (atFrame (trim before line).text) 5 7) = (atFrame (trim before line).text).length - 2
  decoded : (feed unisocDiagPkt [atFrame (trim before line).text]).2 =
    [[0x7e] ++ atPayload (trim before line).text ++ [0x7e]]

/-- A text without a last byte `c`. -/
def withoutLast (text : List UInt8) (c : UInt8) : List UInt8 :=
  if text.getLast? = some c then text.dropLast else text

/-- A line without its end. -/
def withoutEnd (text : List UInt8) : List UInt8 := withoutLast (withoutLast text 0x0a) 0x0d

/-- The line has something in front of the line feed, and the command is short enough, has no reserved byte, and has no
length that puts one into the length field. -/
structure Sendable (line : List UInt8) : Prop where
  not_empty : cString line ≠ [] ∧ cString line ≠ [0x0a]
  short : (withoutEnd (cString line)).length ≤ 245
  length_plain : (withoutEnd (cString line)).length ≠ 116 ∧ (withoutEnd (cString line)).length ≠ 117
  plain : ∀ b ∈ withoutEnd (cString line), b ≠ 0x7d ∧ b ≠ 0x7e

/-! ## The lines of a file -/

theorem flatten_fgetsLines (bytes line : List UInt8) : (fgetsLines line bytes).flatten = line ++ bytes := by
  induction bytes generalizing line with
  | nil =>
      rw [fgetsLines]
      split
      · next hline => simp [hline]
      · simp
  | cons b bytes ih =>
      rw [fgetsLines]
      split
      · rw [List.flatten_cons, ih]
        simp
      · rw [ih]
        simp

/-- Every line fits into the buffer with its zero. -/
theorem length_of_mem_fgetsLines {bytes line text : List UInt8} (h : text ∈ fgetsLines line bytes)
    (hline : line.length + 1 < sizeofRecvCfgBuf) : text.length < sizeofRecvCfgBuf := by
  induction bytes generalizing line with
  | nil =>
      rw [fgetsLines] at h
      split at h
      · exact absurd h List.not_mem_nil
      · rw [List.mem_singleton.mp h]
        omega
  | cons b bytes ih =>
      have hlen : (line ++ [b]).length = line.length + 1 := by rw [List.length_append, List.length_singleton]
      rw [fgetsLines] at h
      split at h
      · rcases List.mem_cons.mp h with rfl | h
        · rw [hlen]
          exact hline
        · exact ih h (by decide)
      · next hmore => exact ih h (by rw [hlen]; omega)

/-! ## Trimming -/

section Trim

variable (before : Nat → UInt8) {t : Trimmed} (c : UInt8)

/-- The last byte of a string that is not empty. -/
theorem recvCfgByte_last {text : List UInt8} (hne : text ≠ []) :
    recvCfgByte before text ((text.length : Int) - 1) = c ↔ text.getLast? = some c := by
  have hpos : 0 < text.length := List.length_pos_of_ne_nil hne
  have hindex : ((text.length : Int) - 1).toNat = text.length - 1 := by omega
  rw [recvCfgByte, if_neg (by omega), hindex, List.getLast?_eq_getElem?, List.getD_eq_getElem?_getD,
    List.getElem?_eq_getElem (by omega), Option.getD_some, Option.some.injEq]

theorem trimLast_of_ne_nil (hlength : t.length = t.text.length) (hne : t.text ≠ []) :
    trimLast before t c =
      ⟨withoutLast t.text c, (withoutLast t.text c).length, t.indices ++ [(t.text.length : Int) - 1]⟩ := by
  have hpos : 0 < t.text.length := List.length_pos_of_ne_nil hne
  have hdrop : (t.text.dropLast.length : Int) = t.text.length - 1 := by
    rw [List.length_dropLast]
    omega
  simp only [trimLast, withoutLast, hlength, recvCfgByte_last before c hne]
  split
  · rw [hdrop]
  · rfl

/-- Nothing is taken off an empty string, wherever the index has got to. -/
theorem trimLast_text_nil (h : t.text = []) : (trimLast before t c).text = [] := by
  simp only [trimLast, h]
  split <;> rfl

theorem withoutLast_nil : withoutLast [] c = [] := rfl

theorem withoutLast_eq_nil_iff {text : List UInt8} (hne : text ≠ []) : withoutLast text c = [] ↔ text = [c] := by
  obtain ⟨front, d, rfl⟩ := (List.eq_nil_or_concat' text).resolve_left hne
  rw [withoutLast, List.dropLast_concat]
  split
  · next hlast =>
      rw [List.getLast?_concat, Option.some.injEq] at hlast
      rw [hlast]
      simp
  · next hlast =>
      refine iff_of_false (by simp) fun heq => hlast ?_
      rw [heq]
      rfl

theorem length_withoutLast_le (text : List UInt8) : (withoutLast text c).length ≤ text.length := by
  rw [withoutLast]
  split
  · rw [List.length_dropLast]
    exact Nat.sub_le _ _
  · exact Nat.le_refl _

/-- Trimming takes off the end of the line, also where it looks for it in front of the buffer. -/
theorem trim_text (line : List UInt8) : (trim before line).text = withoutEnd (cString line) := by
  rw [trim, withoutEnd]
  by_cases hne : cString line = []
  · rw [hne, withoutLast_nil, withoutLast_nil]
    exact trimLast_text_nil before 0x0d (trimLast_text_nil before 0x0a rfl)
  · rw [trimLast_of_ne_nil before 0x0a rfl hne]
    by_cases hne' : withoutLast (cString line) 0x0a = []
    · rw [hne', withoutLast_nil]
      exact trimLast_text_nil before 0x0d rfl
    · rw [trimLast_of_ne_nil before 0x0d rfl hne']

/-- **Trimming stays inside the buffer** exactly if the line has something in front of its line feed. -/
theorem trim_indices_iff {line : List UInt8} (hline : line.length < sizeofRecvCfgBuf) :
    (∀ i ∈ (trim before line).indices, 0 ≤ i ∧ i < sizeofRecvCfgBuf) ↔ cString line ≠ [] ∧ cString line ≠ [0x0a] := by
  have hstring : (cString line).length ≤ line.length := (cString_isPrefix line).length_le
  have hmem : ∀ (t : Trimmed) (c : UInt8),
      ∃ i, (trimLast before t c).indices = t.indices ++ [i] ∧ i = t.length - 1 := by
    intro t c
    rw [trimLast]
    split <;> exact ⟨_, rfl, rfl⟩
  rw [trim]
  obtain ⟨j, hj, hj'⟩ := hmem (trimLast before ⟨cString line, (cString line).length, []⟩ 0x0a) 0x0d
  obtain ⟨i, hi, hi'⟩ := hmem ⟨cString line, (cString line).length, []⟩ 0x0a
  rw [hj, hi]
  by_cases hne : cString line = []
  · -- the first index is the one before the buffer
    rw [hne] at hi'
    refine iff_of_false (fun hall => ?_) fun h => h.1 hne
    have hfirst := (hall i (by simp)).1
    simp only [List.length_nil] at hi'
    omega
  · have hpos : 0 < (cString line).length := List.length_pos_of_ne_nil hne
    rw [trimLast_of_ne_nil before 0x0a rfl hne] at hj'
    have hle := length_withoutLast_le 0x0a (cString line)
    have hzero : (withoutLast (cString line) 0x0a).length = 0 ↔ cString line = [0x0a] := by
      rw [List.length_eq_zero_iff, withoutLast_eq_nil_iff 0x0a hne]
    rw [ne_eq, ne_eq, ← hzero, and_iff_right hne]
    simp only at hi' hj'
    constructor
    · intro hall hlast
      have hsecond := (hall j (by simp)).1
      omega
    · intro hlast k hk
      rcases List.mem_append.mp hk with hk | hk
      · rw [List.mem_singleton.mp hk]
        unfold sizeofRecvCfgBuf at *
        omega
      · rw [List.mem_singleton.mp hk]
        unfold sizeofRecvCfgBuf at *
        omega

end Trim

/-! ## The frame -/

section Frame

variable (text : List UInt8)

theorem length_lengthField (len : Nat) : (lengthField len).length = 2 := length_leBytes 2 _

/-- The writes follow one another behind the first five bytes. -/
theorem atFrame_eq : atFrame text = [0x7e] ++ atPayload text ++ [0x7e] := by
  have hcopy : ∀ (front rest : List UInt8) (off : Nat) (src : List UInt8), off = front.length →
      overwrite (front ++ rest) off src = (front ++ src) ++ rest.drop src.length := by
    rintro front rest _ src rfl
    exact overwrite_append src front rest
  have hfield := length_lengthField text.length
  rw [atFrame, atWrites, lpBuf]
  simp only [applyWrites_cons, applyWrites_nil]
  rw [hcopy _ _ 5 _ rfl, hcopy _ _ 7 _ (by simp [hfield]), hcopy _ _ 9 _ (by simp [hfield]),
    hcopy _ _ (9 + text.length) _ (by simp [hfield]; omega),
    hcopy _ _ (9 + text.length + 1) _ (by simp [hfield]; omega)]
  have hframe : [0x7e] ++ atPayload text ++ [0x7e] =
      [0x7e, 0x54, 0xaf, 0x26, 0x6f] ++ lengthField text.length ++ [0x68, 0x00] ++ text ++ [0x0d] ++ [0x7e] := by
    simp [atPayload, atHeader]
  rw [hframe]
  exact List.take_left' (by simp [hfield, totalLen]; omega)

theorem length_atPayload : (atPayload text).length = 9 + text.length := by
  simp [atPayload, atHeader, length_lengthField]
  omega

theorem fits_iff : (∀ w ∈ atWrites text, w.InBounds 256) ↔ text.length ≤ 245 := by
  have hfield := length_lengthField text.length
  simp only [atWrites, List.mem_cons, List.not_mem_nil, or_false, forall_eq_or_imp, forall_eq, Write.InBounds, hfield,
    List.length_cons, List.length_nil]
  omega

/-- The length field counts what stands between the delimiters. -/
theorem length_atFrame (h : text.length < 2 ^ 15) :
    ofLeBytes (window (atFrame text) 5 7) = (atFrame text).length - 2 := by
  have hfield := length_lengthField text.length
  have hwindow : window (atFrame text) 5 7 = lengthField text.length := by
    have hsplit : atFrame text = [0x7e, 0x54, 0xaf, 0x26, 0x6f] ++ lengthField text.length ++
        ([0x68, 0x00] ++ text ++ [0x0d] ++ [0x7e]) := by
      rw [atFrame_eq]
      simp [atPayload, atHeader]
    have hmid := window_mid [0x7e, 0x54, 0xaf, 0x26, 0x6f] (lengthField text.length)
      ([0x68, 0x00] ++ text ++ [0x0d] ++ [0x7e])
    rwa [← hsplit, hfield] at hmid
  rw [hwindow, lengthField, ofLeBytes_leBytes 2 _ (by rw [totalLen]; omega), atFrame_eq]
  simp [length_atPayload, totalLen]
  omega

/-- The header and the command have no reserved byte. -/
theorem plain_atPayload_iff (h : text.length ≤ 245) : (∀ b ∈ atPayload text, diagCode.reserved b = false) ↔
    (text.length ≠ 116 ∧ text.length ≠ 117) ∧ ∀ b ∈ text, b ≠ 0x7d ∧ b ≠ 0x7e := by
  have hplain : ∀ b : UInt8, diagCode.reserved b = false ↔ b ≠ 0x7d ∧ b ≠ 0x7e := by
    intro b
    simp [diagCode, and_comm]
  -- the high byte of the length is zero
  have hfield : lengthField text.length = [UInt8.ofNat (9 + text.length), 0] := by
    have hlow : totalLen text.length - 2 = 9 + text.length := by
      rw [totalLen]
      omega
    have hhigh : (9 + text.length) / 256 = 0 := by omega
    rw [lengthField, hlow, leBytes, leBytes, leBytes, hhigh]
    rfl
  have hlow : ∀ b : UInt8, UInt8.ofNat (9 + text.length) ≠ b ↔ 9 + text.length ≠ b.toNat := by
    intro b
    rw [ne_eq, ne_eq, ← UInt8.toNat_inj, UInt8.toNat_ofNat', Nat.mod_eq_of_lt (by omega)]
  have hheader : (∀ b ∈ atHeader text.length, b ≠ 0x7d ∧ b ≠ 0x7e) ↔ text.length ≠ 116 ∧ text.length ≠ 117 := by
    have hconst : (∀ b ∈ [0x54, 0xaf, 0x26, 0x6f], b ≠ (0x7d : UInt8) ∧ b ≠ 0x7e) ∧
        ((0 : UInt8) ≠ 0x7d ∧ (0 : UInt8) ≠ 0x7e) ∧ ∀ b ∈ [0x68, 0x00], b ≠ (0x7d : UInt8) ∧ b ≠ 0x7e := by
      decide +kernel
    rw [atHeader, hfield, List.forall_mem_append, List.forall_mem_append, and_iff_left hconst.2.2,
      and_iff_right hconst.1, List.forall_mem_cons, List.forall_mem_singleton, and_iff_left hconst.2.1, hlow, hlow]
    show 9 + text.length ≠ 125 ∧ 9 + text.length ≠ 126 ↔ _
    omega
  simp only [hplain, atPayload, List.forall_mem_append]
  rw [hheader]
  simp

end Frame

/-! ## Lines -/

/-- **One line** of at most 511 bytes. -/
theorem framedSafely_iff (before : Nat → UInt8) {line : List UInt8} (hline : line.length < sizeofRecvCfgBuf) :
    FramedSafely before line ↔ Sendable line := by
  have htext := trim_text before line
  have hpacket : ∀ {text : List UInt8}, text.length ≤ 245 →
      ((feed unisocDiagPkt [atFrame text]).2 = [[0x7e] ++ atPayload text ++ [0x7e]] ↔
        (text.length ≠ 116 ∧ text.length ≠ 117) ∧ ∀ b ∈ text, b ≠ 0x7d ∧ b ≠ 0x7e) := by
    intro text hle
    have hlength := length_atPayload text
    have hmin : unisocDiagPkt.minPktLen = 10 := rfl
    have hmax : unisocDiagPkt.maxPktLen = 16394 := rfl
    rw [atFrame_eq, ← plain_atPayload_iff text hle]
    exact packets_unescaped_iff unisocDiagPkt_clean rfl (by decide) _ (by omega) (by omega)
  constructor
  · rintro ⟨htrimmed, hfits, -, hdecoded⟩
    rw [htext] at hfits hdecoded
    have hshort := (fits_iff _).mp hfits
    obtain ⟨hlength, hplain⟩ := (hpacket hshort).mp hdecoded
    exact ⟨(trim_indices_iff before hline).mp htrimmed, hshort, hlength, hplain⟩
  · rintro ⟨hempty, hshort, hlength, hplain⟩
    refine ⟨(trim_indices_iff before hline).mpr hempty, ?_, ?_, ?_⟩
    · rw [htext]
      exact (fits_iff _).mpr hshort
    · rw [htext]
      exact length_atFrame _ (by omega)
    · rw [htext]
      exact (hpacket hshort).mpr ⟨hlength, hplain⟩

/-- **The AT commands of a file.** A line of a file is framed safely exactly if it has something in front of its line
feed, and without its end it has at most 245 bytes, not 116 or 117, and neither `7D` nor `7E` among them. -/
theorem framedSafely_of_file_iff (before : Nat → UInt8) (bytes line : List UInt8) (h : line ∈ fgetsLines [] bytes) :
    FramedSafely before line ↔ Sendable line :=
  framedSafely_iff before (length_of_mem_fgetsLines h (by decide))

/-- `AT` and a carriage return. -/
theorem framedSafely_of_file_iff_at : FramedSafely (fun _ => 0) [0x41, 0x54, 0x0d, 0x0a] :=
  (framedSafely_of_file_iff (fun _ => 0) [0x41, 0x54, 0x0d, 0x0a] _ (by decide +kernel)).mpr
    ⟨by decide, by decide, by decide, by decide +kernel⟩

/-- An empty line makes the program look at the byte before the buffer. -/
theorem framedSafely_emptyLine : [0x0a] ∈ fgetsLines [] [0x0a] ∧ ¬ FramedSafely (fun _ => 0) [0x0a] := by
  refine ⟨by decide, fun h => ?_⟩
  exact ((framedSafely_iff _ (by decide)).mp h).not_empty.2 (by decide)

end QLog.AtCommand
