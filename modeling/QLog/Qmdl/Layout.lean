import QLog.Qmdl.Header

/-! # What the header of a qmdl2 file holds

The first ten bytes of `qshrink4_data` are as they should be. Behind them the file holds `lenBlock ++ listBlock`,
cut to the length of `listBlock`, where `listBlock` alone should stand. The two agree only if `listBlock` repeats
with a period of 64 bytes, and then the zero lengths of the unused entries spread into the used ones: an empty
list is the only one for which the header is complete. -/

namespace QLog

open Library

/-- The GUID list and the table of diag ids, as a decoder of the file expects them. -/
def listBlock (guids : List (Block 16)) (entries : List DiagidGuidStruct) : List UInt8 :=
  guids.flatMap Subtype.val ++ leBytes 4 guids.length ++ entries.flatMap DiagidGuidStruct.bytes

/-- The file lengths, as they lie between the count and the GUIDs. -/
def lenBlock (files : List Qshrink4FileInfo) : List UInt8 :=
  (files.map Qshrink4FileInfo.fileLen ++ List.replicate (maxGuidEntries - files.length) 0).flatMap
    fun len : UInt32 => leBytes 4 len.toNat

/-- The header is complete and contiguous: the bytes written to a file are the four fields, the GUIDs, their
number and the entries of `diagid_guid`. -/
def HeaderComplete (q : Qshrink4) (guids : List (Block 16)) : Prop :=
  q.data.written
    = leBytes 4 q.data.headerLength ++ [q.data.version, q.data.hdlcDataType] ++ leBytes 4 guids.length
      ++ listBlock guids (q.diagidGuid.val.take guids.length)

theorem length_guidBlock (files : List Qshrink4FileInfo) :
    ((files.map Qshrink4FileInfo.guid).flatMap Subtype.val).length = 16 * files.length := by
  rw [length_flatMap_block Subtype.val _ fun (guid : Block 16) _ => guid.property, List.length_map]

section Listed

variable {s : Qshrink4} {files : List Qshrink4FileInfo} (h : Lists s files)

include h

theorem Lists.length_take_entries : (s.diagidGuid.val.take files.length).length = files.length := by
  rw [List.length_take, s.diagidGuid.property]
  exact Nat.min_eq_left h.le_max

theorem Lists.length_listBlock :
    (listBlock (files.map Qshrink4FileInfo.guid) (s.diagidGuid.val.take files.length)).length
      = guidLen * files.length + 4 + 47 * files.length := by
  have hentries := length_flatMap_block DiagidGuidStruct.bytes (s.diagidGuid.val.take files.length)
    fun d _ => d.length_bytes
  rw [h.length_take_entries] at hentries
  rw [listBlock, List.length_append, List.length_append, length_guidBlock, hentries, length_leBytes, guidLen]

/-- `mdm_add_qshrink4_header` puts the whole block behind the lengths. -/
theorem Lists.area_addHeader :
    ∃ rest, (mdmAddQshrink4Header s).data.area
      = listBlock (files.map Qshrink4FileInfo.guid) (s.diagidGuid.val.take files.length) ++ rest := by
  obtain ⟨rest, harea⟩ := h.area
  set guids := files.flatMap (fun info => info.guid.val) with hguids
  have hlen : guidLen * files.length = guids.length := (length_guids files).symm
  have hlen' : guids.length + 4 = (guids ++ leBytes 4 files.length).length := by
    rw [List.length_append, length_leBytes]
  refine ⟨?_, ?_⟩
  rotate_left
  · -- the number goes behind the GUIDs, and the table behind the number
    simp only [mdmAddQshrink4Header, h.count, harea]
    rw [hlen, overwrite_append, hlen', overwrite_append, listBlock, List.flatMap_map, List.length_map]

/-- What is written: the formula counts the block, but the lengths stand in front of it. -/
theorem Lists.written_addHeader :
    (mdmAddQshrink4Header s).data.written
      = leBytes 4 (mdmAddQshrink4Header s).data.headerLength ++ [2, 1] ++ leBytes 4 files.length
        ++ (lenBlock files
          ++ listBlock (files.map Qshrink4FileInfo.guid) (s.diagidGuid.val.take files.length)).take
            (guidLen * files.length + 4 + 47 * files.length) := by
  obtain ⟨rest, harea⟩ := h.area_addHeader
  set block := listBlock (files.map Qshrink4FileInfo.guid) (s.diagidGuid.val.take files.length)
    with hblock
  have hbytes : (mdmAddQshrink4Header s).data.bytes
      = leBytes 4 (mdmAddQshrink4Header s).data.headerLength ++ [2, 1] ++ leBytes 4 files.length
        ++ (lenBlock files ++ block ++ rest) := by
    rw [Qshrink4Header.bytes, harea]
    simp only [mdmAddQshrink4Header, h.count, h.lens, lenBlock, List.append_assoc]
  have hlength : (mdmAddQshrink4Header s).data.headerLength
      = 10 + (guidLen * files.length + 4 + 47 * files.length) := by
    simp only [mdmAddQshrink4Header, h.count, guidLen]
    omega
  set front := leBytes 4 (mdmAddQshrink4Header s).data.headerLength ++ [2, 1] ++ leBytes 4 files.length
    with hfront
  have hten : front.length = 10 := by simp [hfront]
  rw [Qshrink4Header.written, hbytes, hlength, ← hten, List.take_length_add_append]
  congr 1
  apply List.take_append_of_le_length
  rw [List.length_append, hblock, h.length_listBlock]
  exact Nat.le_add_left _ _

/-- The structure is longer than `header_length` says, so as many bytes are written. -/
theorem Lists.length_written_addHeader :
    (mdmAddQshrink4Header s).data.written.length = (mdmAddQshrink4Header s).data.headerLength := by
  have hblock := h.length_listBlock
  rw [h.written_addHeader]
  simp only [List.length_append, List.length_take, length_leBytes, List.length_cons, List.length_nil, hblock,
    mdmAddQshrink4Header, h.count, guidLen]
  omega

/-- The header is complete exactly where the block is a front of itself behind the lengths. -/
theorem Lists.headerComplete_iff :
    HeaderComplete (mdmAddQshrink4Header s) (files.map Qshrink4FileInfo.guid)
      ↔ listBlock (files.map Qshrink4FileInfo.guid) (s.diagidGuid.val.take files.length)
        <+: lenBlock files
          ++ listBlock (files.map Qshrink4FileInfo.guid) (s.diagidGuid.val.take files.length) := by
  rw [HeaderComplete, h.written_addHeader, List.length_map, List.prefix_iff_eq_take,
    h.length_listBlock]
  constructor
  · intro heq
    exact (List.append_cancel_left heq).symm
  · intro heq
    rw [← heq]
    rfl

end Listed

/-! ## The cells of the two blocks -/

theorem length_lenBlock {files : List Qshrink4FileInfo} (hmax : files.length ≤ maxGuidEntries) :
    (lenBlock files).length = 64 := by
  have hlen := length_flatMap_block (fun len : UInt32 => leBytes 4 len.toNat)
    (files.map Qshrink4FileInfo.fileLen ++ List.replicate (maxGuidEntries - files.length) 0)
    fun len _ => length_leBytes 4 len.toNat
  rw [lenBlock, hlen, List.length_append, List.length_map, List.length_replicate]
  unfold maxGuidEntries at *
  omega

/-- The cells behind the lengths in use are zero. -/
theorem getElem?_lenBlock_unused {files : List Qshrink4FileInfo} (hmax : files.length ≤ maxGuidEntries)
    {p : Nat} (hp : 4 * files.length ≤ p) (hp' : p < 64) : (lenBlock files)[p]? = some 0 := by
  have hzero : (files.map Qshrink4FileInfo.fileLen
      ++ List.replicate (maxGuidEntries - files.length) 0)[p / 4]? = some 0 := by
    rw [List.getElem?_append_right (by rw [List.length_map]; omega), List.length_map,
      List.getElem?_replicate, if_pos]
    unfold maxGuidEntries at *
    omega
  have hcell := getElem?_flatMap_block (fun len : UInt32 => leBytes 4 len.toNat) _
    (fun len _ => length_leBytes 4 len.toNat) hzero (Nat.mod_lt p (by decide : 0 < 4))
  rw [Nat.div_add_mod] at hcell
  rw [lenBlock, hcell]
  have hrep : leBytes 4 (0 : UInt32).toNat = List.replicate 4 0 := leBytes_zero 4
  rw [hrep, List.getElem?_replicate, if_pos (Nat.mod_lt p (by decide))]

/-- A length in use has a cell that is not zero. -/
theorem getElem?_lenBlock_used {files : List Qshrink4FileInfo}
    (hnonzero : ∀ info ∈ files, info.fileLen ≠ 0) {k : Nat} (hk : k < files.length) :
    ¬ ∀ j < 4, (lenBlock files)[4 * k + j]? = some 0 := by
  intro hall
  have hlen : (files.map Qshrink4FileInfo.fileLen
      ++ List.replicate (maxGuidEntries - files.length) 0)[k]? = some (files[k]).fileLen := by
    rw [List.getElem?_append_left (by rw [List.length_map]; exact hk), List.getElem?_map,
      List.getElem?_eq_getElem hk]
    rfl
  have hword : leBytes 4 (files[k]).fileLen.toNat = leBytes 4 0 := by
    apply List.ext_getElem?
    intro j
    by_cases hj : j < 4
    · rw [leBytes_zero, List.getElem?_replicate, if_pos hj, ← hall j hj]
      exact (getElem?_flatMap_block (fun len : UInt32 => leBytes 4 len.toNat) _
        (fun len _ => length_leBytes 4 len.toNat) hlen hj).symm
    · rw [List.getElem?_eq_none (by rw [length_leBytes]; omega),
        List.getElem?_eq_none (by rw [length_leBytes]; omega)]
  have hzero := leBytes_inj (UInt32.toNat_lt _) (by decide) hword
  exact hnonzero _ (List.getElem_mem hk) (UInt32.toNat_inj.mp hzero)

section Cells

variable (files : List Qshrink4FileInfo) (entries : List DiagidGuidStruct)

/-- The cells of the GUIDs. -/
theorem getElem?_listBlock_guid {i j : Nat} (hi : i < files.length) (hj : j < 16) :
    (listBlock (files.map Qshrink4FileInfo.guid) entries)[16 * i + j]? = (files[i]).guid.val[j]? := by
  have hguid : (files.map Qshrink4FileInfo.guid)[i]? = some (files[i]).guid := by
    rw [List.getElem?_map, List.getElem?_eq_getElem hi]
    rfl
  have hlen := length_guidBlock files
  rw [listBlock, List.append_assoc, List.getElem?_append_left (by omega)]
  exact getElem?_flatMap_block Subtype.val _ (fun (guid : Block 16) _ => guid.property) hguid hj

/-- The cells of the number behind them. -/
theorem getElem?_listBlock_count {j : Nat} (hj : j < 4) :
    (listBlock (files.map Qshrink4FileInfo.guid) entries)[16 * files.length + j]?
      = (leBytes 4 files.length)[j]? := by
  have hlen := length_guidBlock files
  rw [listBlock, List.append_assoc, List.getElem?_append_right (by omega), hlen,
    Nat.add_sub_cancel_left, List.length_map, List.getElem?_append_left (by rw [length_leBytes]; exact hj)]

/-- The cells of the GUIDs in the table of diag ids. -/
theorem getElem?_listBlock_entry
    (hguids : entries.map DiagidGuidStruct.guid = files.map Qshrink4FileInfo.guid) {i j : Nat}
    (hi : i < files.length) (hj : j < 16) :
    (listBlock (files.map Qshrink4FileInfo.guid) entries)[16 * files.length + 35 + 47 * i + j]?
      = (files[i]).guid.val[j]? := by
  have hentry : i < entries.length := by
    have hlen := congrArg List.length hguids
    rw [List.length_map, List.length_map] at hlen
    omega
  set d := entries[i] with hd
  have hguid : d.guid = (files[i]).guid := by
    have hmap := congrArg (fun l => l[i]?) hguids
    simp only [List.getElem?_map, List.getElem?_eq_getElem hi, List.getElem?_eq_getElem hentry] at hmap
    exact Option.some.inj hmap
  have hlen := length_guidBlock files
  have hfront : (List.flatMap Subtype.val (files.map Qshrink4FileInfo.guid)
      ++ leBytes 4 (files.map Qshrink4FileInfo.guid).length).length = 16 * files.length + 4 := by
    rw [List.length_append, hlen, length_leBytes]
  have hcell := getElem?_flatMap_block DiagidGuidStruct.bytes entries (fun e _ => e.length_bytes)
    (List.getElem?_eq_getElem hentry) (show 31 + j < 47 by omega)
  have hidx : 16 * files.length + 35 + 47 * i + j - (16 * files.length + 4) = 47 * i + (31 + j) := by
    omega
  rw [listBlock, List.getElem?_append_right (by omega), hfront, hidx, hcell, ← hd, ← hguid,
    DiagidGuidStruct.bytes]
  have hname : ([d.diagId] ++ d.processName.val).length = 31 := by
    rw [List.length_append, d.processName.property]
    rfl
  rw [List.getElem?_append_right (by omega), hname, Nat.add_sub_cancel_left]

end Cells

/-! ## No list of files repeats with the period of the lengths -/

/-- The cells of 64 bytes that a complete header with `n` files would have to meet: they repeat the GUIDs where
the table of diag ids has them, they hold the number of files, and beyond the lengths in use they are zero. -/
structure Repeats (n : Nat) (cell : Nat → Option UInt8) : Prop where
  guid : ∀ i < n, ∀ j < 16, cell ((16 * n + 35 + 47 * i + j) % 64) = cell ((16 * i + j) % 64)
  count : ∀ j < 4, cell ((16 * n + j) % 64) = (leBytes 4 n)[j]?
  unused : ∀ p, 4 * n ≤ p → p < 64 → cell p = some 0
  used : ∀ k < n, ¬ ∀ j < 4, cell (4 * k + j) = some 0

/-- A length in use would be zero if the table repeats it among the lengths that are not in use. -/
theorem Repeats.not_unused {n : Nat} {cell : Nat → Option UInt8} (h : Repeats n cell) (i c : Nat)
    (hi : i < n) (hc : c < 4) (hk : 4 * i + c < n) (hmax : n ≤ 16)
    (hpos : ∀ j < 4, 4 * n ≤ (16 * n + 35 + 47 * i + (4 * c + j)) % 64) : False := by
  refine h.used (4 * i + c) hk fun j hj => ?_
  have hshift := h.guid i hi (4 * c + j) (by omega)
  have hmod : (16 * i + (4 * c + j)) % 64 = 4 * (4 * i + c) + j := by omega
  rw [hmod] at hshift
  rw [← hshift]
  exact h.unused _ (hpos j hj) (Nat.mod_lt _ (by decide))

/-- The number of files is not zero. -/
theorem Repeats.not_unused_count {n : Nat} {cell : Nat → Option UInt8} (h : Repeats n cell) (hn : 0 < n)
    (hmax : n ≤ 16) (hpos : 4 * n ≤ (16 * n) % 64) : False := by
  have hcount := h.count 0 (by decide)
  rw [Nat.add_zero, h.unused _ hpos (Nat.mod_lt _ (by decide))] at hcount
  have hbyte : (0 : UInt8) = UInt8.ofNat n := Option.some.inj hcount
  have hzero := congrArg UInt8.toNat hbyte
  rw [UInt8.toNat_ofNat'] at hzero
  simp at hzero
  omega

/-- With 12 or 16 files the cells 31 and 33 are equal by the second GUID, and the bytes 0 and 2 of the number of
files by the fifth. -/
theorem Repeats.not_twelve_or_sixteen {n : Nat} {cell : Nat → Option UInt8} (h : Repeats n cell)
    (hn : n = 12 ∨ n = 16) : False := by
  have hsecond := h.guid 1 (by omega) 15 (by decide)
  have hfifth := h.guid 4 (by omega) 0 (by decide)
  have hfifth' := h.guid 4 (by omega) 2 (by decide)
  have hzero := h.count 0 (by decide)
  have htwo := h.count 2 (by decide)
  rcases hn with rfl | rfl
  · have hbytes : (leBytes 4 12)[0]? = (leBytes 4 12)[2]? :=
      hzero.symm.trans (hfifth.symm.trans (hsecond.symm.trans (hfifth'.trans htwo)))
    exact absurd hbytes (by decide)
  · have hbytes : (leBytes 4 16)[0]? = (leBytes 4 16)[2]? :=
      hzero.symm.trans (hfifth.symm.trans (hsecond.symm.trans (hfifth'.trans htwo)))
    exact absurd hbytes (by decide)

/-- With 15 files the cells 32, 48 and 49 are equal by the third and the fourth GUID, and the last two are bytes
of the number of files. -/
theorem Repeats.not_fifteen {cell : Nat → Option UInt8} (h : Repeats 15 cell) : False := by
  have hthird := h.guid 2 (by decide) 0 (by decide)
  have hfourth := h.guid 3 (by decide) 0 (by decide)
  have hzero := h.count 0 (by decide)
  have hone := h.count 1 (by decide)
  have hbytes : (leBytes 4 15)[0]? = (leBytes 4 15)[1]? :=
    hzero.symm.trans (hfourth.symm.trans (hthird.symm.trans hone))
  exact absurd hbytes (by decide)

/-- Which of the arguments above applies to a number of files. -/
theorem repeats_cases :
    ∀ n ≤ 16, 0 < n → 4 * n ≤ (16 * n) % 64 ∨
      (∃ i < 2, ∃ c < 4, i < n ∧ 4 * i + c < n ∧
        ∀ j < 4, 4 * n ≤ (16 * n + 35 + 47 * i + (4 * c + j)) % 64) ∨
      (n = 12 ∨ n = 16) ∨ n = 15 := by
  decide

theorem not_repeats {n : Nat} (hn : 0 < n) (hmax : n ≤ 16) (cell : Nat → Option UInt8) :
    ¬ Repeats n cell := by
  intro h
  rcases repeats_cases n hmax hn with hcount | ⟨i, -, c, hc, hi, hk, hpos⟩ | htwo | rfl
  · exact h.not_unused_count hn hmax hcount
  · exact h.not_unused i c hi hc hk hmax hpos
  · exact h.not_twelve_or_sixteen htwo
  · exact h.not_fifteen

/-- With a file in the list the block is not a front of itself behind the lengths. -/
theorem Lists.not_prefix {s : Qshrink4} {files : List Qshrink4FileInfo} (h : Lists s files)
    (hne : files ≠ []) :
    ¬ listBlock (files.map Qshrink4FileInfo.guid) (s.diagidGuid.val.take files.length)
      <+: lenBlock files
        ++ listBlock (files.map Qshrink4FileInfo.guid) (s.diagidGuid.val.take files.length) := by
  intro hprefix
  have hpos : 0 < files.length := List.length_pos_iff.mpr hne
  have hmax : files.length ≤ 16 := h.le_max
  have hlens := length_lenBlock h.le_max
  have hblock := h.length_listBlock
  unfold guidLen at hblock
  set block := listBlock (files.map Qshrink4FileInfo.guid) (s.diagidGuid.val.take files.length)
  -- the block has the period of the lengths
  have hcell : ∀ k < block.length, (lenBlock files)[k % 64]? = block[k]? := by
    intro k hk
    rw [getElem?_of_prefix_append_self hprefix (by omega) (by omega) hk, hlens]
  refine not_repeats hpos hmax (fun p => (lenBlock files)[p]?) ⟨?_, ?_, ?_, ?_⟩
  · intro i hi j hj
    rw [hcell _ (by omega), hcell _ (by omega), getElem?_listBlock_entry files _ h.guids hi hj,
      getElem?_listBlock_guid files _ hi hj]
  · intro j hj
    rw [hcell _ (by omega), getElem?_listBlock_count files _ hj]
  · exact fun p hp hp' => getElem?_lenBlock_unused h.le_max hp hp'
  · exact fun k hk => getElem?_lenBlock_used h.nonzero hk

/-! ## When the header is complete -/

/-- The GUIDs that a header should list: those of the listed files, up to `MAX_GUID_ENTRIES`. -/
def sessionGuids (rsps : List (UInt8 × DiagQsrFileListRsp)) : List (Block 16) :=
  ((listedFiles rsps).take maxGuidEntries).map Qshrink4FileInfo.guid

theorem headerComplete_iff_nil (diagIdTable : List DiagIdList) (stale : DiagidGuid)
    (rsps : List (UInt8 × DiagQsrFileListRsp)) :
    HeaderComplete (sessionHeader diagIdTable stale rsps) (sessionGuids rsps) ↔ listedFiles rsps = [] := by
  have hlists := (lists_zero stale).foldl_responses diagIdTable rsps
  rw [List.nil_append] at hlists
  rw [sessionHeader, sessionGuids, hlists.headerComplete_iff]
  constructor
  · intro hprefix
    by_contra hne
    refine hlists.not_prefix ?_ hprefix
    intro hnil
    rcases List.take_eq_nil_iff.mp hnil with h | h
    · exact absurd h (by decide)
    · exact hne h
  · -- four zero bytes stand where the number of files should, and it is zero
    intro hnil
    rw [hnil, List.take_nil]
    show listBlock [] [] <+: lenBlock [] ++ listBlock [] []
    decide

/-- **The header is complete exactly where it lists nothing**: for any table of diag ids, any content left in
`diagid_guid` and any file-list responses, the bytes written are the header its fields promise if and only if no
successful response lists a file that is not empty. -/
theorem headerComplete_iff_listedFiles (diagIdTable : List DiagIdList) (stale : DiagidGuid)
    (rsps : List (UInt8 × DiagQsrFileListRsp)) :
    HeaderComplete (sessionHeader diagIdTable stale rsps) (sessionGuids rsps)
      ↔ ∀ rsp ∈ rsps, rsp.2.status = 0 → ∀ info ∈ rsp.2.info, info.fileLen = 0 := by
  rw [headerComplete_iff_nil, listedFiles, List.flatMap_eq_nil_iff]
  refine forall₂_congr fun rsp _ => ?_
  by_cases hstatus : rsp.2.status = 0
  · simp [hstatus, List.filter_eq_nil_iff]
  · simp [hstatus]

/-- A response that lists one file of one byte. -/
def oneFileRsp : DiagQsrFileListRsp := ⟨0, [⟨⟨List.replicate 16 0xAA, rfl⟩, 1⟩], by decide⟩

/-- One file in the list: the header holds its length, not its GUID. -/
theorem oneFileRsp_header_incomplete :
    ¬ HeaderComplete (sessionHeader [] ⟨List.replicate 16 ⟨0, ⟨List.replicate 30 0, rfl⟩,
      ⟨List.replicate 16 0, rfl⟩⟩, rfl⟩ [(0, oneFileRsp)]) (sessionGuids [(0, oneFileRsp)]) := by
  rw [headerComplete_iff_nil]
  exact List.cons_ne_nil _ _

end QLog
