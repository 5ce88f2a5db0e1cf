import QLog.Library.CNumber

/-! # The names of the log files

`qlog_logfile_create` names a log by the time of its creation and its sequence number. Next to the main file it
creates a second and a third one, whose names begin in the same way. The lemmas say that the sequence number can be
read from the name of each of the files, so that no two logs share a file. -/

namespace QLog.Rotation

open Library

abbrev Name : Type := List Char

/-- What `localtime` and the clocks give, with the year and the month as they are printed. -/
structure Tm where
  year : Int
  mon : Nat
  mday : Nat
  hour : Nat
  min : Nat
  sec : Nat
  msec : Nat
  year_lt : year.natAbs < 10 ^ 10
  fields_lt : mon < 10 ^ 2 ∧ mday < 10 ^ 2 ∧ hour < 10 ^ 2 ∧ min < 10 ^ 2 ∧ sec < 10 ^ 2 ∧ msec < 10 ^ 3

/-- `qlog_time_name` -/
def qlogTimeName (type : Nat) (tm : Tm) : Name :=
  match type with
  | 1 => fmtD 4 tm.year ++ fmtD 2 tm.mon ++ fmtD 2 tm.mday ++ '_' :: (fmtD 2 tm.hour ++ fmtD 2 tm.min ++ fmtD 2 tm.sec)
  | 2 => fmtD 4 tm.year ++ '_' :: (fmtD 2 tm.mon ++ fmtD 2 tm.mday ++ '_' :: (fmtD 2 tm.hour ++ fmtD 2 tm.min ++
      fmtD 2 tm.sec))
  | 3 => fmtD 2 tm.mday ++ '-' :: (fmtD 2 tm.hour ++ '-' :: (fmtD 2 tm.min ++ '-' :: (fmtD 2 tm.sec ++
      '-' :: fmtD 3 tm.msec)))
  | 4 => fmtD 4 tm.year ++ '_' :: (fmtD 2 tm.mon ++ '_' :: (fmtD 2 tm.mday ++ '_' :: (fmtD 2 tm.hour ++
      '_' :: (fmtD 2 tm.min ++ '_' :: (fmtD 2 tm.sec ++ '_' :: fmtD 3 tm.msec)))))
  | _ => []

/-- The chipsets that name their logs differently. -/
inductive ChipNames
  /-- `g_is_mtk_chip` -/
  | mtk
  /-- `g_is_unisoc_exx00u_chip` -/
  | unisocExx00u
  /-- `g_is_unisoc_chip == 4` -/
  | unisoc4
  | other

/-- What is fixed at the creation of a log. -/
structure Creation where
  chip : ChipNames
  tm : Tm
  /-- `dpl_version` -/
  dplVersion : Nat

/-- `shortname`, where the sequence number is printed as an `int`. -/
def shortname (c : Creation) (logfileSeq : Nat) : Name :=
  List.take 99 <|
    match c.chip with
    | .mtk => "MyLog_".toList ++ (qlogTimeName 2 c.tm).take 80 ++ '_' :: fmtD 4 (toInt32 logfileSeq)
    | .unisocExx00u => "Log-".toList ++ (qlogTimeName 3 c.tm).take 80 ++ '.' :: fmtD 4 (toInt32 logfileSeq)
    | .unisoc4 => (qlogTimeName 4 c.tm).take 80 ++ '_' :: fmtD 4 (toInt32 logfileSeq)
    | .other => (qlogTimeName 1 c.tm).take 80 ++ '_' :: fmtD 4 (toInt32 logfileSeq)

/-- What does not change while the program runs. -/
structure LogConfig where
  /-- `s_logfile_num` -/
  logfileNum : Nat
  logfileDir : Name
  logfileSuffix : Name
  secondLogfileSuffix : Option Name
  thirdLogfileSuffix : Option Name
  /-- `qlog_read_nmea_log` -/
  readNmeaLog : Bool

/-- The values of `logfile_suffix`. -/
def logfileSuffixes : List Name :=
  ["qmdl".toList, "qmdl2".toList, "sdl".toList, "logel".toList, "tra".toList, "bin".toList, "muxraw".toList]

/-- The values of `second_logfile_suffix`. -/
def secondLogfileSuffixes : List (Option Name) := [none, some "_qdss.bin".toList, some ".bin".toList]

/-- The values of `third_logfile_suffix`. -/
def thirdLogfileSuffixes : List (Option Name) := [none, some ".adplv".toList, some ".log".toList]

/-- A configuration the program can have, with a directory that fits the buffers. -/
structure LogConfig.Valid (cfg : LogConfig) : Prop where
  num_pos : 0 < cfg.logfileNum
  length_dir : cfg.logfileDir.length ≤ 240
  suffix : cfg.logfileSuffix ∈ logfileSuffixes
  second : cfg.secondLogfileSuffix ∈ secondLogfileSuffixes
  third : cfg.thirdLogfileSuffix ∈ thirdLogfileSuffixes

/-- `sprintf(filename, "%s/%s.%s", …)` -/
def mainName (cfg : LogConfig) (short : Name) : Name :=
  cfg.logfileDir ++ '/' :: (short ++ '.' :: cfg.logfileSuffix)

/-- `sprintf(filename, "%s/%s%s", …)`, as an old file is looked for. -/
def oldName (cfg : LogConfig) (short tail : Name) : Name := cfg.logfileDir ++ '/' :: (short ++ tail)

/-- `snprintf(filename, sizeof(filename), "%.240s/%.96s%.12s…", …)`, as a new file is named; `version` is empty
or the last number. -/
def newName (cfg : LogConfig) (short suffix version : Name) : Name :=
  List.take 379 (cfg.logfileDir.take 240 ++ '/' :: (short.take 96 ++ (suffix.take 12 ++ version)))

/-! ## Lengths -/

theorem length_qlogTimeName_le (type : Nat) (tm : Tm) : (qlogTimeName type tm).length ≤ 40 := by
  obtain ⟨hmon, hmday, hhour, hmin, hsec, hmsec⟩ := tm.fields_lt
  have hyear : (fmtD 4 tm.year).length ≤ 11 := length_fmtD_le (k := 10) (by decide) tm.year_lt
  have htwo : ∀ n : Nat, n < 10 ^ 2 → (fmtD 2 n).length ≤ 3 := fun n hn =>
    length_fmtD_le (k := 2) (by decide) hn
  have hmon' := htwo _ hmon
  have hmday' := htwo _ hmday
  have hhour' := htwo _ hhour
  have hmin' := htwo _ hmin
  have hsec' := htwo _ hsec
  have hmsec' : (fmtD 3 tm.msec).length ≤ 4 := length_fmtD_le (k := 3) (by decide) hmsec
  unfold qlogTimeName
  split <;> simp only [List.length_append, List.length_cons, List.length_nil] <;> omega

theorem length_fmtD_seq_le {seq : Nat} (hseq : seq < 2 ^ 32) : (fmtD 4 (toInt32 seq)).length ≤ 11 := by
  refine length_fmtD_le (k := 10) (by decide) ?_
  rw [toInt32]
  split <;> omega

/-- A name that ends with the sequence number behind a separator. -/
theorem shortname_eq (c : Creation) {seq : Nat} (hseq : seq < 2 ^ 32) :
    ∃ front sep, shortname c seq = front ++ sep :: fmtD 4 (toInt32 seq) ∧ isNumChar sep = false ∧
      (shortname c seq).length ≤ 96 := by
  have hlen := length_fmtD_seq_le hseq
  have htime : ∀ type, (qlogTimeName type c.tm).take 80 = qlogTimeName type c.tm := fun type =>
    List.take_of_length_le ((length_qlogTimeName_le type c.tm).trans (by decide))
  have hwhole : ∀ (front : Name) sep, isNumChar sep = false → front.length ≤ 46 →
      ∃ front' sep', List.take 99 (front ++ sep :: fmtD 4 (toInt32 seq)) = front' ++ sep' :: fmtD 4 (toInt32 seq) ∧
        isNumChar sep' = false ∧ (List.take 99 (front ++ sep :: fmtD 4 (toInt32 seq))).length ≤ 96 := by
    intro front sep hsep hfront
    have hle : (front ++ sep :: fmtD 4 (toInt32 seq)).length ≤ 96 := by
      rw [List.length_append, List.length_cons]
      omega
    rw [List.take_of_length_le (hle.trans (by decide))]
    exact ⟨front, sep, rfl, hsep, hle⟩
  have hlength := fun type => length_qlogTimeName_le type c.tm
  rw [shortname]
  cases c.chip with
  | mtk =>
      refine hwhole _ '_' rfl ?_
      have hfront : "MyLog_".toList.length = 6 := rfl
      have htail := hlength 2
      rw [htime, List.length_append, hfront]
      omega
  | unisocExx00u =>
      refine hwhole _ '.' rfl ?_
      have hfront : "Log-".toList.length = 4 := rfl
      have htail := hlength 3
      rw [htime, List.length_append, hfront]
      omega
  | unisoc4 =>
      refine hwhole _ '_' rfl ?_
      rw [htime]
      exact (hlength 4).trans (by decide)
  | other =>
      refine hwhole _ '_' rfl ?_
      rw [htime]
      exact (hlength 1).trans (by decide)

/-! ## Tails -/

/-- What follows the short name in the names of a log's files. -/
def tails (cfg : LogConfig) (dplVersion : Nat) : List Name :=
  ('.' :: cfg.logfileSuffix) :: cfg.secondLogfileSuffix.toList ++
    cfg.thirdLogfileSuffix.toList.map fun suffix =>
      if cfg.readNmeaLog then suffix else suffix ++ fmtD 1 dplVersion

/-- The names of the files of a log. -/
def filesOf (cfg : LogConfig) (c : Creation) (seq : Nat) : List Name :=
  (tails cfg c.dplVersion).map (oldName cfg (shortname c seq))

/-- A tail has a digit at most at its end. -/
def TailOk (tail : Name) : Prop := tail ≠ [] ∧ ∀ c ∈ tail.dropLast, c.isDigit = false

instance (tail : Name) : Decidable (TailOk tail) := @instDecidableAnd _ _ _ (List.decidableBAll _ _)

theorem tailOk_of_mem_tails {cfg : LogConfig} (hcfg : cfg.Valid) {dplVersion : Nat}
    (hdpl : dplVersion = 4 ∨ dplVersion = 5) : ∀ tail ∈ tails cfg dplVersion, TailOk tail := by
  obtain ⟨num, dir, suffix, second, third, nmea⟩ := cfg
  have hmain : ∀ suffix ∈ logfileSuffixes, TailOk ('.' :: suffix) := by decide
  have hsecond : ∀ second ∈ secondLogfileSuffixes, ∀ tail ∈ second.toList, TailOk tail := by decide
  have hthird : ∀ third ∈ thirdLogfileSuffixes, ∀ nmea, ∀ version ∈ [4, 5], ∀ suffix ∈ third.toList,
      TailOk (if nmea = true then suffix else suffix ++ fmtD 1 (version : Nat)) := by decide
  intro tail htail
  rw [tails, List.cons_append, List.mem_cons, List.mem_append, List.mem_map] at htail
  rcases htail with rfl | htail | ⟨suffix, hsuffix, rfl⟩
  · exact hmain _ hcfg.suffix
  · exact hsecond _ hcfg.second tail htail
  · exact hthird _ hcfg.third nmea dplVersion (by simpa using hdpl) suffix hsuffix

/-- A name that ends in a digit, with a tail behind it, determines where the tail begins. -/
theorem append_tail_inj {front front' tail tail' : Name} {d d' : Char} (hd : d.isDigit) (hd' : d'.isDigit)
    (htail : TailOk tail) (htail' : TailOk tail') (h : front ++ [d] ++ tail = front' ++ [d'] ++ tail') :
    front ++ [d] = front' ++ [d'] ∧ tail = tail' := by
  -- else the longer tail has the digit inside
  have hinside : ∀ {front front' tail tail' mid : Name} {d' : Char}, d'.isDigit → TailOk tail → TailOk tail' →
      front' ++ [d'] = front ++ mid → tail = mid ++ tail' → mid = [] := by
    intro front front' tail tail' mid d' hd' htail htail' hfront hsplit
    rcases List.eq_nil_or_concat mid with rfl | ⟨mid, last, rfl⟩
    · rfl
    · rw [List.concat_eq_append] at hfront hsplit
      rw [← List.append_assoc] at hfront
      obtain ⟨-, hlast⟩ := List.append_inj' hfront rfl
      have hmem : last ∈ tail.dropLast := by
        rw [hsplit, List.dropLast_append_of_ne_nil htail'.1]
        exact List.mem_append_left _ (List.mem_append_right _ (List.mem_singleton_self last))
      have hfalse := htail.2 last hmem
      rw [← List.singleton_inj.mp hlast, hd'] at hfalse
      cases hfalse
  rcases List.append_eq_append_iff.mp h with ⟨mid, hfront, hsplit⟩ | ⟨mid, hfront, hsplit⟩
  · obtain rfl := hinside hd' htail htail' hfront hsplit
    rw [List.append_nil] at hfront
    exact ⟨hfront.symm, hsplit⟩
  · obtain rfl := hinside hd htail' htail hfront hsplit
    rw [List.append_nil] at hfront
    exact ⟨hfront, hsplit.symm⟩

/-- The files of different logs have different names. -/
theorem seq_inj {cfg : LogConfig} {c c' : Creation} {seq seq' : Nat} {tail tail' : Name} (hseq : seq < 2 ^ 32)
    (hseq' : seq' < 2 ^ 32) (htail : TailOk tail) (htail' : TailOk tail')
    (h : oldName cfg (shortname c seq) tail = oldName cfg (shortname c' seq') tail') :
    seq = seq' ∧ tail = tail' := by
  obtain ⟨front, sep, hshort, hsep, -⟩ := shortname_eq c hseq
  obtain ⟨front', sep', hshort', hsep', -⟩ := shortname_eq c' hseq'
  obtain ⟨digits, d, hdigits, hd⟩ := fmtD_eq_append 4 (toInt32 seq)
  obtain ⟨digits', d', hdigits', hd'⟩ := fmtD_eq_append 4 (toInt32 seq')
  have hends : shortname c seq = (front ++ sep :: digits) ++ [d] := by
    rw [hshort, hdigits, List.append_assoc, List.cons_append]
  have hends' : shortname c' seq' = (front' ++ sep' :: digits') ++ [d'] := by
    rw [hshort', hdigits', List.append_assoc, List.cons_append]
  have hnames := (List.cons.inj (List.append_cancel_left h)).2
  rw [hends, hends'] at hnames
  obtain ⟨hnames, htails⟩ := append_tail_inj hd hd' htail htail' hnames
  rw [← hends, ← hends', hshort, hshort'] at hnames
  have hread := congrArg (List.rtakeWhile isNumChar) hnames
  rw [rtakeWhile_fmtD front hsep, rtakeWhile_fmtD front' hsep'] at hread
  exact ⟨toInt32_inj hseq hseq' (fmtD_injective 4 hread), htails⟩

end QLog.Rotation
