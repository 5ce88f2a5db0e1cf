import Mathlib.Data.List.DropRight
import QLog.Library.ByteBuffer
import QLog.Library.CString

/-! # The command line of an FTP session

A line is trimmed at its end and split at its first blank, into a buffer for the command and one for its argument that
stand side by side. A long word runs over from the first into the second, and the argument is copied over it. No command
of the table is that long, so what is called is what the line says. -/

namespace QLog.Ftpd

open Library

/-- The bytes of a text. -/
def textOf (s : String) : List UInt8 := s.toList.map fun c => UInt8.ofNat c.toNat

/-- `MAX_COMMAND_LINE` -/
def maxCommandLine : Nat := 1024

/-- `MAX_COMMAND` -/
def maxCommand : Nat := 32

/-- `MAX_ARG` -/
def maxArg : Nat := 1024

/-- The functions of the table. -/
inductive CmdFunc where
  | doUser | doPass | doCwd | doCdup | doQuit
  | doPort | doPasv | doType
  | doRetr | doStor | doAppe | doList | doNlst | doRest | doAbor | doPwd | doMkd | doRmd | doDele | doRnfr | doRnto
  | doSite | doSyst | doFeat | doSize | doStat | doNoop | doHelp
  deriving DecidableEq

/-- `ctrl_cmds_map` -/
def ctrlCmdsMap : List (List UInt8 × Option CmdFunc) :=
  [(textOf "USER", some .doUser), (textOf "PASS", some .doPass), (textOf "CWD", some .doCwd),
    (textOf "XCWD", some .doCwd), (textOf "CDUP", some .doCdup), (textOf "XDUP", some .doCdup),
    (textOf "QUIT", some .doQuit), (textOf "ACCT", none), (textOf "SMNT", none), (textOf "REIN", none),
    (textOf "PORT", some .doPort), (textOf "PASV", some .doPasv), (textOf "TYPE", some .doType), (textOf "STRU", none),
    (textOf "MODE", none), (textOf "RETR", some .doRetr), (textOf "STOR", some .doStor), (textOf "APPE", some .doAppe),
    (textOf "LIST", some .doList), (textOf "NLST", some .doNlst), (textOf "REST", some .doRest),
    (textOf "ABOR", some .doAbor), ([0xff, 0xf4, 0xff, 0xf2] ++ textOf "ABOR", some .doAbor),
    (textOf "PWD", some .doPwd), (textOf "XPWD", some .doPwd), (textOf "MKD", some .doMkd),
    (textOf "XMKD", some .doMkd), (textOf "RMD", some .doRmd), (textOf "XRMD", some .doRmd),
    (textOf "DELE", some .doDele),
    (textOf "RNFR", some .doRnfr), (textOf "RNTO", some .doRnto), (textOf "SITE", some .doSite),
    (textOf "SYST", some .doSyst), (textOf "FEAT", some .doFeat), (textOf "SIZE", some .doSize),
    (textOf "STAT", some .doStat), (textOf "NOOP", some .doNoop), (textOf "HELP", some .doHelp), (textOf "STOU", none),
    (textOf "ALLO", none)]

/-- `str_trim_crlf`. In front of `cmdline` stands the high byte of `ctrl_fd`, where a line of nothing else ends. -/
def strTrimCrlf (str : List UInt8) : List UInt8 := str.rdropWhile fun c => c = 0x0d ∨ c = 0x0a

/-- `str_split`: what is written to the left buffer, and to the right one behind `size` bytes. -/
def strSplit (str : List UInt8) (size : Nat) (c : UInt8) : List (Write UInt8) :=
  let left := str.takeWhile (· ≠ c)
  if c ∈ str then [⟨0, left⟩, ⟨size, str.drop (left.length + 1) ++ [0]⟩] else [⟨0, str ++ [0]⟩]

/-- `toupper` -/
def toupper (c : UInt8) : UInt8 := if 0x61 ≤ c ∧ c ≤ 0x7a then c - 0x20 else c

/-- `str_upper`, on the string at the front of a memory. -/
def strUpper (mem : List UInt8) : List UInt8 := overwrite mem 0 ((cString mem).map toupper)

/-- `cmd` and `cmd_arg` behind `memset`. -/
def clearedBuffers : List UInt8 := List.replicate (maxCommand + maxArg) 0

/-- `cmd` and `cmd_arg` when a line has been split. -/
def splitBuffers (cmdline : List UInt8) : List UInt8 :=
  strUpper (applyWrites clearedBuffers (strSplit (strTrimCrlf (cString cmdline)) maxCommand 0x20))

/-- What a line comes to. -/
inductive Handled where
  | func (func : CmdFunc) (arg : List UInt8)
  | notImplemented
  | unknown
  deriving DecidableEq

/-- The entry of a command in the table, with its argument. -/
def lookup (cmd arg : List UInt8) : Handled :=
  match ctrlCmdsMap.find? fun entry => entry.1 = cmd with
  | some (_, some f) => .func f arg
  | some (_, none) => .notImplemented
  | none => .unknown

/-- The body of the loop of `handle_child` behind `readline`. -/
def handleLine (cmdline : List UInt8) : Handled :=
  lookup (cString (splitBuffers cmdline)) (cString ((splitBuffers cmdline).drop maxCommand))

/-- What a line says: a command, and behind a blank its argument. -/
def commandOf (line : List UInt8) : Handled :=
  let str := strTrimCrlf (cString line)
  lookup ((str.takeWhile (· ≠ 0x20)).map toupper) (str.drop ((str.takeWhile (· ≠ 0x20)).length + 1))

/-! ## The buffers -/

section Buffers

variable {str : List UInt8}

theorem toupper_ne_zero {c : UInt8} (h : c ≠ 0) : toupper c ≠ 0 := by
  rw [toupper]
  split_ifs with hlower
  · intro heq
    have hle : (0x20 : UInt8) ≤ c := UInt8.le_trans (by decide) hlower.1
    have hc := UInt8.toNat_sub_of_le c 0x20 hle
    rw [heq] at hc
    have hbound := UInt8.le_iff_toNat_le.mp hlower.1
    simp at hc hbound
    omega
  · exact h

theorem zero_not_mem_map_toupper (h : 0 ∉ str) : 0 ∉ str.map toupper := by
  intro hmem
  obtain ⟨c, hc, heq⟩ := List.mem_map.mp hmem
  exact toupper_ne_zero (fun hzero => h (hzero ▸ hc)) heq

theorem strTrimCrlf_isPrefix (str : List UInt8) : strTrimCrlf str <+: str := List.rdropWhile_prefix _ str

theorem zero_not_mem_strTrimCrlf (line : List UInt8) : 0 ∉ strTrimCrlf (cString line) := fun hmem =>
  not_mem_cString line ((strTrimCrlf_isPrefix _).subset hmem)

theorem length_strTrimCrlf_le (line : List UInt8) : (strTrimCrlf (cString line)).length ≤ line.length :=
  (strTrimCrlf_isPrefix _).length_le.trans (cString_isPrefix line).length_le

/-- A line never writes behind the argument. -/
theorem strSplit_inBounds {line : List UInt8} (hline : line.length ≤ maxCommandLine) :
    ∀ w ∈ strSplit (strTrimCrlf (cString line)) maxCommand 0x20, w.InBounds (maxCommand + maxArg) := by
  have hlen := length_strTrimCrlf_le line
  have hleft := (List.takeWhile_prefix (· ≠ (0x20 : UInt8))
    (l := strTrimCrlf (cString line))).length_le
  intro w hw
  rw [strSplit] at hw
  split_ifs at hw with hblank
  · rcases List.mem_cons.mp hw with rfl | hw
    · simp only [Write.InBounds, maxCommand, maxArg, maxCommandLine] at *
      omega
    · have hpos := List.length_pos_of_mem hblank
      rw [List.mem_singleton.mp hw]
      simp only [Write.InBounds, List.length_append, List.length_drop, List.length_singleton, maxCommand, maxArg,
        maxCommandLine] at *
      omega
  · rw [List.mem_singleton.mp hw]
    simp only [Write.InBounds, List.length_append, List.length_singleton, maxCommand, maxArg, maxCommandLine] at *
    omega

/-- The string at the front in capital letters, and what stands behind it. -/
theorem strUpper_append (h : 0 ∉ str) (rest : List UInt8) :
    strUpper (str ++ 0 :: rest) = str.map toupper ++ 0 :: rest := by
  rw [strUpper, cString_append_of_not_mem h, cString_zero_cons, List.append_nil, overwrite_zero, List.length_map,
    List.drop_left]

/-- A line without a blank is the command. -/
theorem splitBuffers_of_not_mem {line : List UInt8} (hblank : 0x20 ∉ strTrimCrlf (cString line)) :
    splitBuffers line = (strTrimCrlf (cString line)).map toupper ++
      0 :: List.replicate (maxCommand + maxArg - ((strTrimCrlf (cString line)).length + 1)) 0 := by
  rw [splitBuffers, strSplit, if_neg hblank, applyWrites_cons, applyWrites_nil, overwrite_zero, clearedBuffers,
    List.drop_replicate, List.length_append, List.length_singleton, List.append_assoc, List.singleton_append,
    strUpper_append (zero_not_mem_strTrimCrlf line)]

theorem takeWhile_ne_blank {word : List UInt8} (hword : 0x20 ∉ word) (arg : List UInt8) :
    (word ++ 0x20 :: arg).takeWhile (· ≠ 0x20) = word := by
  have hall : ∀ c ∈ word, decide (c ≠ 0x20) = true := by
    intro c hc
    rw [decide_eq_true_eq]
    rintro rfl
    exact hword hc
  rw [List.takeWhile_append_of_pos hall, List.takeWhile_cons_of_neg (by decide), List.append_nil]

/-- The command and the argument, before the command is changed to capital letters. -/
theorem applyWrites_strSplit {word arg : List UInt8} (hword : 0x20 ∉ word) (hshort : word.length ≤ maxCommand) :
    applyWrites clearedBuffers (strSplit (word ++ 0x20 :: arg) maxCommand 0x20) =
      word ++ List.replicate (maxCommand - word.length) 0 ++
        (arg ++ 0 :: (List.replicate maxArg 0).drop (arg.length + 1)) := by
  have hblank : (0x20 : UInt8) ∈ word ++ 0x20 :: arg := List.mem_append_right _ List.mem_cons_self
  have hleft : overwrite clearedBuffers 0 word
      = word ++ List.replicate (maxCommand - word.length) 0 ++ List.replicate maxArg 0 := by
    have hsum : maxCommand + maxArg - word.length = (maxCommand - word.length) + maxArg := by omega
    rw [overwrite_zero, clearedBuffers, List.drop_replicate, hsum, List.replicate_add, List.append_assoc]
  have hfront : (word ++ List.replicate (maxCommand - word.length) (0 : UInt8)).length = maxCommand := by
    rw [List.length_append, List.length_replicate]
    omega
  have hright := overwrite_append (arg ++ [0]) (word ++ List.replicate (maxCommand - word.length) 0)
    (List.replicate maxArg 0)
  have hdrop : (word ++ 0x20 :: arg).drop (word.length + 1) = arg := List.drop_length_add_append ..
  rw [hfront, List.length_append, List.length_singleton] at hright
  rw [strSplit, takeWhile_ne_blank hword, if_pos hblank, applyWrites_cons, applyWrites_cons, applyWrites_nil, hdrop,
    hleft, hright, List.append_assoc, List.append_assoc arg, List.singleton_append, List.append_assoc]

/-- A short word and what is behind the blank. -/
theorem splitBuffers_of_mem {line word arg : List UInt8} (hline : strTrimCrlf (cString line) = word ++ 0x20 :: arg)
    (hword : 0x20 ∉ word) (hshort : word.length < maxCommand) :
    splitBuffers line = (word.map toupper ++ 0 :: List.replicate (maxCommand - (word.length + 1)) 0) ++
      (arg ++ 0 :: (List.replicate maxArg 0).drop (arg.length + 1)) := by
  have hzero : 0 ∉ word := fun hmem => by
    refine zero_not_mem_strTrimCrlf line ?_
    rw [hline]
    exact List.mem_append_left _ hmem
  have hpad : maxCommand - word.length = maxCommand - (word.length + 1) + 1 := by omega
  rw [splitBuffers, hline, applyWrites_strSplit hword hshort.le, hpad, List.replicate_succ, List.append_assoc,
    List.cons_append, strUpper_append hzero, List.append_assoc, List.cons_append]

/-- A string without a zero among the first bytes is as long. -/
theorem le_length_cString {mem : List UInt8} {n : Nat} (hzero : 0 ∉ mem.take n) (hlen : n ≤ mem.length) :
    n ≤ (cString mem).length := by
  have happend := cString_append_of_not_mem hzero (mem.drop n)
  rw [List.take_append_drop] at happend
  rw [happend, List.length_append, List.length_take]
  omega

theorem length_cString_strUpper (mem : List UInt8) : (cString mem).length ≤ (cString (strUpper mem)).length := by
  rw [strUpper, overwrite_zero, cString_append_of_not_mem (zero_not_mem_map_toupper (not_mem_cString mem)),
    List.length_append, List.length_map]
  exact Nat.le_add_right _ _

/-- A long word fills the buffer of the command. -/
theorem length_cString_splitBuffers {line word arg : List UInt8}
    (hline : strTrimCrlf (cString line) = word ++ 0x20 :: arg) (hword : 0x20 ∉ word)
    (hlong : maxCommand ≤ word.length) : maxCommand ≤ (cString (splitBuffers line)).length := by
  have hzero : 0 ∉ word := fun hmem => by
    refine zero_not_mem_strTrimCrlf line ?_
    rw [hline]
    exact List.mem_append_left _ hmem
  have hblank : (0x20 : UInt8) ∈ word ++ 0x20 :: arg := List.mem_append_right _ List.mem_cons_self
  have hleft : overwrite clearedBuffers 0 word = word ++ clearedBuffers.drop word.length := overwrite_zero ..
  have hlen : maxCommand ≤ (overwrite clearedBuffers 0 word).length := by
    rw [hleft, List.length_append]
    omega
  -- the argument is written behind the first bytes of the word
  have htake : (overwrite (overwrite clearedBuffers 0 word) maxCommand (arg ++ [0])).take maxCommand
      = word.take maxCommand := by
    rw [← window_zero, window_overwrite_before _ _ (Nat.le_refl _) hlen, window_zero, hleft,
      List.take_append_of_le_length hlong]
  have hdrop : (word ++ 0x20 :: arg).drop (word.length + 1) = arg := List.drop_length_add_append ..
  rw [splitBuffers, hline, strSplit, takeWhile_ne_blank hword, if_pos hblank, applyWrites_cons, applyWrites_cons,
    applyWrites_nil, hdrop]
  refine (le_length_cString ?_ ?_).trans (length_cString_strUpper _)
  · rw [htake]
    exact fun hmem => hzero (List.take_subset _ _ hmem)
  · dsimp only
    rw [overwrite, List.length_append, List.length_append, List.length_take]
    omega

/-- No command of the table is as long as the buffer. -/
theorem lookup_of_long {cmd : List UInt8} (hlong : maxCommand ≤ cmd.length) (arg : List UInt8) :
    lookup cmd arg = .unknown := by
  have hall : ∀ entry ∈ ctrlCmdsMap, entry.1.length < maxCommand := by decide
  have hnone : ctrlCmdsMap.find? (fun entry => entry.1 = cmd) = none := by
    rw [List.find?_eq_none]
    intro entry hentry
    rw [decide_eq_true_eq]
    rintro rfl
    exact absurd hlong (not_le.mpr (hall entry hentry))
  rw [lookup, hnone]

/-- What is called is what the line says. -/
theorem handleLine_eq (line : List UInt8) : handleLine line = commandOf line := by
  rw [handleLine, commandOf]
  by_cases hblank : 0x20 ∈ strTrimCrlf (cString line)
  · obtain ⟨word, arg, hline, hword⟩ := List.eq_append_cons_of_mem hblank
    have hdrop : (word ++ 0x20 :: arg).drop (word.length + 1) = arg := List.drop_length_add_append ..
    rw [hline, takeWhile_ne_blank hword, hdrop]
    by_cases hshort : word.length < maxCommand
    · have hzero := zero_not_mem_strTrimCrlf line
      rw [hline, List.mem_append, List.mem_cons, not_or, not_or] at hzero
      have hfront : (word.map toupper ++ 0 :: List.replicate (maxCommand - (word.length + 1)) (0 : UInt8)).length
          = maxCommand := by
        rw [List.length_append, List.length_map, List.length_cons, List.length_replicate]
        omega
      rw [splitBuffers_of_mem hline hword hshort, List.drop_left' hfront, List.append_assoc, List.cons_append,
        cString_append_of_not_mem (zero_not_mem_map_toupper hzero.1), cString_zero_cons, List.append_nil,
        cString_append_of_not_mem hzero.2.2, cString_zero_cons, List.append_nil]
    · rw [lookup_of_long (length_cString_splitBuffers hline hword (not_lt.mp hshort)),
        lookup_of_long (by rw [List.length_map]; exact not_lt.mp hshort)]
  · have hall : (strTrimCrlf (cString line)).takeWhile (· ≠ 0x20) = strTrimCrlf (cString line) := by
      rw [List.takeWhile_eq_self_iff]
      intro c hc
      rw [decide_eq_true_eq]
      rintro rfl
      exact hblank hc
    have hzero := zero_not_mem_map_toupper (zero_not_mem_strTrimCrlf line)
    rw [hall, List.drop_of_length_le (Nat.le_succ _), splitBuffers_of_not_mem hblank,
      cString_append_of_not_mem hzero, cString_zero_cons, List.append_nil]
    by_cases hshort : (strTrimCrlf (cString line)).length < maxCommand
    · have hrest : ((strTrimCrlf (cString line)).map toupper ++ 0 :: List.replicate (maxCommand + maxArg -
          ((strTrimCrlf (cString line)).length + 1)) (0 : UInt8)).drop maxCommand =
          List.replicate maxArg 0 := by
        rw [← List.replicate_succ, List.drop_append, List.length_map, List.drop_of_length_le (by
          rw [List.length_map]; omega), List.nil_append, List.drop_replicate]
        congr 1
        simp only [maxCommand, maxArg] at *
        omega
      rw [hrest, maxArg, List.replicate_succ, cString_zero_cons]
    · rw [lookup_of_long (by rw [List.length_map]; exact not_lt.mp hshort),
        lookup_of_long (by rw [List.length_map]; exact not_lt.mp hshort)]

end Buffers

end QLog.Ftpd
