import QLog.Library.ByteBuffer
import QLog.Library.Transducer

/-! # Commands and replies of FTP

`ftpcmd` sends a command and reads until a read looks like the line of a reply: at least four bytes, a digit in front,
and a blank or a hyphen behind the third character. Its number is what is returned. What else the read has brought is
dropped, and a reply of several lines that comes in several reads may look like several replies.

So calls and replies stay in step exactly as long as the reads that look like reply lines start with the codes of the
replies, one after the other. -/

namespace QLog.Ftp

open Library

/-- `isdigit` -/
def isdigit (c : UInt8) : Bool := 0x30 ≤ c && c ≤ 0x39

/-- `atoi` of a text that starts with a digit. -/
def atoi : Nat → List UInt8 → Nat
  | value, [] => value
  | value, c :: cs => if isdigit c then atoi (10 * value + (c.toNat - 0x30)) cs else value

/-- `"EOF"` -/
def eof : List UInt8 := [0x45, 0x4F, 0x46, 0]

/-- `"\r\n"` -/
def crlf : List UInt8 := [0x0D, 0x0A]

/-- The arguments `s1` and `s2` of a call that sends a command. -/
structure Command where
  s1 : List UInt8
  s2 : Option (List UInt8)

/-- What `snprintf` makes of a command. -/
def Command.text (cmd : Command) : List UInt8 :=
  match cmd.s2 with
  | none => (cmd.s1 ++ crlf).take 1023
  | some s2 => (cmd.s1 ++ 0x20 :: s2 ++ crlf).take 1023

/-- A connection to the server: `buf`, what the reads to come will bring, and what has been sent. -/
structure Connection where
  buf : List UInt8
  reads : List (List UInt8)
  sent : List UInt8

/-- `buf` behind a read. -/
def received (buf read : List UInt8) : List UInt8 :=
  overwrite (overwrite (overwrite buf 0 eof) 0 read) read.length [0]

/-- The condition of the loop, negated: `buf` looks like the line of a reply. -/
def isReplyLine (buf : List UInt8) : Bool := isdigit (buf.getD 0 0) && (buf.getD 3 0 == 0x20 || buf.getD 3 0 == 0x2D)

/-- The loop of `ftpcmd`: `buf`, the reads to come, and the number that is returned, which is zero where `read` fails or
brings nothing. -/
def readReply : List UInt8 → List (List UInt8) → (List UInt8 × List (List UInt8)) × Nat
  | buf, [] => ((overwrite buf 0 eof, []), 0)
  | buf, read :: reads =>
      if read = [] then ((overwrite buf 0 eof, reads), 0)
      else
        let buf := received buf read
        if isReplyLine buf then ((overwrite buf 3 [0x20], reads), atoi 0 (buf.take 3)) else readReply buf reads

/-- `ftpcmd` -/
def ftpcmd (s : Connection) (cmd : Option Command) : Connection × List Nat :=
  let s :=
    match cmd with
    | none => s
    | some cmd => { s with buf := overwrite s.buf 0 (cmd.text ++ [0]), sent := s.sent ++ cmd.text }
  let r := readReply s.buf s.reads
  ({ s with buf := r.1.1, reads := r.1.2 }, [r.2])

/-! ## Replies -/

/-- The three digits of a code. -/
def codeText (code : Nat) : List UInt8 :=
  [UInt8.ofNat (0x30 + code / 100), UInt8.ofNat (0x30 + code / 10 % 10), UInt8.ofNat (0x30 + code % 10)]

/-- A reply as RFC 959 has it: lines of which the last, and only that, starts with the code and a blank. The first of
several starts with the code and a hyphen. -/
structure Reply where
  code : Nat
  /-- the texts of the lines in front of the last one -/
  before : List (List UInt8)
  text : List UInt8
  three_digits : 100 ≤ code ∧ code < 1000
  one_line : ∀ line ∈ text :: before, 0x0A ∉ line
  not_last : ∀ line ∈ before.tail, ¬ codeText code ++ [0x20] <+: line

/-- The reply on the connection. -/
def Reply.bytes (r : Reply) : List UInt8 :=
  match r.before with
  | [] => codeText r.code ++ 0x20 :: r.text ++ crlf
  | line :: lines =>
      codeText r.code ++ 0x2D :: line ++ crlf ++ lines.flatMap (· ++ crlf) ++ codeText r.code ++ 0x20 :: r.text ++ crlf

/-- **Commands and replies are in step**: every call returns the code of its reply. -/
def InStep (s : Connection) (replies : List Reply) : Prop :=
  ∀ cmds : List (Option Command), cmds.length ≤ replies.length →
    (runSteps ftpcmd s cmds).2 = (replies.take cmds.length).map Reply.code

/-- A read that is taken for the line of a reply. -/
def looksLikeReply (read : List UInt8) : Bool :=
  4 ≤ read.length && isdigit (read.getD 0 0) && (read.getD 3 0 == 0x20 || read.getD 3 0 == 0x2D)

/-- The reads that look like replies start with the codes of the replies, one after the other. -/
def ReadsInStep (reads : List (List UInt8)) (replies : List Reply) : Prop :=
  ∀ (k : Nat) (r : Reply), replies[k]? = some r →
    ∃ read, (reads.filter looksLikeReply)[k]? = some read ∧ codeText r.code <+: read

section Read

variable {buf read : List UInt8} {reads : List (List UInt8)}

theorem received_eq (buf read : List UInt8) :
    received buf read = read ++ 0 :: (eof ++ buf.drop 4).drop (read.length + 1) := by
  rw [received, overwrite_zero, overwrite_zero, overwrite, List.take_left, List.length_singleton,
    List.append_assoc, List.drop_length_add_append, List.drop_drop]
  rfl

/-- A read is looked at as it stands. -/
theorem isReplyLine_received (hne : read ≠ []) : isReplyLine (received buf read) = looksLikeReply read := by
  rw [received_eq]
  match read, hne with
  | [a], _ => simp [isReplyLine, looksLikeReply, eof]
  | [a, b], _ => simp [isReplyLine, looksLikeReply, eof]
  | [a, b, c], _ => simp [isReplyLine, looksLikeReply]
  | a :: b :: c :: d :: rest, _ => simp [isReplyLine, looksLikeReply]

/-- The number of a read that looks like a reply. -/
theorem take_received (h : looksLikeReply read = true) : (received buf read).take 3 = read.take 3 := by
  simp only [looksLikeReply, Bool.and_eq_true, decide_eq_true_eq] at h
  rw [received_eq, List.take_append_of_le_length (by omega)]

/-- The loop takes the first read that looks like a reply, and drops those before it. -/
theorem readReply_eq (buf : List UInt8) (hne : ∀ read ∈ reads, read ≠ []) :
    (readReply buf reads).1.2.filter looksLikeReply = (reads.filter looksLikeReply).tail ∧
      (∀ read ∈ (readReply buf reads).1.2, read ≠ []) ∧
      (readReply buf reads).2 = ((reads.filter looksLikeReply).head?.map fun read => atoi 0 (read.take 3)).getD 0 := by
  induction reads generalizing buf with
  | nil => exact ⟨rfl, fun read hread => absurd hread List.not_mem_nil, rfl⟩
  | cons read reads ih =>
      have hrest : ∀ read' ∈ reads, read' ≠ [] := fun read' hread' => hne read' (List.mem_cons_of_mem read hread')
      have hhere := hne read List.mem_cons_self
      rw [readReply, if_neg hhere]
      dsimp only
      rw [isReplyLine_received hhere]
      by_cases hlooks : looksLikeReply read = true
      · rw [if_pos hlooks, List.filter_cons_of_pos hlooks, take_received hlooks]
        exact ⟨rfl, hrest, rfl⟩
      · rw [if_neg hlooks, List.filter_cons_of_neg hlooks]
        exact ih (received buf read) hrest

/-- What the calls return are the numbers of the reads that look like replies, one after the other. -/
theorem runSteps_ftpcmd (cmds : List (Option Command)) (s : Connection) (hne : ∀ read ∈ s.reads, read ≠ []) :
    (runSteps ftpcmd s cmds).2 = (List.range cmds.length).map fun k =>
      ((s.reads.filter looksLikeReply)[k]?.map fun read => atoi 0 (read.take 3)).getD 0 := by
  induction cmds generalizing s with
  | nil => rfl
  | cons cmd cmds ih =>
      -- a call without a command only reads
      have hstep : ∃ buf, (ftpcmd s cmd).1.reads = (readReply buf s.reads).1.2 ∧
          (ftpcmd s cmd).2 = [(readReply buf s.reads).2] := by
        cases cmd with
        | none => exact ⟨s.buf, rfl, rfl⟩
        | some cmd => exact ⟨overwrite s.buf 0 (cmd.text ++ [0]), rfl, rfl⟩
      obtain ⟨buf, hreads, hcode⟩ := hstep
      obtain ⟨hfilter, hrest, hnumber⟩ := readReply_eq buf hne
      have hmore := ih (ftpcmd s cmd).1 (by rw [hreads]; exact hrest)
      rw [runSteps_cons, prepend_snd, hcode, hmore, hreads, hfilter, hnumber, List.length_cons,
        List.range_succ_eq_map, List.map_cons, List.map_map, List.singleton_append]
      congr 1
      · rw [List.head?_eq_getElem?]
      · apply List.map_congr_left
        intro k hk
        rw [Function.comp_apply, List.getElem?_tail]

end Read

/-! ## Codes -/

theorem isdigit_iff {c : UInt8} : isdigit c = true ↔ 0x30 ≤ c.toNat ∧ c.toNat ≤ 0x39 := by
  simp [isdigit, UInt8.le_iff_toNat_le]

/-- A read that looks like a reply has the number of a code exactly if it starts with its digits. -/
theorem atoi_eq_iff {read : List UInt8} (h : looksLikeReply read = true) {code : Nat}
    (hcode : 100 ≤ code ∧ code < 1000) : atoi 0 (read.take 3) = code ↔ codeText code <+: read := by
  match read with
  | [] => exact absurd h (by decide)
  | [a] => exact absurd h (by simp [looksLikeReply])
  | [a, b] => exact absurd h (by simp [looksLikeReply])
  | [a, b, c] => exact absurd h (by simp [looksLikeReply])
  | a :: b :: c :: d :: rest =>
      have ha : isdigit a = true := by
        simp only [looksLikeReply, Bool.and_eq_true] at h
        exact h.1.2
      have ha' := isdigit_iff.mp ha
      have htake : (a :: b :: c :: d :: rest).take 3 = [a, b, c] := rfl
      have hprefix : codeText code <+: a :: b :: c :: d :: rest ↔
          a.toNat = 0x30 + code / 100 ∧ b.toNat = 0x30 + code / 10 % 10 ∧ c.toNat = 0x30 + code % 10 := by
        rw [codeText, List.cons_prefix_cons, List.cons_prefix_cons, List.cons_prefix_cons]
        simp only [List.nil_prefix, and_true, ← UInt8.toNat_inj, UInt8.toNat_ofNat']
        omega
      rw [htake, hprefix, atoi, if_pos ha, atoi]
      -- the first character is a digit, but `atoi` may stop at the second or third
      by_cases hb : isdigit b = true
      · have hb' := isdigit_iff.mp hb
        rw [if_pos hb, atoi]
        by_cases hc : isdigit c = true
        · have hc' := isdigit_iff.mp hc
          rw [if_pos hc, atoi]
          omega
        · rw [isdigit_iff] at hc
          rw [if_neg (by rw [isdigit_iff]; exact hc)]
          omega
      · rw [isdigit_iff] at hb
        rw [if_neg (by rw [isdigit_iff]; exact hb)]
        omega

/-- One call returns the code of the reply that belongs to it exactly if the read at its place starts with the code. -/
theorem code_at_iff (reads : List (List UInt8)) (r : Reply) (k : Nat) :
    (((reads.filter looksLikeReply)[k]?.map fun read => atoi 0 (read.take 3)).getD 0 = r.code ↔
      ∃ read, (reads.filter looksLikeReply)[k]? = some read ∧ codeText r.code <+: read) := by
  cases hfilter : (reads.filter looksLikeReply)[k]? with
  | none =>
      -- no reply has the code 0
      have hpos := r.three_digits.1
      simp only [Option.map_none, Option.getD_none, reduceCtorEq, false_and, exists_false, iff_false]
      omega
  | some read =>
      have hlooks : looksLikeReply read = true :=
        (List.mem_filter.mp (List.mem_of_getElem? hfilter)).2
      simp only [Option.map_some, Option.getD_some, Option.some.injEq, exists_eq_left']
      exact atoi_eq_iff hlooks r.three_digits

/-- **When commands and replies are in step**: the reads that look like reply lines start with the codes of the replies,
one after the other. -/
theorem ftpcmd_inStep_iff (s : Connection) (replies : List Reply) (hread : ∀ read ∈ s.reads, read ≠ []) :
    InStep s replies ↔ ReadsInStep s.reads replies := by
  have hrun := fun cmds => runSteps_ftpcmd cmds s hread
  constructor
  · intro h k r hk
    have hlt : k < replies.length := (List.getElem?_eq_some_iff.mp hk).1
    have hall := h (List.replicate replies.length none) (by simp)
    rw [hrun, List.length_replicate, List.take_length] at hall
    have hcode := congrArg (fun codes => codes[k]?) hall
    simp only [List.getElem?_map, List.getElem?_range hlt, hk, Option.map_some, Option.some.injEq] at hcode
    exact (code_at_iff s.reads r k).mp hcode
  · intro h cmds hcmds
    rw [hrun]
    apply List.ext_getElem?
    intro k
    rw [List.getElem?_map, List.getElem?_map, List.getElem?_take]
    by_cases hk : k < cmds.length
    · obtain ⟨r, hr⟩ : ∃ r, replies[k]? = some r := ⟨_, List.getElem?_eq_getElem (by omega)⟩
      rw [List.getElem?_range hk, if_pos hk, hr, Option.map_some, Option.map_some]
      exact congrArg some ((code_at_iff s.reads r k).mpr (h k r hr))
    · have hrange : (List.range cmds.length)[k]? = none := List.getElem?_eq_none (by simpa using hk)
      rw [hrange, if_neg hk]
      rfl

/-- A reply starts with its code and a blank, or a hyphen where more lines follow. -/
theorem Reply.bytes_eq (r : Reply) :
    ∃ c rest, (c = 0x20 ∨ c = 0x2D) ∧ r.bytes = codeText r.code ++ c :: rest := by
  rw [Reply.bytes]
  cases r.before with
  | nil => exact ⟨0x20, r.text ++ crlf, Or.inl rfl, by simp⟩
  | cons line lines =>
      refine ⟨0x2D, line ++ crlf ++ lines.flatMap (· ++ crlf) ++ codeText r.code ++ 0x20 :: r.text ++ crlf,
        Or.inr rfl, ?_⟩
      simp

theorem Reply.looksLikeReply_bytes (r : Reply) : looksLikeReply r.bytes = true := by
  obtain ⟨c, rest, hc, hbytes⟩ := r.bytes_eq
  have hdigit : isdigit (UInt8.ofNat (0x30 + r.code / 100)) = true := by
    have hcode := r.three_digits
    rw [isdigit_iff, UInt8.toNat_ofNat']
    omega
  rw [hbytes, codeText]
  generalize UInt8.ofNat (0x30 + r.code / 100) = digit at hdigit
  rcases hc with rfl | rfl
  · simp [looksLikeReply, hdigit]
  · simp [looksLikeReply, hdigit]

/-- Replies that come in one read each are in step. -/
theorem readsInStep_of_whole (replies : List Reply) : ReadsInStep (replies.map Reply.bytes) replies := by
  have hfilter : (replies.map Reply.bytes).filter looksLikeReply = replies.map Reply.bytes := by
    rw [List.filter_eq_self]
    intro read hread
    obtain ⟨r, -, rfl⟩ := List.mem_map.mp hread
    exact r.looksLikeReply_bytes
  intro k r hk
  obtain ⟨c, rest, -, hbytes⟩ := r.bytes_eq
  refine ⟨r.bytes, ?_, ?_⟩
  · rw [hfilter, List.getElem?_map, hk, Option.map_some]
  · rw [hbytes]
    exact List.prefix_append _ _

/-- `220-A`, `220 B` -/
def greeting : Reply where
  code := 220
  before := [[0x41]]
  text := [0x42]
  three_digits := by decide
  one_line := by decide
  not_last := by decide

/-- `331 C` -/
def needPassword : Reply where
  code := 331
  before := []
  text := [0x43]
  three_digits := by decide
  one_line := by decide
  not_last := by decide

theorem ftpcmd_inStep_whole :
    InStep ⟨[], [greeting, needPassword].map Reply.bytes, []⟩ [greeting, needPassword] :=
  (ftpcmd_inStep_iff ⟨[], [greeting, needPassword].map Reply.bytes, []⟩ [greeting, needPassword] (by decide)).mpr
    (readsInStep_of_whole [greeting, needPassword])

/-- The greeting comes in two reads, and the second is taken for the answer to `USER`. -/
theorem not_ftpcmd_inStep :
    ¬ ∀ (s : Connection) (replies : List Reply), s.reads.flatten = replies.flatMap Reply.bytes →
      (∀ read ∈ s.reads, read ≠ [] ∧ read.length ≤ 1022) → InStep s replies := by
  intro h
  have hstep := h ⟨[], [[0x32, 0x32, 0x30, 0x2D, 0x41, 0x0D, 0x0A], [0x32, 0x32, 0x30, 0x20, 0x42, 0x0D, 0x0A],
    [0x33, 0x33, 0x31, 0x20, 0x43, 0x0D, 0x0A]], []⟩ [greeting, needPassword] (by decide) (by decide)
  have hcodes := hstep [none, some ⟨[0x55, 0x53, 0x45, 0x52], some [0x51]⟩] (by decide)
  exact absurd hcodes (by decide)

end QLog.Ftp
