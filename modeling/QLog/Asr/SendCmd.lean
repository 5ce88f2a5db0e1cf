import Mathlib.Data.List.Range
import QLog.Library.LittleEndian

/-! # Forwarding commands to ASR modems

The commands of the TCP tool start with their length. `asr_send_cmd` gets what one read has brought, writes the commands
in it and gives up at the first one that is not complete; the reader loop drops what is left.

The length is read before it is known that four bytes of it are there. The model therefore keeps the memory from `rbuf`
on, in which the bytes of earlier reads stand behind the chunk. -/

namespace QLog

open Library

/-- The call of `asr_send_cmd`: the bytes in memory from `buf` on, and `size`. -/
structure AsrCmd where
  buf : Nat → UInt8
  size : Nat

namespace AsrCmd

variable (c : AsrCmd) (pollWrite : List UInt8 → Int)

/-- The bytes of the buffer from one index up to another. -/
def bytes (lo hi : Nat) : List UInt8 := (List.range' lo (hi - lo)).map c.buf

/-- `cmd_len`, read at `wc`. -/
def cmdLen (wc : Nat) : Nat := ofLeBytes (c.bytes wc (wc + 4))

/-- A round of the loop, if it goes on: `wc` behind it. The wait for an answer that follows the write is left out. -/
def sendRound (wc : Nat) : Option Nat :=
  if wc < c.size then
    if c.size - wc < c.cmdLen wc then none
    else if pollWrite (c.bytes wc (wc + c.cmdLen wc)) ≠ c.cmdLen wc then none
    else some (wc + c.cmdLen wc)
  else none

/-- The loop, if it ends after at most so many rounds: the bytes written, and `wc`. -/
def sendLoop : Nat → Nat → Option (List UInt8 × Nat)
  | 0, _ => none
  | n + 1, wc =>
      match c.sendRound pollWrite wc with
      | none => some ([], wc)
      | some wc' => (sendLoop n wc').map fun r => (c.bytes wc wc' ++ r.1, r.2)

/-- `qlog_poll_write` accepts what it is given. -/
def Accepts (pollWrite : List UInt8 → Int) : Prop := ∀ bytes, pollWrite bytes = bytes.length

section Round

variable {c pollWrite} {wc wc' : Nat}

@[simp] theorem length_bytes (lo hi : Nat) : (c.bytes lo hi).length = hi - lo := by
  simp [bytes]

theorem bytes_append {lo mid hi : Nat} (hlo : lo ≤ mid) (hhi : mid ≤ hi) :
    c.bytes lo mid ++ c.bytes mid hi = c.bytes lo hi := by
  obtain ⟨m, rfl⟩ := Nat.exists_eq_add_of_le hlo
  obtain ⟨n, rfl⟩ := Nat.exists_eq_add_of_le hhi
  have hlength : lo + m + n - lo = m + n := by omega
  simp only [bytes, hlength, Nat.add_sub_cancel_left, ← List.map_append, List.range'_append_1]

/-- A round that goes on has met a command that is complete. -/
theorem sendRound_eq_some (h : c.sendRound pollWrite wc = some wc') :
    wc < c.size ∧ c.cmdLen wc ≤ c.size - wc ∧ wc' = wc + c.cmdLen wc := by
  rw [sendRound] at h
  split at h
  · next hmore =>
      split at h
      · cases h
      · next hfits =>
          split at h
          · cases h
          · exact ⟨hmore, Nat.le_of_not_lt hfits, (Option.some.inj h).symm⟩
  · cases h

/-- A command that is complete is written, and the loop goes on behind it. -/
theorem sendRound_complete (hwrite : Accepts pollWrite) (hmore : wc < c.size) (hfits : c.cmdLen wc ≤ c.size - wc) :
    c.sendRound pollWrite wc = some (wc + c.cmdLen wc) := by
  have haccepted : pollWrite (c.bytes wc (wc + c.cmdLen wc)) = c.cmdLen wc := by
    rw [hwrite, length_bytes, Nat.add_sub_cancel_left]
  rw [sendRound, if_pos hmore, if_neg (Nat.not_lt.mpr hfits), if_neg (not_not_intro haccepted)]

/-- The bytes written are those in front of the place where the loop is left. -/
theorem sendLoop_eq_some (n wc : Nat) {r : List UInt8 × Nat} (hwc : wc ≤ c.size)
    (h : c.sendLoop pollWrite n wc = some r) : wc ≤ r.2 ∧ r.2 ≤ c.size ∧ r.1 = c.bytes wc r.2 := by
  induction n generalizing wc r with
  | zero => cases h
  | succ n ih =>
      rw [sendLoop] at h
      split at h
      · obtain rfl := Option.some.inj h
        refine ⟨Nat.le_refl wc, hwc, ?_⟩
        simp [bytes]
      · next wc' hround =>
          obtain ⟨hmore, hfits, hnext⟩ := sendRound_eq_some hround
          obtain ⟨r', hloop, rfl⟩ := Option.map_eq_some_iff.mp h
          obtain ⟨hfrom, hto, hbytes⟩ := ih wc' (by omega) hloop
          refine ⟨by omega, hto, ?_⟩
          rw [hbytes]
          exact bytes_append (by omega) hfrom

end Round

/-! ## Progress -/

/-- The loop comes from the one index to the other. -/
inductive RoundFrom : Nat → Nat → Prop
  | refl (wc : Nat) : RoundFrom wc wc
  | next {wc wc' wc'' : Nat} : c.sendRound pollWrite wc = some wc' → RoundFrom wc' wc'' → RoundFrom wc wc''

/-- **The call ends**: every round that is begun reads a length that lies inside the buffer, `wc` grows in every round
that goes on, and there are no more of them than bytes. -/
structure Progresses : Prop where
  inside : ∀ wc, c.RoundFrom pollWrite 0 wc → wc < c.size → wc + 4 ≤ c.size
  advances : ∀ wc wc', c.RoundFrom pollWrite 0 wc → c.sendRound pollWrite wc = some wc' → wc < wc'
  ends : ∃ r, c.sendLoop pollWrite (c.size + 1) 0 = some r

/-- The length that bytes start with. -/
def announced (bytes : List UInt8) : Nat := ofLeBytes (bytes.take 4)

/-- Commands that are not empty, and behind them nothing or the start of one, with its length. -/
inductive CommandChain : List UInt8 → Prop
  | nil : CommandChain []
  | cut {bytes : List UInt8} : 4 ≤ bytes.length → bytes.length < announced bytes → CommandChain bytes
  | cmd {bytes : List UInt8} : 4 ≤ bytes.length → 0 < announced bytes → announced bytes ≤ bytes.length →
      CommandChain (bytes.drop (announced bytes)) → CommandChain bytes

section Progress

variable {c pollWrite} {wc wc' : Nat}

theorem drop_bytes (lo hi n : Nat) : (c.bytes lo hi).drop n = c.bytes (lo + n) hi := by
  rw [bytes, bytes, ← List.map_drop, List.drop_range', Nat.sub_sub]
  simp

/-- The length is that of the bytes that are left, if they are four at least. -/
theorem announced_bytes (hfour : wc + 4 ≤ c.size) : announced (c.bytes wc c.size) = c.cmdLen wc := by
  have hsplit : c.bytes wc c.size = c.bytes wc (wc + 4) ++ c.bytes (wc + 4) c.size :=
    (bytes_append (Nat.le_add_right wc 4) hfour).symm
  rw [announced, cmdLen, hsplit, List.take_left' (by simp)]

/-- What is left behind a round is a chain again. -/
theorem CommandChain.sendRound (h : CommandChain (c.bytes wc c.size)) (hround : c.sendRound pollWrite wc = some wc') :
    wc < wc' ∧ CommandChain (c.bytes wc' c.size) := by
  obtain ⟨hmore, hfits, rfl⟩ := sendRound_eq_some hround
  generalize hbytes : c.bytes wc c.size = bytes at h
  have hlength : bytes.length = c.size - wc := by rw [← hbytes, length_bytes]
  cases h with
  | nil =>
      rw [List.length_nil] at hlength
      omega
  -- a command that is cut is not sent, so there was no such round
  | cut hfour hlong =>
      rw [← hbytes, announced_bytes (by omega), length_bytes] at hlong
      omega
  | cmd hfour hpos hle hrest =>
      rw [← hbytes, announced_bytes (by omega)] at hpos hrest
      rw [drop_bytes] at hrest
      exact ⟨by omega, hrest⟩

theorem CommandChain.roundFrom (h : CommandChain (c.bytes wc c.size)) (hfrom : c.RoundFrom pollWrite wc wc') :
    CommandChain (c.bytes wc' c.size) := by
  induction hfrom with
  | refl wc => exact h
  | next hround _ ih => exact ih (h.sendRound hround).2

/-- A chain that is not empty has the four bytes of a length. -/
theorem CommandChain.four_le {bytes : List UInt8} (h : CommandChain bytes) (hmore : bytes ≠ []) : 4 ≤ bytes.length := by
  cases h with
  | nil => exact absurd rfl hmore
  | cut hfour _ => exact hfour
  | cmd hfour _ _ _ => exact hfour

/-- Where what is left is a chain, the loop ends. -/
theorem CommandChain.sendLoop (n wc : Nat) (hn : c.size < wc + n) (hwc : wc ≤ c.size)
    (h : CommandChain (c.bytes wc c.size)) : ∃ r, c.sendLoop pollWrite n wc = some r := by
  induction n generalizing wc with
  | zero => omega
  | succ n ih =>
      rw [AsrCmd.sendLoop]
      split
      · exact ⟨_, rfl⟩
      · next wc' hround =>
          obtain ⟨hlt, hrest⟩ := h.sendRound hround
          obtain ⟨-, hfits, rfl⟩ := sendRound_eq_some hround
          obtain ⟨r, hloop⟩ := ih _ (by omega) (by omega) hrest
          rw [hloop]
          exact ⟨_, rfl⟩

/-- Where every round reads its length inside the buffer and advances, what is left is a chain. -/
theorem commandChain_of_advances (hwrite : Accepts pollWrite) (n wc : Nat) (hn : c.size ≤ wc + n) (hwc : wc ≤ c.size)
    (hinside : ∀ wc', c.RoundFrom pollWrite wc wc' → wc' < c.size → wc' + 4 ≤ c.size)
    (hadvance : ∀ wc' wc'', c.RoundFrom pollWrite wc wc' → c.sendRound pollWrite wc' = some wc'' → wc' < wc'') :
    CommandChain (c.bytes wc c.size) := by
  induction n generalizing wc with
  | zero =>
      have hend : c.size - wc = 0 := by omega
      simp only [bytes, hend]
      exact CommandChain.nil
  | succ n ih =>
      by_cases hmore : wc < c.size
      · have hfour := hinside wc (RoundFrom.refl wc) hmore
        have hannounced : announced (c.bytes wc c.size) = c.cmdLen wc := announced_bytes hfour
        -- a command that is complete is got past, so it is not empty
        by_cases hfits : c.cmdLen wc ≤ c.size - wc
        · have hround := sendRound_complete hwrite hmore hfits
          have hlt := hadvance wc _ (RoundFrom.refl wc) hround
          apply CommandChain.cmd
          · rw [length_bytes]
            omega
          · rw [hannounced]
            omega
          · rw [hannounced, length_bytes]
            exact hfits
          · rw [hannounced, drop_bytes]
            apply ih _ (by omega) (by omega)
            · exact fun wc' hfrom => hinside wc' (RoundFrom.next hround hfrom)
            · exact fun wc' wc'' hfrom => hadvance wc' wc'' (RoundFrom.next hround hfrom)
        · apply CommandChain.cut
          · rw [length_bytes]
            omega
          · rw [hannounced, length_bytes]
            omega
      · have hend : c.size - wc = 0 := by omega
        simp only [bytes, hend]
        exact CommandChain.nil

/-- **When the call ends**: the buffer is a chain of commands that are not empty, and what is behind them is nothing
or has the four bytes of a length. -/
theorem asrSendCmd_progresses_iff (c : AsrCmd) (pollWrite : List UInt8 → Int) (hwrite : Accepts pollWrite) :
    c.Progresses pollWrite ↔ CommandChain (c.bytes 0 c.size) := by
  constructor
  · intro h
    -- from every frame on the loop would have to go on
    apply commandChain_of_advances hwrite c.size 0 (by omega) (by omega)
    · exact h.inside
    · exact h.advances
  · intro h
    refine ⟨fun wc hfrom hmore => ?_, fun wc wc' hfrom hround => ?_, ?_⟩
    · have hrest := h.roundFrom hfrom
      have hlength : (c.bytes wc c.size).length = c.size - wc := length_bytes wc c.size
      have hne : c.bytes wc c.size ≠ [] := List.ne_nil_of_length_pos (by omega)
      have hfour := hrest.four_le hne
      omega
    · exact ((h.roundFrom hfrom).sendRound hround).1
    · exact h.sendLoop (c.size + 1) 0 (by omega) (by omega)

end Progress

/-- A call on bytes with zeros behind them. -/
def ofBytes (bytes : List UInt8) : AsrCmd where
  buf i := bytes.getD i 0
  size := bytes.length

/-- A command and the start of another. -/
theorem asrSendCmd_progresses_command :
    (ofBytes [6, 0, 0, 0, 1, 2, 9, 0, 0, 0, 3]).Progresses fun bytes => bytes.length := by
  refine (asrSendCmd_progresses_iff _ _ fun _ => rfl).mpr ?_
  apply CommandChain.cmd (by decide) (by decide) (by decide)
  exact CommandChain.cut (by decide) (by decide)

/-- A length of zero is met again and again, and one of two bytes is read behind the buffer. -/
theorem not_asrSendCmd_progresses :
    ¬ ∀ (c : AsrCmd) (pollWrite : List UInt8 → Int), Accepts pollWrite → c.Progresses pollWrite := by
  intro h
  have hzero := h (ofBytes [0, 0, 0, 0]) (fun bytes => bytes.length) fun _ => rfl
  have hround : (ofBytes [0, 0, 0, 0]).sendRound (fun bytes => bytes.length) 0 = some 0 := by decide
  exact Nat.lt_irrefl 0 (hzero.advances 0 0 (RoundFrom.refl 0) hround)

/-! ## Chunks -/

/-- `read(fd, rbuf, rbuf_size)`: what stood in `rbuf` stays behind the chunk. -/
def readInto (rbuf : Nat → UInt8) (chunk : List UInt8) : Nat → UInt8 := fun i => chunk.getD i (rbuf i)

/-- The calls that the reader loop makes for the chunks that come. -/
def calls : (Nat → UInt8) → List (List UInt8) → List AsrCmd
  | _, [] => []
  | rbuf, chunk :: chunks => ⟨readInto rbuf chunk, chunk.length⟩ :: calls (readInto rbuf chunk) chunks

/-- The bytes that calls write, if each ends after at most so many rounds. What a call returns is not looked at. -/
def forward (n : Nat) : List AsrCmd → Option (List UInt8)
  | [] => some []
  | c :: cs =>
      match c.sendLoop pollWrite n 0 with
      | none => none
      | some r => (forward n cs).map fun written => r.1 ++ written

/-- The reader loop gets past the chunks and has written these bytes. -/
def Forwards (rbuf : Nat → UInt8) (chunks : List (List UInt8)) (written : List UInt8) : Prop :=
  ∃ n, forward pollWrite n (calls rbuf chunks) = some written

/-- A complete command: its first four bytes hold its length. -/
def IsCommand (cmd : List UInt8) : Prop := 4 ≤ cmd.length ∧ announced cmd = cmd.length

instance (cmd : List UInt8) : Decidable (IsCommand cmd) := inferInstanceAs (Decidable (_ ∧ _))

/-- From an index on the lengths lead to the end of the buffer. -/
inductive UsedUp : Nat → Prop
  | done : UsedUp c.size
  | cmd {wc : Nat} : wc < c.size → 0 < c.cmdLen wc → c.cmdLen wc ≤ c.size - wc → UsedUp (wc + c.cmdLen wc) → UsedUp wc

section Chunks

variable {c pollWrite} {wc : Nat}

/-- A loop that ends ends with every larger number of rounds too. -/
theorem sendLoop_mono {m n : Nat} (hmn : m ≤ n) (wc : Nat) {r : List UInt8 × Nat}
    (h : c.sendLoop pollWrite m wc = some r) : c.sendLoop pollWrite n wc = some r := by
  induction m generalizing n wc r with
  | zero => cases h
  | succ m ih =>
      obtain ⟨n, rfl⟩ := Nat.exists_eq_add_of_le' (Nat.lt_of_lt_of_le (Nat.zero_lt_succ m) hmn)
      rw [sendLoop] at h ⊢
      cases hround : c.sendRound pollWrite wc with
      | none =>
          rw [hround] at h
          exact h
      | some wc' =>
          rw [hround] at h
          obtain ⟨r', hloop, hr⟩ := Option.map_eq_some_iff.mp h
          simp only [ih (Nat.le_of_succ_le_succ hmn) wc' hloop, Option.map_some, hr]

/-- Where the lengths lead to the end of the buffer, all of it is written. -/
theorem UsedUp.sendLoop (hwrite : Accepts pollWrite) (h : c.UsedUp wc) :
    ∃ n, c.sendLoop pollWrite n wc = some (c.bytes wc c.size, c.size) := by
  induction h with
  | done =>
      refine ⟨1, ?_⟩
      simp [AsrCmd.sendLoop, AsrCmd.sendRound, bytes]
  | cmd hmore hpos hfits hrest ih =>
      obtain ⟨n, hloop⟩ := ih
      refine ⟨n + 1, ?_⟩
      rw [AsrCmd.sendLoop, sendRound_complete hwrite hmore hfits]
      simp only [hloop, Option.map_some]
      rw [bytes_append (Nat.le_add_right _ _) (by omega)]

/-- A loop that gets to the end of the buffer has been led there by the lengths. -/
theorem usedUp_of_sendLoop (n wc : Nat) {written : List UInt8}
    (h : c.sendLoop pollWrite n wc = some (written, c.size)) : c.UsedUp wc := by
  induction n generalizing wc written with
  | zero => cases h
  | succ n ih =>
      rw [AsrCmd.sendLoop] at h
      split at h
      · obtain ⟨-, rfl⟩ := Prod.mk.inj (Option.some.inj h)
        exact UsedUp.done
      · next wc' hround =>
          obtain ⟨hmore, hfits, rfl⟩ := sendRound_eq_some hround
          obtain ⟨⟨written', wc''⟩, hloop, hr⟩ := Option.map_eq_some_iff.mp h
          obtain ⟨-, rfl⟩ := Prod.mk.inj hr
          by_cases hzero : c.cmdLen wc = 0
          · -- the same place with fewer rounds
            rw [hzero, Nat.add_zero] at hloop
            exact ih wc hloop
          · exact UsedUp.cmd hmore (Nat.pos_of_ne_zero hzero) hfits (ih _ hloop)

/-- Behind a read the buffer holds the chunk. -/
theorem bytes_readInto (rbuf : Nat → UInt8) (chunk : List UInt8) :
    (⟨readInto rbuf chunk, chunk.length⟩ : AsrCmd).bytes 0 chunk.length = chunk := by
  apply List.ext_getElem
  · simp
  · intro i hi hchunk
    simp [bytes, readInto, hchunk]

/-- Calls that end end with every larger number of rounds too. -/
theorem forward_mono {m n : Nat} (hmn : m ≤ n) (cs : List AsrCmd) {written : List UInt8}
    (h : forward pollWrite m cs = some written) : forward pollWrite n cs = some written := by
  induction cs generalizing written with
  | nil => exact h
  | cons c cs ih =>
      rw [forward] at h ⊢
      cases hloop : c.sendLoop pollWrite m 0 with
      | none =>
          rw [hloop] at h
          cases h
      | some r =>
          rw [hloop] at h
          obtain ⟨rest, hrest, hwritten⟩ := Option.map_eq_some_iff.mp h
          simp only [sendLoop_mono hmn 0 hloop, ih hrest, Option.map_some, hwritten]

/-- All that has come is written, if every call uses up its chunk. -/
theorem forwards_of_usedUp (hwrite : Accepts pollWrite) (rbuf : Nat → UInt8) (chunks : List (List UInt8))
    (h : ∀ c ∈ calls rbuf chunks, c.UsedUp 0) : Forwards pollWrite rbuf chunks chunks.flatten := by
  induction chunks generalizing rbuf with
  | nil => exact ⟨0, rfl⟩
  | cons chunk chunks ih =>
      rw [calls] at h
      obtain ⟨m, hchunk⟩ := (h _ List.mem_cons_self).sendLoop hwrite
      obtain ⟨n, hrest⟩ := ih (readInto rbuf chunk) fun c hc => h c (List.mem_cons_of_mem _ hc)
      refine ⟨max m n, ?_⟩
      rw [calls, forward, sendLoop_mono (Nat.le_max_left m n) 0 hchunk]
      simp only [forward_mono (Nat.le_max_right m n) _ hrest, Option.map_some, bytes_readInto, List.flatten_cons]

/-- No more is written than has come. -/
theorem length_forward_le (n : Nat) (rbuf : Nat → UInt8) (chunks : List (List UInt8)) {written : List UInt8}
    (h : forward pollWrite n (calls rbuf chunks) = some written) : written.length ≤ chunks.flatten.length := by
  induction chunks generalizing rbuf written with
  | nil =>
      obtain rfl := Option.some.inj h
      exact Nat.le_refl _
  | cons chunk chunks ih =>
      rw [calls, forward] at h
      split at h
      · cases h
      · next r hloop =>
          obtain ⟨rest, hrest, rfl⟩ := Option.map_eq_some_iff.mp h
          obtain ⟨-, hle, hbytes⟩ := sendLoop_eq_some n 0 (Nat.zero_le _) hloop
          have hlength := ih (readInto rbuf chunk) hrest
          rw [List.length_append, hbytes, length_bytes, List.flatten_cons, List.length_append]
          dsimp only at hle
          omega

/-- If as much is written as has come, every call has used up its chunk. -/
theorem usedUp_of_forward (n : Nat) (rbuf : Nat → UInt8) (chunks : List (List UInt8)) {written : List UInt8}
    (h : forward pollWrite n (calls rbuf chunks) = some written) (hall : written.length = chunks.flatten.length) :
    ∀ c ∈ calls rbuf chunks, c.UsedUp 0 := by
  induction chunks generalizing rbuf written with
  | nil => exact fun c hc => absurd hc List.not_mem_nil
  | cons chunk chunks ih =>
      rw [calls, forward] at h
      rw [calls]
      split at h
      · cases h
      · next r hloop =>
          obtain ⟨rest, hrest, rfl⟩ := Option.map_eq_some_iff.mp h
          obtain ⟨-, hle, hbytes⟩ := sendLoop_eq_some n 0 (Nat.zero_le _) hloop
          have hlength := length_forward_le n (readInto rbuf chunk) chunks hrest
          rw [List.length_append, hbytes, length_bytes, List.flatten_cons, List.length_append] at hall
          dsimp only at hle
          -- neither the chunk nor the rest can make up for the other
          have hend : r.2 = chunk.length := by omega
          intro c hc
          rcases List.mem_cons.mp hc with rfl | hc
          · have hdone : sendLoop ⟨readInto rbuf chunk, chunk.length⟩ pollWrite n 0 = some (r.1, chunk.length) := by
              rw [hloop, ← hend]
            exact usedUp_of_sendLoop n 0 hdone
          · exact ih (readInto rbuf chunk) hrest (by omega) c hc

/-- A buffer that holds whole commands is used up. -/
theorem usedUp_of_commands (wc : Nat) (cmds : List (List UInt8)) (hcmds : ∀ cmd ∈ cmds, IsCommand cmd)
    (hbytes : c.bytes wc c.size = cmds.flatten) (hwc : wc ≤ c.size) : c.UsedUp wc := by
  induction cmds generalizing wc with
  | nil =>
      have hlength : (c.bytes wc c.size).length = c.size - wc := length_bytes wc c.size
      rw [hbytes, List.flatten_nil, List.length_nil] at hlength
      have hend : wc = c.size := by omega
      rw [hend]
      exact UsedUp.done
  | cons cmd cmds ih =>
      obtain ⟨hfour, hcmd⟩ := hcmds cmd List.mem_cons_self
      have hlength : (c.bytes wc c.size).length = c.size - wc := length_bytes wc c.size
      rw [hbytes, List.flatten_cons, List.length_append] at hlength
      have hannounced : c.cmdLen wc = cmd.length := by
        rw [← announced_bytes (by omega), hbytes, List.flatten_cons, announced,
          List.take_append_of_le_length hfour, ← announced, hcmd]
      apply UsedUp.cmd (by omega) (by omega) (by omega)
      apply ih _ fun cmd' hcmd' => hcmds cmd' (List.mem_cons_of_mem _ hcmd')
      · rw [← drop_bytes, hbytes, hannounced, List.flatten_cons, List.drop_left]
      · omega

/-- **When forwarding does not depend on the chunks**: from the start of every chunk the lengths lead to its end. -/
theorem asrSendCmd_forwards_iff (hwrite : Accepts pollWrite) (cmds : List (List UInt8))
    (hcmds : ∀ cmd ∈ cmds, IsCommand cmd) (rbuf : Nat → UInt8) (chunks : List (List UInt8))
    (hcut : chunks.flatten = cmds.flatten) :
    (Forwards pollWrite rbuf chunks cmds.flatten ∧ Forwards pollWrite rbuf [cmds.flatten] cmds.flatten) ↔
      ∀ c ∈ calls rbuf chunks, c.UsedUp 0 := by
  constructor
  -- that the commands in one chunk are forwarded always holds, so it adds nothing here
  · rintro ⟨⟨n, hforward⟩, -⟩
    apply usedUp_of_forward n rbuf chunks hforward
    rw [hcut]
  · intro h
    refine ⟨hcut ▸ forwards_of_usedUp hwrite rbuf chunks h, ?_⟩
    have hwhole : Forwards pollWrite rbuf [cmds.flatten] [cmds.flatten].flatten := by
      apply forwards_of_usedUp hwrite
      intro c hc
      rw [calls, calls, List.mem_singleton] at hc
      rw [hc]
      exact usedUp_of_commands 0 cmds hcmds (bytes_readInto rbuf cmds.flatten) (Nat.zero_le _)
    rwa [List.flatten_singleton] at hwhole

/-- Chunks that are cut between commands are forwarded. -/
theorem usedUp_calls_of_commands (rbuf : Nat → UInt8) (chunks : List (List (List UInt8)))
    (hcmds : ∀ cmds ∈ chunks, ∀ cmd ∈ cmds, IsCommand cmd) :
    ∀ c ∈ calls rbuf (chunks.map List.flatten), c.UsedUp 0 := by
  induction chunks generalizing rbuf with
  | nil => exact fun c hc => absurd hc List.not_mem_nil
  | cons cmds chunks ih =>
      intro c hc
      rw [List.map_cons, calls] at hc
      rcases List.mem_cons.mp hc with rfl | hc
      · exact usedUp_of_commands 0 cmds (hcmds cmds List.mem_cons_self) (bytes_readInto rbuf cmds.flatten)
          (Nat.zero_le _)
      · exact ih _ (fun cmds' hcmds' => hcmds cmds' (List.mem_cons_of_mem _ hcmds')) c hc

end Chunks

/-- Two commands in a chunk of their own each. -/
theorem asrSendCmd_forwards_twoCommands :
    Forwards (fun bytes => bytes.length) (fun _ => 0) [[5, 0, 0, 0, 1], [6, 0, 0, 0, 2, 3]]
        [[5, 0, 0, 0, 1], [6, 0, 0, 0, 2, 3]].flatten ∧
      Forwards (fun bytes => bytes.length) (fun _ => 0) [[[5, 0, 0, 0, 1], [6, 0, 0, 0, 2, 3]].flatten]
        [[5, 0, 0, 0, 1], [6, 0, 0, 0, 2, 3]].flatten :=
  (asrSendCmd_forwards_iff (fun _ => rfl) [[5, 0, 0, 0, 1], [6, 0, 0, 0, 2, 3]] (by decide) (fun _ => 0)
    [[5, 0, 0, 0, 1], [6, 0, 0, 0, 2, 3]] rfl).mpr
    (usedUp_calls_of_commands (fun _ => 0) [[[5, 0, 0, 0, 1]], [[6, 0, 0, 0, 2, 3]]] (by decide))

/-- A command that is cut is lost. -/
theorem not_asrSendCmd_forwards :
    ¬ ∀ (pollWrite : List UInt8 → Int) (cmds : List (List UInt8)) (rbuf : Nat → UInt8) (chunks : List (List UInt8)),
      Accepts pollWrite → (∀ cmd ∈ cmds, IsCommand cmd) → chunks.flatten = cmds.flatten →
        Forwards pollWrite rbuf chunks cmds.flatten := by
  intro h
  obtain ⟨n, hforward⟩ := h (fun bytes => bytes.length) [[8, 0, 0, 0, 1, 2, 3, 4]] (fun _ => 0)
    [[8, 0, 0, 0, 1], [2, 3, 4]] (fun _ => rfl) (by decide) rfl
  have hused := usedUp_of_forward n _ _ hforward rfl ⟨readInto (fun _ => 0) [8, 0, 0, 0, 1], 5⟩ List.mem_cons_self
  cases hused with
  | cmd hmore hpos hfits hrest => exact absurd hfits (by decide)

end AsrCmd

end QLog
