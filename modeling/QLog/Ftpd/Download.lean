import QLog.Ftpd.Upload
import QLog.Library.Rounds

/-! # Downloads

The loop of `RETR` subtracts what `sendfile` returns from what is left, and that is -1 where it fails. So a failure adds
a byte that will never be sent, and the loop has no end but `ABOR`. Between two calls the rate is limited, by a division
that a limit of zero does not survive, though zero is what the configuration calls no limit; and by a pause, in which
two alarms of the data connection end the session, for `data_process` is set before it only. -/

namespace QLog.Ftpd

open Library

/-- A round of the loop: what `sendfile` can send, unless it fails, whether the handler of `SIGURG` has run, and how
many alarms come until `sendfile` returns and behind that in `limit_rate`. -/
structure SendCall where
  result : Option Nat
  aborted : Bool
  alarms : Nat
  pauseAlarms : Nat
  deriving DecidableEq

/-- Whether the loop goes on, or is over, or the process has died or has been ended by an alarm. -/
inductive Progress where
  | sending
  | ended
  | died
  | timedOut
  deriving DecidableEq

/-- The variables of the loop, with what has been sent and the calls that were made. -/
structure Sending where
  progress : Progress
  bytesToSend : Int
  pos : Nat
  sent : List UInt8
  flag : Nat
  aborReceived : Bool
  dataProcess : Bool
  calls : List SendCall

/-- Before the loop, at the offset. -/
def sendStart (file : List UInt8) (offset : Nat) (aborReceived dataProcess : Bool) : Sending where
  progress := .sending
  bytesToSend := if file.length < offset then 0 else file.length - offset
  pos := offset
  sent := []
  flag := 0
  aborReceived := aborReceived
  dataProcess := dataProcess
  calls := []

/-- `num_this_time` -/
def numThisTime (bytesToSend : Int) : Nat := min bytesToSend.toNat (4 * 1024)

/-- What `sendfile` sends. -/
def sendfile (file : List UInt8) (pos count : Nat) (call : SendCall) : List UInt8 :=
  match call.result with
  | none => []
  | some n => (file.drop pos).take (min n count)

/-- What `sendfile` returns. -/
def sendfileRet (file : List UInt8) (pos count : Nat) (call : SendCall) : Int :=
  if call.result = none then -1 else (sendfile file pos count call).length

/-- `limit_rate` by `rateMax`, and the rest of the round. -/
def limitRate (file : List UInt8) (rateMax : Nat) (s s' : Sending) (call : SendCall) : Sending :=
  -- the rate is divided by the limit
  if rateMax = 0 then { s' with progress := .died }
  else
    -- `data_process` is set first
    match handleSiglarm true call.pauseAlarms with
    | none => { s' with progress := .timedOut }
    | some dataProcess =>
        if s.aborReceived || call.aborted then
          { s' with flag := 2, aborReceived := true, dataProcess := dataProcess, progress := .ended }
        else
          { s' with
            dataProcess := dataProcess
            bytesToSend := s.bytesToSend - sendfileRet file s.pos (numThisTime s.bytesToSend) call }

/-- One round of the loop of `do_retr`. -/
def sendRound (file : List UInt8) (rateMax : Nat) (s : Sending) (call : SendCall) : Sending :=
  match s.progress with
  | .sending =>
      if s.bytesToSend ≤ 0 then { s with progress := .ended }
      else
        let chunk := sendfile file s.pos (numThisTime s.bytesToSend) call
        let s' : Sending :=
          { s with
            pos := s.pos + chunk.length
            sent := s.sent ++ chunk
            flag := if call.result = none then 2 else s.flag
            calls := s.calls ++ [call] }
        match handleSiglarm s.dataProcess call.alarms with
        | none => { s' with progress := .timedOut }
        | some _ => limitRate file rateMax s s' call
  | _ => s

/-- The replies behind the loop, and `check_abor`. -/
def sendReplies (s : Sending) : List Reply :=
  let flag := if s.bytesToSend = 0 then 0 else s.flag
  (if flag = 0 ∧ s.aborReceived = false then [⟨226, textOf "Transfer complete."⟩]
    else if flag = 1 then [⟨451, textOf "Failure reading from local file."⟩]
    else if flag = 2 then [⟨426, textOf "Failure writting to network stream."⟩]
    else []) ++ if s.aborReceived then [⟨226, textOf "ABOR successful."⟩] else []

/-- What a download meets in front of its loop: the regular file at its path, if it can be opened and is there, and
`data_process`. -/
structure RetrEnv where
  transferFd : TransferFd
  file : Option (List UInt8)
  locked : Bool
  regular : Bool
  seeked : Bool
  dataProcess : Bool

/-- `do_retr`, up to its loop: the loop is entered with the file and the offset, or a reply refuses the request. -/
def doRetr (s : Session) (arg : List UInt8) (env : RetrEnv) : Session × List Reply × Option (List UInt8 × Nat) :=
  let refused (s : Session) (text : String) : Session × List Reply × Option (List UInt8 × Nat) :=
    (s, [⟨550, textOf text⟩], none)
  match env.transferFd with
  | .notChosen => (s, [⟨425, textOf "Use PORT or PASV first."⟩], none)
  | .failed => (s, [], none)
  | .connected =>
      let s' := { s with restartPos := 0, dataFd := true }
      match env.file with
      | none => refused s' "Open file failed."
      | some file =>
          if !env.locked || !env.regular then refused s' "Open file faild."
          else if s.restartPos ≠ 0 && !env.seeked then refused s' "Failed to open file."
          else (s', [⟨150, openingText s.isAscii arg file.length⟩], some (file, s.restartPos))

/-! ## The alarms -/

/-- `data_process` behind a round, unless an alarm has ended the process. -/
def SendCall.dataProcess (call : SendCall) (dataProcess : Bool) : Option Bool :=
  (handleSiglarm dataProcess call.alarms).bind fun _ => handleSiglarm true call.pauseAlarms

/-- `data_process` behind some rounds, unless an alarm has ended the process. -/
def dataProcessAfter (dataProcess : Bool) (calls : List SendCall) : Option Bool :=
  calls.foldlM (fun dataProcess call => call.dataProcess dataProcess) dataProcess

theorem dataProcessAfter_concat (dataProcess : Bool) (calls : List SendCall) (call : SendCall) :
    dataProcessAfter dataProcess (calls ++ [call]) = (dataProcessAfter dataProcess calls).bind call.dataProcess := by
  rw [dataProcessAfter, List.foldlM_append]
  refine congrArg (Option.bind _) (funext fun _ => ?_)
  exact bind_pure _

/-- What no alarm has ended was not ended before. -/
theorem dataProcessAfter_prefix {dataProcess : Bool} {calls front : List SendCall} (hfront : front <+: calls)
    (h : dataProcessAfter dataProcess calls ≠ none) : dataProcessAfter dataProcess front ≠ none := by
  obtain ⟨rest, rfl⟩ := hfront
  rw [dataProcessAfter, List.foldlM_append] at h
  intro hnone
  rw [dataProcessAfter] at hnone
  rw [hnone] at h
  exact h rfl

/-! ## The loop -/

section Loop

variable {file : List UInt8} {offset rateMax : Nat} {dataProcess : Bool} {s : Sending} {env : Nat → SendCall}

/-- What becomes of the loop in a round with a call. -/
inductive Progress.Next (file : List UInt8) (rateMax : Nat) (s : Sending) (call : SendCall) (s' : Sending) : Prop where
  | timedOut (hprogress : s'.progress = .timedOut) (habor : s'.aborReceived = s.aborReceived)
      (halarm : call.dataProcess s.dataProcess = none)
  | died (hprogress : s'.progress = .died) (habor : s'.aborReceived = s.aborReceived) (hrate : rateMax = 0)
  | aborted (hprogress : s'.progress = .ended) (habor : (s.aborReceived || call.aborted) = true) (hrate : rateMax ≠ 0)
  | sending (hprogress : s'.progress = .sending) (habor : s'.aborReceived = s.aborReceived) (hrate : rateMax ≠ 0)
      (halarm : call.dataProcess s.dataProcess = some s'.dataProcess)
      (hleft : s'.bytesToSend = s.bytesToSend - sendfileRet file s.pos (numThisTime s.bytesToSend) call)

/-- A round with a call of `sendfile`. -/
structure CallMade (file : List UInt8) (rateMax : Nat) (s : Sending) (call : SendCall) (s' : Sending) : Prop where
  pos : s'.pos = s.pos + (sendfile file s.pos (numThisTime s.bytesToSend) call).length
  sent : s'.sent = s.sent ++ sendfile file s.pos (numThisTime s.bytesToSend) call
  calls : s'.calls = s.calls ++ [call]
  flag : s'.flag = s.flag ∨ s'.flag = 2
  next : Progress.Next file rateMax s call s'

/-- A loop that is over stays as it is, or has nothing left, or makes a call. -/
theorem sendRound_cases (file : List UInt8) (rateMax : Nat) (s : Sending) (call : SendCall) :
    s.progress ≠ .sending ∧ sendRound file rateMax s call = s ∨
      s.progress = .sending ∧ s.bytesToSend ≤ 0 ∧ sendRound file rateMax s call = { s with progress := .ended } ∨
      s.progress = .sending ∧ 0 < s.bytesToSend ∧ CallMade file rateMax s call (sendRound file rateMax s call) := by
  rw [sendRound]
  cases hprogress : s.progress with
  | ended | died | timedOut => exact Or.inl ⟨Progress.noConfusion, rfl⟩
  | sending =>
      dsimp only
      by_cases hnone : s.bytesToSend ≤ 0
      · rw [if_pos hnone]
        exact Or.inr (Or.inl ⟨rfl, hnone, rfl⟩)
      rw [if_neg hnone]
      refine Or.inr (Or.inr ⟨rfl, not_le.mp hnone, ?_⟩)
      have hflag : (if call.result = none then 2 else s.flag) = s.flag ∨
          (if call.result = none then 2 else s.flag) = 2 := by
        split_ifs
        · exact Or.inr rfl
        · exact Or.inl rfl
      cases halarm : handleSiglarm s.dataProcess call.alarms with
      | none => exact ⟨rfl, rfl, rfl, hflag, .timedOut rfl rfl (by rw [SendCall.dataProcess, halarm, Option.bind_none])⟩
      | some _ =>
          dsimp only
          rw [limitRate]
          by_cases hrate : rateMax = 0
          · rw [if_pos hrate]
            exact ⟨rfl, rfl, rfl, hflag, .died rfl rfl hrate⟩
          rw [if_neg hrate]
          have hdata : call.dataProcess s.dataProcess = handleSiglarm true call.pauseAlarms := by
            rw [SendCall.dataProcess, halarm, Option.bind_some]
          cases hpause : handleSiglarm true call.pauseAlarms with
          | none => exact ⟨rfl, rfl, rfl, hflag, .timedOut rfl rfl (hdata.trans hpause)⟩
          | some dataProcess =>
              dsimp only
              by_cases haborted : (s.aborReceived || call.aborted) = true
              · rw [if_pos haborted]
                exact ⟨rfl, rfl, rfl, Or.inr rfl, .aborted rfl haborted hrate⟩
              · rw [if_neg haborted]
                exact ⟨rfl, rfl, rfl, hflag, .sending rfl rfl hrate (hdata.trans hpause) rfl⟩

/-- The calls that have failed. -/
def Sending.failures (s : Sending) : Nat := s.calls.countP fun call => call.result = none

/-- What holds unless the transfer is aborted: what has been sent is a front of what was asked for, every failure has
added a byte to what is left, and the alarms that have come are those of the calls. -/
structure Sending.Counted (file : List UInt8) (offset : Nat) (dataProcess : Bool) (s : Sending) : Prop where
  front : s.sent <+: file.drop offset
  pos : s.pos = offset + s.sent.length
  left : s.progress = .sending ∨ s.progress = .ended →
    s.bytesToSend = ((file.drop offset).length - s.sent.length : Nat) + (s.failures : Int)
  ended : s.progress = .ended → s.bytesToSend ≤ 0
  alarms : s.progress = .sending ∨ s.progress = .ended → dataProcessAfter dataProcess s.calls = some s.dataProcess
  timedOut : s.progress = .timedOut → dataProcessAfter dataProcess s.calls = none

theorem counted_sendStart (abor : Bool) : (sendStart file offset abor dataProcess).Counted file offset dataProcess where
  front := List.nil_prefix
  pos := rfl
  left := fun _ => by
    have hlen := List.length_drop (i := offset) (l := file)
    simp only [sendStart, Sending.failures, List.countP_nil, List.length_nil, Nat.sub_zero, hlen]
    split_ifs <;> omega
  ended := fun h => Progress.noConfusion h
  alarms := fun _ => rfl
  timedOut := fun h => Progress.noConfusion h

/-- What is sent goes on where the last call has stopped. -/
theorem front_sendfile (h : s.Counted file offset dataProcess) (count : Nat) (call : SendCall) :
    s.sent ++ sendfile file s.pos count call <+: file.drop offset := by
  obtain ⟨rest, hrest⟩ := h.front
  have hdrop : file.drop s.pos = rest := by
    rw [h.pos, ← List.drop_drop, ← hrest, List.drop_left]
  rw [sendfile]
  cases call.result with
  | none =>
      rw [List.append_nil]
      exact h.front
  | some n =>
      dsimp only
      rw [hdrop, ← hrest, List.prefix_append_right_inj]
      exact List.take_prefix _ _

/-- A call sends what it says, or adds a failure. -/
theorem left_sendfile (h : s.Counted file offset dataProcess) (hprogress : s.progress = .sending) (call : SendCall) :
    s.bytesToSend - sendfileRet file s.pos (numThisTime s.bytesToSend) call =
      ((file.drop offset).length - (s.sent ++ sendfile file s.pos (numThisTime s.bytesToSend) call).length : Nat) +
        ((s.calls ++ [call]).countP fun call => call.result = none : Int) := by
  have hlen := (front_sendfile h (numThisTime s.bytesToSend) call).length_le
  have hleft := h.left (Or.inl hprogress)
  rw [List.length_append] at hlen ⊢
  generalize (file.drop offset).length = total at hlen hleft ⊢
  simp only [Sending.failures, sendfileRet, List.countP_append, List.countP_singleton] at hleft ⊢
  cases hresult : call.result with
  | none =>
      have hchunk : sendfile file s.pos (numThisTime s.bytesToSend) call = [] := by rw [sendfile, hresult]
      rw [hchunk, List.length_nil] at hlen ⊢
      rw [decide_eq_true rfl, if_pos rfl, if_pos rfl]
      omega
  | some n =>
      rw [if_neg (Option.some_ne_none n), decide_eq_false (Option.some_ne_none n), if_neg Bool.false_ne_true]
      omega

theorem Sending.Counted.round (h : s.Counted file offset dataProcess) (habor : s.aborReceived = false)
    {call : SendCall} (hcall : call.aborted = false) :
    (sendRound file rateMax s call).Counted file offset dataProcess := by
  rcases sendRound_cases file rateMax s call with ⟨-, hsame⟩ | ⟨hprogress, hnone, hover⟩ | ⟨hprogress, -, hmade⟩
  · rw [hsame]
    exact h
  · rw [hover]
    exact ⟨h.front, h.pos, fun _ => h.left (Or.inl hprogress), fun _ => hnone, fun _ => h.alarms (Or.inl hprogress),
      fun hout => Progress.noConfusion hout⟩
  · have hfront := front_sendfile h (numThisTime s.bytesToSend) call
    have hpos : s.pos + (sendfile file s.pos (numThisTime s.bytesToSend) call).length
        = offset + (s.sent ++ sendfile file s.pos (numThisTime s.bytesToSend) call).length := by
      rw [h.pos, List.length_append, Nat.add_assoc]
    have hafter : dataProcessAfter dataProcess (s.calls ++ [call]) = call.dataProcess s.dataProcess := by
      rw [dataProcessAfter_concat, h.alarms (Or.inl hprogress), Option.bind_some]
    obtain ⟨hpos', hsent, hcalls, -, hnext⟩ := hmade
    rw [← hsent] at hfront hpos
    rw [← hcalls] at hafter
    generalize hround : sendRound file rateMax s call = s' at *
    rcases hnext with ⟨hnext, -, halarm⟩ | ⟨hnext, -, -⟩ | ⟨hnext, haborted, -⟩ | ⟨hnext, -, -, halarm, hleft⟩
    · refine ⟨hfront, hpos'.trans hpos, ?_, ?_, ?_, fun _ => hafter.trans halarm⟩
      all_goals
        rw [hnext]
        intro hother
        simp at hother
    · refine ⟨hfront, hpos'.trans hpos, ?_, ?_, ?_, ?_⟩
      all_goals
        rw [hnext]
        intro hother
        simp at hother
    · rw [habor, hcall] at haborted
      exact Bool.noConfusion haborted
    · refine ⟨hfront, hpos'.trans hpos, fun _ => ?_, ?_, fun _ => hafter.trans halarm, ?_⟩
      · rw [hleft, left_sendfile h hprogress call, ← hsent, Sending.failures, hcalls]
      all_goals
        rw [hnext]
        exact fun hother => Progress.noConfusion hother

theorem aborReceived_sendRound (file : List UInt8) (rateMax : Nat) (habor : s.aborReceived = false) {call : SendCall}
    (hcall : call.aborted = false) : (sendRound file rateMax s call).aborReceived = false := by
  rcases sendRound_cases file rateMax s call with ⟨-, hsame⟩ | ⟨-, -, hover⟩ | ⟨-, -, hmade⟩
  · rw [hsame, habor]
  · rw [hover]
    exact habor
  · rcases hmade.next with ⟨-, hkept, -⟩ | ⟨-, hkept, -⟩ | ⟨-, haborted, -⟩ | ⟨-, hkept, -, -, -⟩
    · rw [hkept, habor]
    · rw [hkept, habor]
    · rw [habor, hcall] at haborted
      exact Bool.noConfusion haborted
    · rw [hkept, habor]

/-- Without `ABOR` it is not aborted, and the count is kept. -/
theorem counted_afterRounds (file : List UInt8) (offset rateMax : Nat) (dataProcess : Bool)
    (hcalls : ∀ k, (env k).aborted = false) (n : Nat) :
    (afterRounds (sendRound file rateMax) env (sendStart file offset false dataProcess) n).aborReceived = false ∧
      (afterRounds (sendRound file rateMax) env (sendStart file offset false dataProcess) n).Counted file offset
        dataProcess := by
  induction n with
  | zero => exact ⟨rfl, counted_sendStart false⟩
  | succ n ih => exact ⟨aborReceived_sendRound file rateMax ih.1 (hcalls n), ih.2.round ih.1 (hcalls n)⟩

/-- A call that has been made stays among the calls. -/
theorem calls_sendRound_extend (s : Sending) (call : SendCall) :
    s.calls <+: (sendRound file rateMax s call).calls := by
  rcases sendRound_cases file rateMax s call with ⟨-, hsame⟩ | ⟨-, -, hover⟩ | ⟨-, -, hmade⟩
  · rw [hsame]
  · rw [hover]
  · rw [hmade.calls]
    exact List.prefix_append _ _

theorem calls_afterRounds_extend (s : Sending) (m k : Nat) :
    (afterRounds (sendRound file rateMax) env s m).calls <+:
      (afterRounds (sendRound file rateMax) env s (m + k)).calls := by
  induction k with
  | zero => exact List.prefix_refl _
  | succ k ih => exact ih.trans (calls_sendRound_extend _ _)

/-- When a loop that was not aborted is over, all has been sent, no call has failed, and no alarm has ended it. -/
theorem Sending.Counted.of_over (h : s.Counted file offset dataProcess) (hover : s.progress = .ended) :
    s.sent = file.drop offset ∧ s.bytesToSend = 0 ∧ (∀ call ∈ s.calls, call.result ≠ none) ∧
      dataProcessAfter dataProcess s.calls ≠ none := by
  have hleft := h.left (Or.inr hover)
  have hdone := h.ended hover
  have hfailures : s.failures = 0 := by omega
  refine ⟨h.front.eq_of_length_le (by omega), by omega, fun call hcall hnone => ?_, ?_⟩
  · rw [Sending.failures, List.countP_eq_zero] at hfailures
    exact hfailures call hcall (decide_eq_true hnone)
  · rw [h.alarms (Or.inr hover)]
    exact Option.some_ne_none _

/-- What is over stays as it is. -/
theorem afterRounds_of_stopped {n : Nat}
    (hstopped : (afterRounds (sendRound file rateMax) env s n).progress ≠ .sending) (k : Nat) :
    afterRounds (sendRound file rateMax) env s (n + k) = afterRounds (sendRound file rateMax) env s n := by
  refine afterRounds_same k fun i _ => ?_
  rcases sendRound_cases file rateMax (afterRounds (sendRound file rateMax) env s n)
    (env (n + i)) with ⟨-, hsame⟩ | ⟨hsending, -⟩ | ⟨hsending, -⟩
  · exact hsame
  · exact absurd hsending hstopped
  · exact absurd hsending hstopped

/-- With a limit the process does not die. -/
theorem progress_ne_died (file : List UInt8) (env : Nat → SendCall) (hrate : rateMax ≠ 0) (hs : s.progress ≠ .died)
    (n : Nat) : (afterRounds (sendRound file rateMax) env s n).progress ≠ .died := by
  induction n with
  | zero => exact hs
  | succ n ih =>
      rw [afterRounds_succ]
      rcases sendRound_cases file rateMax (afterRounds (sendRound file rateMax) env s n)
        (env n) with ⟨-, hsame⟩ | ⟨-, -, hover⟩ | ⟨-, -, hmade⟩
      · rwa [hsame]
      · rw [hover]
        exact Progress.noConfusion
      · rcases hmade.next with ⟨hnext, -, -⟩ | ⟨-, -, hzero⟩ | ⟨hnext, -, -⟩ | ⟨hnext, -, -, -, -⟩
        · rw [hnext]
          exact Progress.noConfusion
        · exact absurd hzero hrate
        · rw [hnext]
          exact Progress.noConfusion
        · rw [hnext]
          exact Progress.noConfusion

/-- A call that can send sends something as long as something is left. -/
theorem sendfileRet_pos {call : SendCall} (h : s.Counted file offset dataProcess) (hsending : s.progress = .sending)
    (hleft : 0 < s.bytesToSend) (hfailures : s.failures = 0) (hnot : call.result ≠ none)
    (hpos : ∀ n, call.result = some n → 0 < n) :
    0 < sendfileRet file s.pos (numThisTime s.bytesToSend) call := by
  obtain ⟨n, hn⟩ := Option.ne_none_iff_exists'.mp hnot
  have hn' := hpos n hn
  have hcount : 0 < numThisTime s.bytesToSend := by
    rw [numThisTime]
    omega
  have htotal := h.left (Or.inl hsending)
  have hmore : 0 < (file.drop s.pos).length := by
    rw [h.pos, ← List.drop_drop, List.length_drop]
    omega
  rw [sendfileRet, if_neg hnot, sendfile, hn]
  dsimp only
  rw [List.length_take]
  omega

/-- No call fails and no alarm ends the loop, in whatever round it is. -/
def Undisrupted (dataProcess : Bool) (calls : List SendCall) : Prop :=
  (∀ call ∈ calls, call.result ≠ none) ∧ dataProcessAfter dataProcess calls ≠ none

/-- A loop that nothing stops is over in the end. -/
theorem ends_of_undisrupted (hrate : rateMax ≠ 0) (hcalls : ∀ k, (env k).aborted = false)
    (hpos : ∀ k n, (env k).result = some n → 0 < n)
    (hgood : ∀ n, Undisrupted dataProcess
      (afterRounds (sendRound file rateMax) env (sendStart file offset false dataProcess) n).calls) :
    Ends (sendRound file rateMax) (fun s => s.progress = .ended) env (sendStart file offset false dataProcess) := by
  refine ends_of_falls (m := fun s => s.bytesToSend.toNat) 1 fun n hgoing => ?_
  obtain ⟨habor, hcounted⟩ := counted_afterRounds file offset rateMax dataProcess hcalls n
  have hcounted' := (counted_afterRounds file offset rateMax dataProcess hcalls (n + 1)).2
  have hdied := progress_ne_died file env hrate (s := sendStart file offset false dataProcess) Progress.noConfusion n
  have hhere := hgoing 0 (Nat.zero_le _)
  have hnext := hgoing 1 (Nat.le_refl _)
  have hgood' := hgood n
  have hmade := hgood (n + 1)
  rw [Nat.add_zero] at hhere
  rw [afterRounds_succ] at hnext hmade hcounted' ⊢
  generalize afterRounds (sendRound file rateMax) env (sendStart file offset false dataProcess) n = s at *
  rcases sendRound_cases file rateMax s (env n) with ⟨hstopped, -⟩ | ⟨-, -, hover⟩ | ⟨hsending, hleft, hcall⟩
  · cases hprogress : s.progress with
    | sending => exact absurd hprogress hstopped
    | ended => exact absurd hprogress hhere
    | died => exact absurd hprogress hdied
    | timedOut => exact absurd (hcounted.timedOut hprogress) hgood'.2
  · exact absurd (by rw [hover]) hnext
  · rcases hcall.next with ⟨hout, -, -⟩ | ⟨-, -, hzero⟩ | ⟨hover, -, -⟩ | ⟨-, -, -, -, hsent⟩
    · exact absurd (hcounted'.timedOut hout) hmade.2
    · exact absurd hzero hrate
    · exact absurd hover hnext
    · have hresults := hmade.1
      rw [hcall.calls] at hresults
      have hfailures : s.failures = 0 := by
        rw [Sending.failures, List.countP_eq_zero]
        intro call hmem hnone
        exact hresults call (List.mem_append_left _ hmem) (of_decide_eq_true hnone)
      have hret := sendfileRet_pos hcounted hsending hleft hfailures
        (hresults (env n) (List.mem_append_right _ (List.mem_singleton_self _))) (hpos n)
      rw [hsent]
      omega

/-- Without a limit the process dies or is ended in the first round, if there is anything to send. -/
theorem not_ended_of_no_limit (hmore : offset < file.length) (n : Nat) :
    (afterRounds (sendRound file 0) env (sendStart file offset false dataProcess) n).progress ≠ .ended := by
  have hgoing : ∀ n,
      (afterRounds (sendRound file 0) env (sendStart file offset false dataProcess) n).progress ≠ .ended ∧
      ((afterRounds (sendRound file 0) env (sendStart file offset false dataProcess) n).progress = .sending →
        0 < (afterRounds (sendRound file 0) env (sendStart file offset false dataProcess) n).bytesToSend) := by
    intro n
    induction n with
    | zero =>
        refine ⟨Progress.noConfusion, fun _ => ?_⟩
        rw [afterRounds_zero, sendStart, if_neg (Nat.not_lt.mpr hmore.le)]
        dsimp only
        omega
    | succ n ih =>
        rw [afterRounds_succ]
        generalize afterRounds (sendRound file 0) env (sendStart file offset false dataProcess) n = s at *
        rcases sendRound_cases file 0 s (env n) with ⟨-, hsame⟩ | ⟨hsending, hnone, -⟩ | ⟨-, -, hmade⟩
        · rw [hsame]
          exact ih
        · exact absurd (ih.2 hsending) (not_lt.mpr hnone)
        · rcases hmade.next with ⟨hnext, -, -⟩ | ⟨hnext, -, -⟩ | ⟨-, -, hrate⟩ | ⟨-, -, hrate, -, -⟩
          · rw [hnext]
            exact ⟨Progress.noConfusion, fun h => Progress.noConfusion h⟩
          · rw [hnext]
            exact ⟨Progress.noConfusion, fun h => Progress.noConfusion h⟩
          · exact absurd rfl hrate
          · exact absurd rfl hrate
  exact (hgoing n).1

end Loop

/-- **When a download ends** that is not aborted: exactly if there is a limit for its rate, or nothing to send, and no
call of `sendfile` fails, and no alarm comes where `data_process` has not been set since the last one. Then the client
has been sent the file from the offset on, and is told that it is complete. -/
theorem retr_ends_iff (file : List UInt8) (offset rateMax : Nat) (dataProcess : Bool) (env : Nat → SendCall)
    (hcalls : ∀ k, (env k).aborted = false) (hpos : ∀ k n, (env k).result = some n → 0 < n) :
    let s := afterRounds (sendRound file rateMax) env (sendStart file offset false dataProcess)
    (Ends (sendRound file rateMax) (fun s => s.progress = .ended) env (sendStart file offset false dataProcess) ↔
      (rateMax ≠ 0 ∨ file.length ≤ offset) ∧ ∀ n, Undisrupted dataProcess (s n).calls) ∧
    ∀ n, (s n).progress = .ended →
      (s n).sent = file.drop offset ∧ sendReplies (s n) = [⟨226, textOf "Transfer complete."⟩] := by
  intro s
  have hover : ∀ n, (s n).progress = .ended → (s n).sent = file.drop offset ∧ (s n).bytesToSend = 0 ∧
      Undisrupted dataProcess (s n).calls := fun n hn =>
    (counted_afterRounds file offset rateMax dataProcess hcalls n).2.of_over hn
  refine ⟨⟨?_, ?_⟩, fun n hn => ⟨(hover n hn).1, ?_⟩⟩
  · rintro ⟨N, hN⟩
    constructor
    · by_contra hnone
      rw [not_or, not_not, not_le] at hnone
      obtain ⟨rfl, hmore⟩ := hnone
      exact not_ended_of_no_limit hmore N hN
    -- the calls that are made are among those up to the end
    · intro n
      have hfront : (s n).calls <+: (s N).calls := by
        rcases Nat.le_total n N with hle | hle
        · obtain ⟨k, rfl⟩ := Nat.exists_eq_add_of_le hle
          exact calls_afterRounds_extend _ n k
        · obtain ⟨k, rfl⟩ := Nat.exists_eq_add_of_le hle
          have hstopped : (s N).progress ≠ .sending := by
            rw [hN]
            exact Progress.noConfusion
          have hsame : s (N + k) = s N := afterRounds_of_stopped hstopped k
          rw [hsame]
      obtain ⟨hresults, halarms⟩ := (hover N hN).2.2
      exact ⟨fun call hcall => hresults call (hfront.subset hcall), dataProcessAfter_prefix hfront halarms⟩
  · rintro ⟨hlimit, hgood⟩
    by_cases hmore : file.length ≤ offset
    · refine ⟨1, ?_⟩
      rw [afterRounds_succ, afterRounds_zero, sendRound, sendStart]
      dsimp only
      rw [if_pos]
      split_ifs <;> omega
    · exact ends_of_undisrupted (hlimit.resolve_right hmore) hcalls hpos hgood
  · have habor : (s n).aborReceived = false := (counted_afterRounds file offset rateMax dataProcess hcalls n).1
    rw [sendReplies]
    simp [(hover n hn).2.1, habor]

/-- A call that sends two bytes, and a pause in which one alarm comes. -/
def twoSent : SendCall := ⟨some 2, false, 0, 1⟩

/-- Calls that are all the same are undisrupted, if one is. -/
theorem undisrupted_twoSent (dataProcess : Bool) (calls : List SendCall) (h : ∀ call ∈ calls, call = twoSent) :
    Undisrupted dataProcess calls := by
  refine ⟨fun call hcall => by rw [h call hcall]; exact Option.some_ne_none 2, ?_⟩
  induction calls generalizing dataProcess with
  | nil => exact Option.some_ne_none dataProcess
  | cons call calls ih =>
      obtain ⟨rfl, hrest⟩ := List.forall_mem_cons.mp h
      exact ih false hrest

/-- Two calls send three bytes, with a limit, though an alarm comes in each pause. -/
theorem retr_ends_iff_threeBytes :
    Ends (sendRound [1, 2, 3] 9) (fun s => s.progress = .ended) (fun _ => twoSent)
      (sendStart [1, 2, 3] 0 false false) := by
  have hcalls : ∀ n, ∀ call ∈ (afterRounds (sendRound [1, 2, 3] 9) (fun _ => twoSent)
      (sendStart [1, 2, 3] 0 false false) n).calls, call = twoSent := by
    intro n
    induction n with
    | zero => exact fun call hcall => absurd hcall List.not_mem_nil
    | succ n ih =>
        intro call hcall
        rw [afterRounds_succ] at hcall
        rcases sendRound_cases [1, 2, 3] 9 (afterRounds (sendRound [1, 2, 3] 9)
          (fun _ => twoSent) (sendStart [1, 2, 3] 0 false false) n) twoSent
          with ⟨-, hsame⟩ | ⟨-, -, hover⟩ | ⟨-, -, hmade⟩
        · exact ih call (by rwa [hsame] at hcall)
        · exact ih call (by rwa [hover] at hcall)
        · rw [hmade.calls] at hcall
          rcases List.mem_append.mp hcall with hcall | hcall
          · exact ih call hcall
          · exact List.mem_singleton.mp hcall
  exact (retr_ends_iff [1, 2, 3] 0 9 false (fun _ => twoSent) (fun _ => rfl)
    (fun _ n h => by obtain rfl := Option.some_inj.mp h; decide)).1.mpr
      ⟨Or.inl (by decide), fun n => undisrupted_twoSent false _ (hcalls n)⟩

/-- Two alarms in a pause end the session, though no call fails. -/
example :
    (afterRounds (sendRound [1, 2, 3] 1) (fun _ => ⟨some 2, false, 0, 2⟩)
      (sendStart [1, 2, 3] 0 false false) 1).progress = .timedOut := by decide

end QLog.Ftpd
