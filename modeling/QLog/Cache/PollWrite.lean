import QLog.Cache.Kfifo

/-! # The writer under the caches

`qlog_poll_write` of `main.c` writes a buffer to a descriptor: once at first, and then, if it has been given a timeout,
again whenever `poll` says that the descriptor takes more. Every step of the model is one system call, answered by the
environment, with what the function does up to the next one. What is put out are the calls, with the part of the buffer
that a `write` is given; which bytes the descriptor has taken follows from the calls and their answers. -/

namespace QLog.PollWrite

open Library

/-- `EAGAIN` -/
def eagain : Nat := 11

/-- `EINTR` -/
def eintr : Nat := 4

/-- The system call the function is in. -/
inductive Pc
  | firstWrite
  | polling
  | writing
  /-- `return (wc)` -/
  | returned
deriving DecidableEq

/-- The function between two system calls. -/
structure State where
  pc : Pc
  wc : Nat
deriving DecidableEq

/-- What a system call is answered with: the one that is made looks at its own part. -/
structure Answer where
  /-- what `write` returns, which is never more than it has been given -/
  nbytes : Int
  /-- what `poll` returns -/
  ret : Int
  /-- as it stands after the call, whoever has set it -/
  errno : Nat
  /-- `qlog_exit_requested != 0` -/
  exitRequested : Bool
  /-- `revents & (POLLERR | POLLHUP | POLLNVAL)` -/
  error : Bool
  /-- `revents & POLLOUT` -/
  pollout : Bool

/-- How many bytes a write of `len` bytes has taken. -/
def Answer.taken (a : Answer) (len : Nat) : Nat := min a.nbytes.toNat len

/-- A system call. -/
inductive Call
  /-- `write` of `size` bytes from `buf + off` on -/
  | write (off size : Nat)
  | poll
deriving DecidableEq

/-- The bytes that a descriptor takes in a call. -/
def Call.accepted (buf : List UInt8) (a : Answer) : Call → List UInt8
  | .write off size => window buf off (off + a.taken size)
  | .poll => []

/-- The bytes that a descriptor has taken, for the calls and what they were answered. -/
def accepted (buf : List UInt8) : List Call → List Answer → List UInt8
  | call :: calls, a :: answers => call.accepted buf a ++ accepted buf calls answers
  | _, _ => []

/-- A `poll` that has come to nothing, and is made again. -/
def Answer.idle (a : Answer) : Bool :=
  (a.ret == -1 && a.errno == eintr && !a.exitRequested) || (decide (0 < a.ret) && !a.error && !a.pollout)

/-- The state in front of the first write. -/
def start : State := ⟨.firstWrite, 0⟩

section Step

variable (buf : List UInt8) (timeoutMsec : Nat)

/-- `while (wc < size)` -/
def loop (wc : Nat) : State := ⟨if wc < buf.length then .polling else .returned, wc⟩

/-- `qlog_poll_write`: the system call the function is in is made, and returns. -/
def qlogPollWrite (s : State) (a : Answer) : State × List Call :=
  let nbytes := a.taken (buf.length - s.wc)
  match s.pc with
  | .firstWrite =>
      let call := Call.write s.wc (buf.length - s.wc)
      if nbytes = 0 ∧ a.errno ≠ eagain then (⟨.returned, s.wc⟩, [call])
      else if timeoutMsec = 0 then (⟨.returned, s.wc + nbytes⟩, [call])
      else (loop buf (s.wc + nbytes), [call])
  | .polling =>
      if a.ret = -1 ∧ a.errno = eintr ∧ a.exitRequested = false then (s, [.poll])
      else if a.ret ≤ 0 then (⟨.returned, s.wc⟩, [.poll])
      else if a.error then (⟨.returned, s.wc⟩, [.poll])
      else if a.pollout then (⟨.writing, s.wc⟩, [.poll])
      else (s, [.poll])
  | .writing =>
      let call := Call.write s.wc (buf.length - s.wc)
      -- `errno` is not looked at here: a descriptor that is not ready ends the call
      if nbytes = 0 then (⟨.returned, s.wc⟩, [call])
      else (loop buf (s.wc + nbytes), [call])
  | .returned => (s, [])

/-- A system call that ends the function before all is written: a write that takes nothing, a `poll` that fails or
times out, or an error event. -/
def Fails (s : State) (a : Answer) : Prop :=
  match s.pc with
  | .firstWrite | .writing => a.taken (buf.length - s.wc) = 0
  | .polling => a.ret ≤ 0 ∨ a.error = true
  | .returned => False

/-! ## One system call -/

/-- While the function waits, something is left to write. -/
structure Inv (s : State) : Prop where
  wc_le : s.wc ≤ buf.length
  start_eq : s.pc = .firstWrite → s.wc = 0
  waiting : s.pc = .polling ∨ s.pc = .writing → s.wc < buf.length

variable {buf timeoutMsec} {s : State} {a : Answer}

theorem inv_start (buf : List UInt8) : Inv buf start := ⟨Nat.zero_le _, fun _ => rfl, by simp [start]⟩

theorem inv_returned {wc : Nat} (h : wc ≤ buf.length) : Inv buf ⟨.returned, wc⟩ := ⟨h, by simp, by simp⟩

theorem inv_loop {wc : Nat} (h : wc ≤ buf.length) : Inv buf (loop buf wc) := by
  refine ⟨h, ?_, ?_⟩
  · rw [loop]
    split <;> simp
  · rw [loop]
    split
    · next hmore => exact fun _ => hmore
    · simp

theorem Answer.taken_le (a : Answer) {wc size : Nat} (h : wc ≤ size) : wc + a.taken (size - wc) ≤ size := by
  have htaken : a.taken (size - wc) ≤ size - wc := Nat.min_le_right _ _
  omega

/-- What one system call of the function can lead to. -/
inductive CallTo (buf : List UInt8) (timeoutMsec : Nat) (s : State) (a : Answer) : State × List Call → Prop
  /-- The function has returned before. -/
  | finished (hpc : s.pc = .returned) : CallTo buf timeoutMsec s a (s, [])
  /-- `poll` is called again. -/
  | again (hpc : s.pc = .polling) (hidle : a.idle = true) : CallTo buf timeoutMsec s a (s, [.poll])
  /-- The call ends the function. -/
  | failed (hfails : Fails buf s a) {call : Call} (hnone : call.accepted buf a = []) :
      CallTo buf timeoutMsec s a (⟨.returned, s.wc⟩, [call])
  | ready (hpc : s.pc = .polling) : CallTo buf timeoutMsec s a (⟨.writing, s.wc⟩, [.poll])
  /-- The only write there is without a timeout. -/
  | once (hpc : s.pc = .firstWrite) (htimeout : timeoutMsec = 0) :
      CallTo buf timeoutMsec s a (⟨.returned, s.wc + a.taken (buf.length - s.wc)⟩, [.write s.wc (buf.length - s.wc)])
  /-- A write behind which the function goes on. -/
  | wrote (hpc : s.pc = .firstWrite ∧ timeoutMsec ≠ 0 ∨ s.pc = .writing ∧ 0 < a.taken (buf.length - s.wc)) :
      CallTo buf timeoutMsec s a (loop buf (s.wc + a.taken (buf.length - s.wc)), [.write s.wc (buf.length - s.wc)])

/-- A write that takes nothing. -/
theorem accepted_of_taken {off size : Nat} (h : a.taken size = 0) : (Call.write off size).accepted buf a = [] := by
  rw [Call.accepted, h, Nat.add_zero, window_self]

theorem qlogPollWrite_to (buf : List UInt8) (timeoutMsec : Nat) (s : State) (a : Answer) :
    CallTo buf timeoutMsec s a (qlogPollWrite buf timeoutMsec s a) := by
  obtain ⟨pc, wc⟩ := s
  cases pc with
  | firstWrite =>
      simp only [qlogPollWrite]
      split_ifs with hnone htimeout
      · exact .failed (show Fails buf ⟨.firstWrite, wc⟩ a from hnone.1) (accepted_of_taken hnone.1)
      · exact .once rfl htimeout
      · exact .wrote (Or.inl ⟨rfl, htimeout⟩)
  | polling =>
      simp only [qlogPollWrite]
      split_ifs with hintr hret herror hout
      · exact .again rfl (by simp [Answer.idle, hintr])
      · exact .failed (show Fails buf ⟨.polling, wc⟩ a from Or.inl hret) rfl
      · exact .failed (show Fails buf ⟨.polling, wc⟩ a from Or.inr herror) rfl
      · exact .ready rfl
      · exact .again rfl (by simp [Answer.idle, herror, hout, Int.not_le.mp hret])
  | writing =>
      simp only [qlogPollWrite]
      split_ifs with hnone
      · exact .failed (show Fails buf ⟨.writing, wc⟩ a from hnone) (accepted_of_taken hnone)
      · exact .wrote (Or.inr ⟨rfl, Nat.pos_of_ne_zero hnone⟩)
  | returned => exact .finished rfl

/-- **One system call**: the descriptor takes what lies between the old count and the new one. Behind its return the
function makes no calls. -/
theorem qlogPollWrite_spec (timeoutMsec : Nat) (a : Answer) (hs : Inv buf s) :
    Inv buf (qlogPollWrite buf timeoutMsec s a).1 ∧ s.wc ≤ (qlogPollWrite buf timeoutMsec s a).1.wc ∧
      (s.pc = .returned ∧ qlogPollWrite buf timeoutMsec s a = (s, []) ∨
        ∃ call, (qlogPollWrite buf timeoutMsec s a).2 = [call] ∧
          call.accepted buf a = window buf s.wc (qlogPollWrite buf timeoutMsec s a).1.wc) := by
  have htaken := a.taken_le hs.wc_le
  have hsame : window buf s.wc s.wc = [] := window_self buf s.wc
  have hcall := qlogPollWrite_to buf timeoutMsec s a
  generalize qlogPollWrite buf timeoutMsec s a = r at hcall ⊢
  cases hcall with
  | finished hpc => exact ⟨hs, Nat.le_refl _, Or.inl ⟨hpc, rfl⟩⟩
  | again _ _ => exact ⟨hs, Nat.le_refl _, Or.inr ⟨.poll, rfl, hsame.symm⟩⟩
  | failed _ hnone => exact ⟨inv_returned hs.wc_le, Nat.le_refl _, Or.inr ⟨_, rfl, hnone.trans hsame.symm⟩⟩
  | ready hpc =>
      have hinv : Inv buf ⟨.writing, s.wc⟩ := ⟨hs.wc_le, by simp, fun _ => hs.waiting (Or.inl hpc)⟩
      exact ⟨hinv, Nat.le_refl _, Or.inr ⟨.poll, rfl, hsame.symm⟩⟩
  | once _ _ => exact ⟨inv_returned htaken, Nat.le_add_right _ _, Or.inr ⟨_, rfl, rfl⟩⟩
  | wrote _ => exact ⟨inv_loop htaken, Nat.le_add_right _ _, Or.inr ⟨_, rfl, rfl⟩⟩

/-- With a timeout, the function returns early only out of a call that has failed. -/
theorem fails_of_returned (htimeout : timeoutMsec ≠ 0) (hbefore : s.pc ≠ .returned)
    (hafter : (qlogPollWrite buf timeoutMsec s a).1.pc = .returned)
    (hshort : (qlogPollWrite buf timeoutMsec s a).1.wc < buf.length) : Fails buf s a := by
  have hcall := qlogPollWrite_to buf timeoutMsec s a
  generalize qlogPollWrite buf timeoutMsec s a = r at hcall hafter hshort
  cases hcall with
  | finished hpc => exact absurd hpc hbefore
  | again _ _ => exact absurd hafter hbefore
  | failed hfails _ => exact hfails
  | ready _ => cases hafter
  | once _ hzero => exact absurd hzero htimeout
  | wrote _ =>
      -- the loop is left with something to write
      simp only [loop] at hafter hshort
      rw [if_pos hshort] at hafter
      cases hafter

/-- The calls that may still be made, those that come to nothing apart. -/
def rank (buf : List UInt8) (s : State) : Nat :=
  match s.pc with
  | .firstWrite => 2 * buf.length + 2
  | .polling => 2 * (buf.length - s.wc) + 1
  | .writing => 2 * (buf.length - s.wc)
  | .returned => 0

theorem rank_loop_le (buf : List UInt8) (wc : Nat) : rank buf (loop buf wc) ≤ 2 * (buf.length - wc) + 1 := by
  rw [loop]
  split
  · exact Nat.le_refl _
  · exact Nat.zero_le _

theorem qlogPollWrite_rank (s : State) (a : Answer) (hs : Inv buf s) :
    Inv buf (qlogPollWrite buf timeoutMsec s a).1 ∧
      rank buf (qlogPollWrite buf timeoutMsec s a).1 ≤ rank buf s - (!a.idle).toNat := by
  refine ⟨(qlogPollWrite_spec timeoutMsec a hs).1, ?_⟩
  have htaken := a.taken_le hs.wc_le
  have hidle : (!a.idle).toNat ≤ 1 := Bool.toNat_le _
  have hcall := qlogPollWrite_to buf timeoutMsec s a
  generalize qlogPollWrite buf timeoutMsec s a = r at hcall ⊢
  cases hcall with
  | finished hpc => simp [rank, hpc]
  | again _ hsame =>
      rw [hsame]
      exact Nat.le_refl _
  | failed _ _ => exact Nat.zero_le _
  | ready hpc =>
      simp only [rank, hpc]
      omega
  | once _ _ => exact Nat.zero_le _
  | wrote hpc =>
      have hloop := rank_loop_le buf (s.wc + a.taken (buf.length - s.wc))
      rcases hpc with ⟨hpc, -⟩ | ⟨hpc, hsome⟩
      · simp only [rank, hpc] at hloop ⊢
        omega
      · simp only [rank, hpc] at hloop ⊢
        omega

/-- Without a timeout the function returns what its one write has taken, as the caches rely on. -/
theorem qlogPollWrite_no_timeout (buf : List UInt8) (a : Answer) :
    qlogPollWrite buf 0 start a = (⟨.returned, a.taken buf.length⟩, [.write 0 buf.length]) := by
  simp only [qlogPollWrite, start, Nat.sub_zero, Nat.zero_add, if_true]
  split
  · next hnone => rw [hnone.1]
  · rfl

end Step

/-! ## A whole call -/

variable {buf : List UInt8} {timeoutMsec : Nat}

/-- A function that has returned makes no calls. -/
theorem runSteps_returned (timeoutMsec : Nat) {s : State} (hpc : s.pc = .returned) (answers : List Answer) :
    runSteps (qlogPollWrite buf timeoutMsec) s answers = (s, []) := by
  have hstep : ∀ a, qlogPollWrite buf timeoutMsec s a = (s, []) := by
    intro a
    rw [qlogPollWrite, hpc]
  induction answers with
  | nil => rfl
  | cons a answers ih =>
      rw [runSteps_cons, hstep, ih]
      rfl

/-- In every run the descriptor has taken the part of the buffer up to the count. -/
theorem accepted_runSteps (timeoutMsec : Nat) (s : State) (answers : List Answer) (hs : Inv buf s) :
    Inv buf (runSteps (qlogPollWrite buf timeoutMsec) s answers).1 ∧
      s.wc ≤ (runSteps (qlogPollWrite buf timeoutMsec) s answers).1.wc ∧
      accepted buf (runSteps (qlogPollWrite buf timeoutMsec) s answers).2 answers =
        window buf s.wc (runSteps (qlogPollWrite buf timeoutMsec) s answers).1.wc := by
  -- Induction on the answers: what one call takes ends where the rest begins.
  induction answers generalizing s with
  | nil => exact ⟨hs, Nat.le_refl _, (window_self buf s.wc).symm⟩
  | cons a answers ih =>
      obtain ⟨hinv, hle, hout⟩ := qlogPollWrite_spec timeoutMsec a hs
      rcases hout with ⟨hpc, -⟩ | ⟨call, hcalls, htaken⟩
      · rw [runSteps_returned timeoutMsec hpc, window_self]
        exact ⟨hs, Nat.le_refl _, rfl⟩
      · obtain ⟨hend, hle', hout'⟩ := ih _ hinv
        rw [runSteps_cons, prepend_fst, prepend_snd, hcalls, List.singleton_append, accepted, htaken, hout',
          window_append buf hle hle']
        exact ⟨hend, Nat.le_trans hle hle', rfl⟩

/-- **A prefix of the buffer, exactly once.** Whatever `write` and `poll` answer, at every point of a call the
descriptor has taken the first `wc` bytes of the buffer in their order, and no more than there are; with a timeout, a
call returns less than the size only out of a write that took nothing, a `poll` that failed or timed out, or an error
event; and it has returned once it has had two answers for every byte and two more, not counting those of a `poll` that
is made again. -/
theorem qlogPollWrite_prefix (buf : List UInt8) (timeoutMsec : Nat) (answers : List Answer) :
    let run := runSteps (qlogPollWrite buf timeoutMsec) start
    (accepted buf (run answers).2 answers = buf.take (run answers).1.wc ∧ (run answers).1.wc ≤ buf.length) ∧
    (∀ front a, answers = front ++ [a] → (run front).1.pc ≠ .returned → (run answers).1.pc = .returned →
      timeoutMsec ≠ 0 → (run answers).1.wc < buf.length → Fails buf (run front).1 a) ∧
    (2 * buf.length + 2 ≤ answers.countP (fun a => !a.idle) → (run answers).1.pc = .returned) := by
  intro run
  obtain ⟨hinv, -, hout⟩ := accepted_runSteps timeoutMsec start answers (inv_start buf)
  refine ⟨⟨?_, hinv.wc_le⟩, ?_, ?_⟩
  · rw [← window_zero]
    exact hout
  · rintro front a rfl hbefore hafter htimeout hshort
    -- the last call is made in the state the others have led to
    have hlast : (run (front ++ [a])).1 = (qlogPollWrite buf timeoutMsec (run front).1 a).1 := by
      show (runSteps _ start (front ++ [a])).1 = _
      rw [runSteps_append, prepend_fst, runSteps_singleton]
    rw [hlast] at hafter hshort
    exact fails_of_returned htimeout hbefore hafter hshort
  · intro henough
    have hrank := (rank_runSteps_le (qlogPollWrite buf timeoutMsec) (rank buf) qlogPollWrite_rank start answers
      (inv_start buf)).2
    have hzero : rank buf (run answers).1 = 0 := by
      have hstart : rank buf start = 2 * buf.length + 2 := rfl
      exact Nat.eq_zero_of_le_zero (Nat.le_trans hrank (by omega))
    -- no other state has a rank of zero
    cases hpc : (run answers).1.pc with
    | returned => rfl
    | firstWrite => simp [rank, hpc] at hzero
    | polling => simp [rank, hpc] at hzero
    | writing =>
        have hmore : (run answers).1.wc < buf.length := hinv.waiting (Or.inr hpc)
        simp only [rank, hpc] at hzero
        omega

-- a descriptor that takes two bytes, is waited for, and takes the third
example : runSteps (qlogPollWrite [1, 2, 3] 100) start
    [⟨2, 0, 0, false, false, false⟩, ⟨0, 1, 0, false, false, true⟩, ⟨1, 0, 0, false, false, false⟩] =
      (⟨.returned, 3⟩, [.write 0 3, .poll, .write 2 1]) := by
  decide

end QLog.PollWrite
