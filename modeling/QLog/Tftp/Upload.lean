import QLog.Tftp.Transfer

/-! # What the server has in the end

`transferRun_uploaded` puts the invariant to use: the server has a front of the pipe's bytes all along, and all of them
in the end, in every run of the condition `Calm` and in no other. That a transfer comes to its end is a matter of
`remaining`, which every step lowers in which the thread gets on. -/

namespace QLog.Tftp

open Library

/-! ## The end of the transfer -/

/-- In `tftp_send_data_pkt`. -/
def Phase.trying : Phase → Bool
  | .sending _ => true
  | .final _ => true
  | _ => false

/-- The thread gets on: it reads from the pipe, or a try of `tftp_send_data_pkt` ends. -/
def TransferStep.works (s : Transfer) : TransferStep → Bool
  | .ready r => s.phase = .main && !r.acks && (r.pipeIn.isSome || r.hup)
  | .noAnswer => s.phase.trying
  | .answer _ => s.phase.trying
  | _ => false

/-- How often the thread gets on until the transfer has ended: at most once for every try of every block. -/
def remaining (s : Transfer) : Nat :=
  match s.phase with
  | .main => (tftpMaxRetry + 2) * s.pipe.unread.length + (tftpMaxRetry + 2)
  | .sending waitAck => (tftpMaxRetry + 2) * s.pipe.unread.length + (tftpMaxRetry + 3) + (tftpMaxRetry - waitAck)
  | .final waitAck => 1 + (tftpMaxRetry - waitAck)
  | .ended => 0
  | .aborted => 0

section End

variable {blockSize : Nat} {s : Transfer}

/-- Of a pipe that has been closed, the main loop reads a byte at least, or goes on to the last block. -/
theorem remaining_mainPipe (hmain : s.phase = .main) {pipeIn : Option Nat} {hup : Bool}
    (hread : ∀ n ∈ pipeIn, PipeRead blockSize s n) :
    remaining (mainPipe blockSize s pipeIn hup).1 + (pipeIn.isSome || hup).toNat ≤ remaining s := by
  -- in front of the last block at least its tries are left
  have hlast : remaining (sendData s (.final 0)).1 + 1 ≤ remaining s := by
    simp only [remaining, sendData, hmain, tftpMaxRetry]
    omega
  rcases pipeIn with _ | _ | n
  case some.zero => exact hlast
  case none =>
      cases hup with
      | true => exact hlast
      | false => exact Nat.le_refl _
  case some.succ =>
      obtain ⟨havail, -⟩ := hread (n + 1) rfl
      rw [Pipe.unread, List.length_drop] at havail
      -- every byte that is read takes the tries of a block with it
      rw [mainPipe]
      dsimp only
      split
      · simp only [remaining, sendData, hmain, tftpMaxRetry, Pipe.unread, List.length_drop, Option.isSome_some,
          Bool.true_or, Bool.toNat_true]
        omega
      · simp only [remaining, hmain, tftpMaxRetry, Pipe.unread, List.length_drop, Option.isSome_some,
          Bool.true_or, Bool.toNat_true]
        omega

theorem remaining_ready {r : Ready} (henv : EnvOk blockSize s (.ready r)) (hcalm : Calm s (.ready r)) :
    remaining (transferStep blockSize s (.ready r)).1 + (TransferStep.works s (.ready r)).toNat ≤ remaining s := by
  obtain ⟨-, hread, -⟩ := henv
  rw [transferStep, TransferStep.works]
  by_cases hmain : s.phase = .main
  · have hpipe : remaining (mainPipe blockSize s r.pipeIn r.hup).1 + (r.pipeIn.isSome || r.hup).toNat ≤
        remaining s := remaining_mainPipe hmain hread
    rw [if_pos hmain]
    cases hacks : r.acks with
    | true =>
        rw [mainReady_of_acks hacks (hcalm hmain)]
        simp
    | false =>
        rw [mainReady_of_not_acks hacks]
        simpa [hmain] using hpipe
  · simp [hmain]

theorem remaining_retry {phase : Nat → Phase} {waitAck : Nat} {needSend : Bool}
    (hagain : waitAck + 1 < tftpMaxRetry) :
    remaining (retry s phase waitAck needSend).1 = remaining { s with phase := phase (waitAck + 1) } := by
  rw [retry, if_pos hagain]
  split <;> rfl

theorem remaining_sendStep {p : Option Packet} (hpossible : ∀ q ∈ p, q.Possible s) (hmore : WithinRetries s p) :
    remaining (sendStep s p).1 + s.phase.trying.toNat ≤ remaining s := by
  rw [WithinRetries] at hmore
  cases hs : s.phase with
  | main => simp [sendStep, hs, Phase.trying]
  | ended => simp [sendStep, hs, Phase.trying]
  | aborted => simp [sendStep, hs, Phase.trying]
  | sending waitAck =>
      rw [hs] at hmore
      rw [sendStep, hs]
      dsimp only
      rcases sendPoll_cases hpossible hmore with ⟨hagain, needSend, hpoll⟩ | ⟨-, hpoll⟩
      · rw [hpoll, remaining_retry hagain]
        rw [tftpMaxRetry] at hagain
        simp only [remaining, hs, Phase.trying, tftpMaxRetry, Bool.toNat_true]
        omega
      · rw [hpoll]
        simp only [remaining, blockAcked, hs, Phase.trying, tftpMaxRetry, Bool.toNat_true]
        omega
  | final waitAck =>
      rw [hs] at hmore
      rw [sendStep, hs]
      dsimp only
      rcases sendPoll_cases hpossible hmore with ⟨hagain, needSend, hpoll⟩ | ⟨-, hpoll⟩
      · rw [hpoll, remaining_retry hagain]
        rw [tftpMaxRetry] at hagain
        simp only [remaining, hs, Phase.trying, tftpMaxRetry, Bool.toNat_true]
        omega
      · rw [hpoll]
        simp only [remaining, hs, Phase.trying, Bool.toNat_true]
        omega

theorem sendStep_pipe (p : Option Packet) : (sendStep s p).1.pipe = s.pipe := by
  have hpoll : ∀ (phase : Nat → Phase) waitAck acked, acked.pipe = s.pipe →
      (sendPoll s phase waitAck acked p).1.pipe = s.pipe := by
    intro phase waitAck acked hacked
    have hretry : ∀ needSend, (retry s phase waitAck needSend).1.pipe = s.pipe := by
      intro needSend
      rw [retry]
      split_ifs <;> rfl
    rcases p with _ | (block | _ | _)
    case none => exact hretry true
    case some.error => rfl
    case some.other => exact hretry true
    case some.ack =>
        rw [sendPoll]
        split_ifs
        · exact hacked
        · exact hretry false
  rw [sendStep]
  split
  · exact hpoll .sending _ _ rfl
  · exact hpoll .final _ _ rfl
  · rfl

/-- Only the writer closes the pipe, and nobody opens it again. -/
theorem closed_step (hclosed : s.pipe.closed = true) (step : TransferStep) :
    (transferStep blockSize s step).1.pipe.closed = true := by
  cases step with
  | write bytes => exact hclosed
  | close => rfl
  | deliver i =>
      rw [transferStep]
      split <;> exact hclosed
  | idle =>
      rw [transferStep, mainIdle]
      split_ifs <;> exact hclosed
  | ready r =>
      have hpipe : ∀ pipeIn hup, (mainPipe blockSize s pipeIn hup).1.pipe.closed = true := by
        intro pipeIn hup
        rcases pipeIn with _ | _ | n
        case some.zero => exact hclosed
        case some.succ =>
            rw [mainPipe]
            dsimp only
            split_ifs <;> exact hclosed
        case none =>
            rw [mainPipe]
            split_ifs <;> exact hclosed
      rw [transferStep, mainReady]
      split_ifs
      · split
        · split_ifs <;> exact hclosed
        · exact hpipe r.pipeIn r.hup
      · exact hclosed
  | noAnswer =>
      rw [transferStep, sendStep_pipe]
      exact hclosed
  | answer p =>
      rw [transferStep, sendStep_pipe]
      exact hclosed

/-- Once the writer has closed the pipe, no step takes the thread back, and those in which it gets on bring the end
nearer. -/
theorem remaining_step (hclosed : s.pipe.closed = true) {step : TransferStep} (henv : EnvOk blockSize s step)
    (hcalm : Calm s step) :
    remaining (transferStep blockSize s step).1 + (step.works s).toNat ≤ remaining s := by
  cases step with
  | write bytes => exact absurd henv.1 (by simp [hclosed])
  | close => exact Nat.le_refl _
  | deliver i =>
      rw [transferStep]
      split
      · exact Nat.le_refl _
      · exact Nat.le_refl _
  | idle => exact absurd henv.2 (by simp [hclosed])
  | ready r => exact remaining_ready henv hcalm
  | noAnswer => exact remaining_sendStep (by simp) henv
  | answer p =>
      refine remaining_sendStep (fun q hq => ?_) henv.2
      rw [← Option.mem_some_iff.mp hq]
      exact henv.1

end End

/-! ## The transfer -/

section Transfer

variable {blockSize : Nat} {full : List (List UInt8)} {s : Transfer} {steps : List TransferStep}

/-- The steps are within the limits, and calm. -/
def Within (blockSize : Nat) (s : Transfer) (step : TransferStep) : Prop := EnvOk blockSize s step ∧ Calm s step

theorem TransferInv.run (h : TransferInv blockSize full s) (hsize : 0 < blockSize)
    (hsteps : Along (transferStep blockSize) (Within blockSize) s steps) :
    ∃ full', TransferInv blockSize full' (runSteps (transferStep blockSize) s steps).1 := by
  have hkeep : ∀ s a, (∃ full, TransferInv blockSize full s) → Within blockSize s a →
      ∃ full, TransferInv blockSize full (transferStep blockSize s a).1 := by
    rintro s a ⟨full, h⟩ ⟨henv, hcalm⟩
    exact h.step hsize henv hcalm
  exact runSteps_invariant_along (transferStep blockSize) hkeep s steps ⟨full, h⟩ hsteps

theorem closed_run (hclosed : s.pipe.closed = true) (steps : List TransferStep) :
    (runSteps (transferStep blockSize) s steps).1.pipe.closed = true := by
  have hkeep : ∀ (s : Transfer) (a : TransferStep), s.pipe.closed = true →
      (transferStep blockSize s a).1.pipe.closed = true := fun _ a hs => closed_step hs a
  exact runSteps_invariant (transferStep blockSize) hkeep s steps hclosed

/-- Once the pipe is closed, the thread gets on at most `remaining` times. -/
theorem works_le_remaining (hclosed : s.pipe.closed = true)
    (hsteps : Along (transferStep blockSize) (Within blockSize) s steps) :
    remaining (runSteps (transferStep blockSize) s steps).1 +
      countAlong (transferStep blockSize) TransferStep.works s steps ≤ remaining s := by
  have hlower : ∀ s a, s.pipe.closed = true → Within blockSize s a →
      (transferStep blockSize s a).1.pipe.closed = true ∧
        remaining (transferStep blockSize s a).1 + (a.works s).toNat ≤ remaining s := by
    rintro s a hs ⟨henv, hcalm⟩
    exact ⟨closed_step hs a, remaining_step hs henv hcalm⟩
  exact countAlong_le (transferStep blockSize) hlower s steps hclosed hsteps

/-- A try ends when the ACK of the block in `tx_pkt` comes. -/
theorem EndsTry.withinRetries {p : Option Packet} (h : EndsTry s p) : WithinRetries s p := by
  rw [WithinRetries]
  split
  · exact Or.inl h
  · exact Or.inl h
  · trivial

/-- The server has the block in `tx_pkt` when it has come. -/
theorem InOrder.serverReceive_cur (h : InOrder blockSize full s) :
    Tftp.serverReceive blockSize s.blocks ⟨full.length + 1, s.cur⟩ = full ++ [s.cur] := by
  have hlt := h.txBlock_lt
  rcases h.blocks with hblocks | ⟨-, hblocks⟩
  · rw [hblocks, Tftp.serverReceive, if_pos]
    refine ⟨(Nat.mod_eq_of_lt hlt).symm, fun b hb => ?_⟩
    exact h.size b (List.mem_of_getLast? hb)
  · rw [hblocks, Tftp.serverReceive, if_neg]
    rintro ⟨hnext, -⟩
    rw [List.length_append, List.length_singleton] at hnext
    dsimp only at hnext
    omega

/-- The block in `tx_pkt` can reach the server, and its ACK the thread. -/
theorem InOrder.can_ack (h : InOrder blockSize full s) (htrying : s.phase.trying = true) (hold : s.phase.Sent) :
    ∃ more, Along (transferStep blockSize) (Within blockSize) s more ∧
      0 < countAlong (transferStep blockSize) TransferStep.works s more := by
  -- the network delivers the block once more, and its ACK comes at once
  obtain ⟨i, hi⟩ := List.mem_iff_getElem?.mp (h.sending hold)
  have hdeliver : (transferStep blockSize s (.deliver i)).1 = { s with blocks := full ++ [s.cur] } := by
    rw [transferStep, hi, ← h.serverReceive_cur]
  refine ⟨[.deliver i, .answer (.ack (s.txBlock % 2 ^ 16))], ⟨⟨trivial, trivial⟩, ?_⟩, ?_⟩
  · rw [hdeliver]
    refine ⟨⟨⟨⟨?_, ?_⟩, EndsTry.withinRetries rfl⟩, trivial⟩, trivial⟩
    · rw [h.txBlock_mod]
      exact Nat.le_add_left 1 full.length
    · show s.txBlock % 2 ^ 16 ≤ (full ++ [s.cur]).length
      rw [h.txBlock_mod, List.length_append]
      exact Nat.le_refl _
  · rw [countAlong, countAlong, countAlong, hdeliver]
    simp [TransferStep.works, htrying]

/-- As long as the transfer has not ended, the thread can get on. -/
theorem TransferInv.can_work (h : TransferInv blockSize full s) (hclosed : s.pipe.closed = true)
    (hrunning : s.phase ≠ .ended) :
    ∃ more, Along (transferStep blockSize) (Within blockSize) s more ∧
      0 < countAlong (transferStep blockSize) TransferStep.works s more := by
  have hphase := h.phase
  rw [PhaseInv] at hphase
  cases hs : s.phase with
  | ended => exact absurd hs hrunning
  | aborted =>
      rw [hs] at hphase
      exact hphase.elim
  | sending waitAck => exact h.can_ack (by rw [hs]; rfl) (by rw [hs]; trivial)
  | final waitAck => exact h.can_ack (by rw [hs]; rfl) (by rw [hs]; trivial)
  | main =>
      rw [hs] at hphase
      -- at the end of the pipe `read` returns 0, before it there is a byte
      have hread : ∃ n, PipeRead blockSize s n := by
        cases hunread : s.pipe.unread with
        | nil => exact ⟨0, hunread, hclosed⟩
        | cons b bs =>
            refine ⟨1, ?_, ?_⟩
            · rw [hunread]
              exact Nat.le_add_left 1 bs.length
            · exact Nat.le_sub_of_add_le' hphase.1
      obtain ⟨n, hn⟩ := hread
      refine ⟨[.ready ⟨none, some n, false⟩], ⟨⟨⟨by simp, fun m hm => ?_, by simp⟩, fun _ => by simp⟩, trivial⟩, ?_⟩
      · rw [← Option.mem_some_iff.mp hm]
        exact hn
      · simp [countAlong, TransferStep.works, Ready.acks, hs]

/-- Once the pipe is closed, the transfer can be brought to its end. -/
theorem TransferInv.can_end_closed (h : TransferInv blockSize full s) (hsize : 0 < blockSize)
    (hclosed : s.pipe.closed = true) :
    ∃ more, Along (transferStep blockSize) (Within blockSize) s more ∧
      (runSteps (transferStep blockSize) s more).1.phase = .ended := by
  -- every step in which the thread gets on lowers `remaining`
  induction hn : remaining s using Nat.strongRecOn generalizing s full with
  | _ n ih =>
      by_cases hended : s.phase = .ended
      · exact ⟨[], trivial, hended⟩
      · obtain ⟨more, hmore, hworks⟩ := h.can_work hclosed hended
        have hlower := works_le_remaining hclosed hmore
        obtain ⟨full', hinv⟩ := h.run hsize hmore
        obtain ⟨rest, hrest, hend⟩ := ih _ (by omega) hinv (closed_run hclosed more) rfl
        refine ⟨more ++ rest, (along_append _ s more rest).mpr ⟨hmore, hrest⟩, ?_⟩
        rw [runSteps_append]
        exact hend

/-- Every transfer can be brought to its end: the writer closes the pipe. -/
theorem TransferInv.can_end (h : TransferInv blockSize full s) (hsize : 0 < blockSize) :
    ∃ more, Along (transferStep blockSize) (Within blockSize) s more ∧
      (runSteps (transferStep blockSize) s more).1.phase = .ended := by
  obtain ⟨more, hmore, hended⟩ := h.close.can_end_closed hsize rfl
  exact ⟨.close :: more, ⟨⟨trivial, trivial⟩, hmore⟩, hended⟩

/-- A step that is not calm fails an assertion, or goes on to the last block before the writer has closed the pipe. -/
theorem calm_of_uploaded {step : TransferStep} (henv : EnvOk blockSize s step)
    (h : Uploaded blockSize (transferStep blockSize s step).1) : Calm s step := by
  cases step with
  | idle =>
      intro hmain
      by_contra hmany
      rw [transferStep, if_pos hmain, mainIdle, if_pos (Nat.lt_of_not_le hmany)] at h
      have hclosed : s.pipe.closed = true := h.closed trivial
      rw [henv.2] at hclosed
      exact Bool.false_ne_true hclosed
  | ready r =>
      intro hmain p hp
      cases p with
      | ack block =>
          by_contra hold
          have hrunning := h.running
          rw [transferStep, if_pos hmain, mainReady, Option.mem_def.mp hp] at hrunning
          dsimp only at hrunning
          rw [if_neg (Ne.symm hold)] at hrunning
          split_ifs at hrunning <;> exact hrunning rfl
      | error => trivial
      | other => trivial
  | _ => trivial

/-- **The upload is the pipe's bytes** all along a run within the limits if and only if at most thirteen pauses time
out and the main loop reads no ACK of a block before the last one acknowledged. Such a run can always be brought to its
end, and when the writer has closed the pipe, `remaining` bounds the steps in which the thread gets on. -/
theorem transferRun_uploaded (hsize : 0 < blockSize)
    (henv : Along (transferStep blockSize) (EnvOk blockSize) transferStart steps) :
    ((∀ front, front <+: steps → Uploaded blockSize (transferRun blockSize front)) ↔
        Along (transferStep blockSize) Calm transferStart steps) ∧
      (Along (transferStep blockSize) Calm transferStart steps →
        (∃ more, Along (transferStep blockSize) (EnvOk blockSize) transferStart (steps ++ more) ∧
          Along (transferStep blockSize) Calm transferStart (steps ++ more) ∧
          (transferRun blockSize (steps ++ more)).phase = .ended) ∧
        ∀ front back, steps = front ++ back → (transferRun blockSize front).pipe.closed = true →
          countAlong (transferStep blockSize) TransferStep.works (transferRun blockSize front) back ≤
            remaining (transferRun blockSize front)) := by
  have hall : Along (transferStep blockSize) Calm transferStart steps →
      Along (transferStep blockSize) (Within blockSize) transferStart steps := along_and _ _ _ henv
  refine ⟨⟨fun hupload => ?_, fun hcalm => ?_⟩, fun hcalm => ⟨?_, ?_⟩⟩
  · exact along_of_good (transferStep blockSize) (fun s a => calm_of_uploaded) transferStart steps henv hupload
  · rintro front ⟨back, rfl⟩
    obtain ⟨full, hinv⟩ := (transferInv_start hsize).run hsize ((along_append _ _ front back).mp (hall hcalm)).1
    exact hinv.uploaded
  · obtain ⟨full, hinv⟩ := (transferInv_start hsize).run hsize (hall hcalm)
    obtain ⟨more, hmore, hended⟩ := hinv.can_end hsize
    have hlong := (along_append (transferStep blockSize) transferStart steps more).mpr ⟨hall hcalm, hmore⟩
    refine ⟨more, along_mono _ (fun s a h => h.1) _ _ hlong, along_mono _ (fun s a h => h.2) _ _ hlong, ?_⟩
    rw [transferRun, runSteps_append]
    exact hended
  · rintro front back rfl hclosed
    have hback := ((along_append _ _ front back).mp (hall hcalm)).2
    exact Nat.le_of_add_left_le (works_le_remaining hclosed hback)

end Transfer

/-- Three bytes in blocks of two, with a lost ACK, a pause and an ACK that comes twice. -/
def threeBytes : List TransferStep :=
  [.write [1, 2], .ready ⟨none, some 2, false⟩, .deliver 0, .noAnswer, .deliver 1, .answer (.ack 1), .idle, .write [3],
    .close, .ready ⟨some (.ack 1), some 1, true⟩, .ready ⟨none, some 1, true⟩, .ready ⟨none, some 0, true⟩, .deliver 2,
    .answer (.ack 2)]

theorem transferRun_uploaded_threeBytes : (transferRun 2 threeBytes).phase = .ended ∧
    (transferRun 2 threeBytes).blocks = [[1, 2], [3]] ∧ Uploaded 2 (transferRun 2 threeBytes) := by
  refine ⟨by decide, by decide, ?_⟩
  have henv : Along (transferStep 2) (EnvOk 2) transferStart threeBytes := by decide
  exact (transferRun_uploaded (by decide) henv).1.mpr (by decide) threeBytes (List.prefix_refl _)

/-- The fourteenth pause of a writer that has not closed the pipe ends the transfer. -/
theorem not_transferRun_uploaded :
    ¬ ∀ (blockSize : Nat) (steps : List TransferStep), 0 < blockSize →
      Along (transferStep blockSize) (EnvOk blockSize) transferStart steps →
      Uploaded blockSize (transferRun blockSize steps) := by
  intro h
  have hpauses := h 8192 (List.replicate 14 .idle) (by decide) (by decide)
  have hclosed := hpauses.closed (show (Phase.final 0).Over from trivial)
  exact absurd hclosed (by decide)

/-- An ACK of the block before the last one fails the assertion: the first ACK of block 1 has come too late, and the
second one when block 2 had been acknowledged. -/
example :
    let steps : List TransferStep :=
      [.write [1, 2, 3, 4], .ready ⟨none, some 2, false⟩, .deliver 0, .noAnswer, .deliver 1, .answer (.ack 1),
        .ready ⟨none, some 2, false⟩, .deliver 2, .answer (.ack 2), .ready ⟨some (.ack 1), none, false⟩]
    Along (transferStep 2) (EnvOk 2) transferStart steps ∧ (transferRun 2 steps).phase = .aborted := by
  decide

end QLog.Tftp
