import QLog.Eigen.Dump
import QLog.Library.Rounds

/-! # When a cell is given up

A round of the loop of `GetDumpDataUsb` sends a request and waits for its answer. It may end without a block in several
ways, but only an answer whose check sum does not match is counted: `nReadTime` stays as it is where the request cannot
be sent, or nothing or a part of the answer only comes. A device that has gone silent is asked for ever. -/

namespace QLog.Eigen

open Library

/-- What `GetDumpDataUsb` meets in a round: the results of the tries to send, and of the reads. -/
structure BlockRound where
  sentRequest : Nat → Bool
  sentCell : Nat → Bool
  sentFcs : Nat → Bool
  reads : Nat → List UInt8

/-- `for (nRetry = 0; nRetry < MAX_RETRY_TIME; ++nRetry)` around `SendRamDumpAck`: the last `err_code` is `UE_OK`. -/
def sendRetries (sent : Nat → Bool) : Bool := (List.range maxRetryTime).any sent

/-- The `err_code` behind several sends is that of the last one. -/
def sendAll (sends : List (Nat → Bool)) : Bool := sends.foldl (fun _ sent => sendRetries sent) false

/-- The receive loop, with as many reads as `fuel` says at most. -/
def receiveLoop : Nat → (Nat → List UInt8) → Dumping → Dumping
  | 0, _, d => d
  | fuel + 1, reads, d =>
      let d := receive d (reads 0)
      if Leaves d (reads 0) then d else receiveLoop fuel (fun i => reads (i + 1)) d

/-- A read brings a byte, or is one of the `MAX_RETRY_TIME / 4` that bring nothing. -/
def receiveFuel (d : Dumping) : Nat := (d.newReadData.readLen + 12 - d.nPktIndex) + (maxRetryTime / 4 - d.nRetry)

/-- A round as it sends its request. -/
def requesting (d : Dumping) : Dumping :=
  { d with data := getDataReq d.uSeq d.newReadData, nPktIndex := 0, nRetry := 0, ok := true }

/-- A round whose request has been sent, when it no longer waits. -/
def waited (d : Dumping) (r : BlockRound) : Dumping :=
  receiveLoop (receiveFuel (requesting d)) r.reads (requesting d)

/-- The ways in which a round ends. -/
inductive BlockOutcome
  | sendFailed
  /-- Nothing, or a part of an answer. -/
  | noAnswer
  | badFcs
  | block (length : Nat)
deriving DecidableEq

/-- How a round ends. -/
def blockOutcome (d : Dumping) (r : BlockRound) : BlockOutcome :=
  if sendAll [r.sentRequest, r.sentCell, r.sentFcs] = false then .sendFailed
  else if (waited d r).ok = false ∨ maxRetryTime / 4 ≤ (waited d r).nRetry then .noAnswer
  else if FcsMatches (waited d r).message then .block (rspLength (waited d r).message)
  else .badFcs

/-- A round of the loop. -/
def blockRound (d : Dumping) (r : BlockRound) : Dumping :=
  match blockOutcome d r with
  -- `continue`, and the next round sends the same request
  | .sendFailed => { requesting d with ok := false }
  | .noAnswer => waited d r
  | .badFcs => { waited d r with nReadTime := (waited d r).nReadTime + 1 }
  | .block _ => accepted (waited d r)

/-- The condition of the loop fails. -/
def BlocksOver (d : Dumping) : Prop :=
  ¬ (d.nReadLen < d.cell.readLen ∧ 0 < d.cell.readLen ∧ d.nReadTime < maxRetryTime / 2)

/-- What `GetDumpDataUsb` returns behind the loop: `-1`, `UE_OK` or the `err_code` of the finish command. -/
def getDumpDataRet (bFinish : Bool) (finishSends : List (Nat → Bool)) (d : Dumping) : Int :=
  if maxRetryTime / 2 ≤ d.nReadTime then -1
  else if bFinish then (if sendAll finishSends then 2 else 0)
  else 2

/-- The loop after `n` rounds. -/
def blocksAfter (c : ReadDataReqCell) (rounds : Nat → BlockRound) (n : Nat) : Dumping :=
  afterRounds blockRound rounds (firstRequest c []) n

/-- Round `n` takes place. -/
def Performed (c : ReadDataReqCell) (rounds : Nat → BlockRound) (n : Nat) : Prop :=
  ∀ k ≤ n, ¬ BlocksOver (blocksAfter c rounds k)

/-- How round `n` ends. -/
def outcomeAt (c : ReadDataReqCell) (rounds : Nat → BlockRound) (n : Nat) : BlockOutcome :=
  blockOutcome (blocksAfter c rounds n) (rounds n)

/-- The rounds from `n` on, `MAX_RETRY_TIME / 2` of them, take place and bring no block. -/
def Barren (c : ReadDataReqCell) (rounds : Nat → BlockRound) (n : Nat) : Prop :=
  ∀ i < maxRetryTime / 2, Performed c rounds (n + i) ∧ ∀ length, outcomeAt c rounds (n + i) ≠ .block length

/-- **The reader gives up** after `MAX_RETRY_TIME / 2` rounds without a block, and it always ends. -/
structure GivesUp (c : ReadDataReqCell) (bFinish : Bool) (finishSends : List (Nat → Bool))
    (rounds : Nat → BlockRound) : Prop where
  stops : ∀ n, Barren c rounds n →
    BlocksOver (blocksAfter c rounds (n + maxRetryTime / 2)) ∧
      getDumpDataRet bFinish finishSends (blocksAfter c rounds (n + maxRetryTime / 2)) = -1
  ends : Ends blockRound BlocksOver rounds (firstRequest c [])

/-- In `MAX_RETRY_TIME / 2` rounds without a block all answers come, with check sums that do not match; and blocks that
take `nReadLen` past 32 bits come to an end. -/
structure Counted (c : ReadDataReqCell) (rounds : Nat → BlockRound) : Prop where
  badFcs : ∀ n, Barren c rounds n → ∀ i < maxRetryTime / 2, outcomeAt c rounds (n + i) = .badFcs
  fits : ∃ N, ∀ n ≥ N, Performed c rounds n → ∀ length, outcomeAt c rounds n = .block length →
    (blocksAfter c rounds n).nReadLen + length < 2 ^ 32

/-! ## Receiving -/

section Receive

variable {d : Dumping} {r : BlockRound}

@[simp] theorem receive_cell (d : Dumping) (chunk : List UInt8) : (receive d chunk).cell = d.cell := by
  rw [receive]
  split <;> rfl

@[simp] theorem receive_nReadLen (d : Dumping) (chunk : List UInt8) : (receive d chunk).nReadLen = d.nReadLen := by
  rw [receive]
  split <;> rfl

@[simp] theorem receive_nReadTime (d : Dumping) (chunk : List UInt8) : (receive d chunk).nReadTime = d.nReadTime := by
  rw [receive]
  split <;> rfl

@[simp] theorem receive_newReadData (d : Dumping) (chunk : List UInt8) :
    (receive d chunk).newReadData = d.newReadData := by
  rw [receive]
  split <;> rfl

/-- The counters of the outer loop are left alone. -/
theorem receiveLoop_frame (fuel : Nat) (reads : Nat → List UInt8) (d : Dumping) :
    (receiveLoop fuel reads d).cell = d.cell ∧ (receiveLoop fuel reads d).nReadLen = d.nReadLen ∧
      (receiveLoop fuel reads d).nReadTime = d.nReadTime := by
  induction fuel generalizing reads d with
  | zero => exact ⟨rfl, rfl, rfl⟩
  | succ fuel ih =>
      rw [receiveLoop]
      split
      · simp
      · simpa using ih (fun i => reads (i + 1)) (receive d (reads 0))

/-- A read that the loop goes on behind makes the number of those to come smaller. -/
theorem receiveFuel_receive {chunk : List UInt8} (hstay : ¬ Leaves (receive d chunk) chunk) :
    0 < receiveFuel (receive d chunk) ∧ receiveFuel (receive d chunk) < receiveFuel d := by
  have hgoing := not_not.mp (not_or.mp hstay).2
  rw [receive_newReadData] at hgoing
  rw [receiveFuel, receiveFuel, receive_newReadData]
  refine ⟨by omega, ?_⟩
  by_cases hchunk : chunk = []
  · simp only [receive, if_pos hchunk] at hgoing ⊢
    omega
  · have hpos := List.length_pos_iff.mpr hchunk
    simp only [receive, if_neg hchunk] at hgoing ⊢
    omega

/-- The round, read by read: the reads that the receive loop takes lead to the check of the answer or to the next
request. -/
theorem runSteps_receiveLoop (fuel : Nat) (reads : Nat → List UInt8) (hfuel : receiveFuel d ≤ fuel)
    (hpos : 0 < fuel) :
    ∃ n, runSteps dumpStep (.run d) ((List.range n).map reads) =
      if (receiveLoop fuel reads d).ok = false ∨ maxRetryTime / 4 ≤ (receiveLoop fuel reads d).nRetry then
        nextRequest (receiveLoop fuel reads d)
      else checkAnswer (receiveLoop fuel reads d) := by
  induction fuel generalizing reads d with
  | zero => exact absurd hpos (Nat.lt_irrefl 0)
  | succ fuel ih =>
      rw [receiveLoop]
      by_cases hleaves : Leaves (receive d (reads 0)) (reads 0)
      · refine ⟨1, ?_⟩
        rw [if_pos hleaves]
        show runSteps dumpStep (.run d) [reads 0] = _
        rw [runSteps_singleton, dumpStep, if_pos hleaves]
      · obtain ⟨hleft, hless⟩ := receiveFuel_receive hleaves
        obtain ⟨n, hn⟩ := ih (d := receive d (reads 0)) (fun i => reads (i + 1)) (by omega) (by omega)
        refine ⟨n + 1, ?_⟩
        rw [if_neg hleaves, List.range_succ_eq_map, List.map_cons, List.map_map, runSteps_cons, dumpStep,
          if_neg hleaves]
        exact hn

end Receive

/-! ## The rounds -/

section Rounds

variable {c : ReadDataReqCell} {rounds : Nat → BlockRound} {n : Nat}

/-- The length of a block is the one that its answer announces. -/
theorem rspLength_of_block {d : Dumping} {r : BlockRound} {length : Nat} (h : blockOutcome d r = .block length) :
    rspLength (waited d r).message = length := by
  rw [blockOutcome] at h
  split at h
  · cases h
  · split at h
    · cases h
    · split at h
      · exact BlockOutcome.block.inj h
      · cases h

/-- What a round does to the counters of the loop. -/
theorem blockRound_counters (d : Dumping) (r : BlockRound) :
    (blockRound d r).cell = d.cell ∧
      match blockOutcome d r with
      | .block length => (blockRound d r).nReadLen = (d.nReadLen + length) % 2 ^ 32 ∧ (blockRound d r).nReadTime = 0
      | .badFcs => (blockRound d r).nReadLen = d.nReadLen ∧ (blockRound d r).nReadTime = d.nReadTime + 1
      | _ => (blockRound d r).nReadLen = d.nReadLen ∧ (blockRound d r).nReadTime = d.nReadTime := by
  obtain ⟨hcell, hlen, htime⟩ : (waited d r).cell = d.cell ∧ (waited d r).nReadLen = d.nReadLen ∧
      (waited d r).nReadTime = d.nReadTime :=
    receiveLoop_frame (receiveFuel (requesting d)) r.reads (requesting d)
  rw [blockRound]
  cases houtcome : blockOutcome d r with
  | sendFailed => exact ⟨rfl, rfl, rfl⟩
  | noAnswer => exact ⟨hcell, hlen, htime⟩
  | badFcs => exact ⟨hcell, hlen, congrArg (· + 1) htime⟩
  | block length =>
      refine ⟨hcell, ?_, rfl⟩
      rw [← rspLength_of_block houtcome, ← hlen]
      rfl

theorem blocksAfter_succ (c : ReadDataReqCell) (rounds : Nat → BlockRound) (n : Nat) :
    blocksAfter c rounds (n + 1) = blockRound (blocksAfter c rounds n) (rounds n) := rfl

theorem blocksAfter_cell (c : ReadDataReqCell) (rounds : Nat → BlockRound) (n : Nat) :
    (blocksAfter c rounds n).cell = c := by
  induction n with
  | zero => rfl
  | succ n ih => rw [blocksAfter_succ, (blockRound_counters _ _).1, ih]

theorem Performed.le (h : Performed c rounds n) {m : Nat} (hm : m ≤ n) : Performed c rounds m :=
  fun k hk => h k (hk.trans hm)

/-- A round that brings a block starts the count afresh. -/
theorem nReadTime_block {length : Nat} (h : outcomeAt c rounds n = .block length) :
    (blocksAfter c rounds (n + 1)).nReadLen = ((blocksAfter c rounds n).nReadLen + length) % 2 ^ 32 ∧
      (blocksAfter c rounds (n + 1)).nReadTime = 0 := by
  have hcounters := (blockRound_counters (blocksAfter c rounds n) (rounds n)).2
  rw [outcomeAt] at h
  rw [h] at hcounters
  exact hcounters

/-- Any other round counts at most once, and only for a check sum that does not match. -/
theorem nReadTime_noBlock (h : ∀ length, outcomeAt c rounds n ≠ .block length) :
    (blocksAfter c rounds (n + 1)).nReadLen = (blocksAfter c rounds n).nReadLen ∧
      (outcomeAt c rounds n = .badFcs ∧
          (blocksAfter c rounds (n + 1)).nReadTime = (blocksAfter c rounds n).nReadTime + 1 ∨
        outcomeAt c rounds n ≠ .badFcs ∧
          (blocksAfter c rounds (n + 1)).nReadTime = (blocksAfter c rounds n).nReadTime) := by
  have hcounters := (blockRound_counters (blocksAfter c rounds n) (rounds n)).2
  rw [outcomeAt] at h ⊢
  rw [blocksAfter_succ]
  cases houtcome : blockOutcome (blocksAfter c rounds n) (rounds n) with
  | block length => exact absurd houtcome (h length)
  | badFcs =>
      rw [houtcome] at hcounters
      exact ⟨hcounters.1, Or.inl ⟨rfl, hcounters.2⟩⟩
  | sendFailed =>
      rw [houtcome] at hcounters
      exact ⟨hcounters.1, Or.inr ⟨BlockOutcome.noConfusion, hcounters.2⟩⟩
  | noAnswer =>
      rw [houtcome] at hcounters
      exact ⟨hcounters.1, Or.inr ⟨BlockOutcome.noConfusion, hcounters.2⟩⟩

/-- What `k` rounds without a block count: all of them only if every check sum is bad. -/
theorem nReadTime_noBlocks (k : Nat) (h : ∀ i < k, ∀ length, outcomeAt c rounds (n + i) ≠ .block length) :
    (blocksAfter c rounds (n + k)).nReadLen = (blocksAfter c rounds n).nReadLen ∧
      (blocksAfter c rounds (n + k)).nReadTime ≤ (blocksAfter c rounds n).nReadTime + k ∧
      ((blocksAfter c rounds n).nReadTime + k ≤ (blocksAfter c rounds (n + k)).nReadTime ↔
        ∀ i < k, outcomeAt c rounds (n + i) = .badFcs) := by
  induction k with
  | zero => exact ⟨rfl, Nat.le_refl _, fun _ i hi => absurd hi (Nat.not_lt_zero i), fun _ => Nat.le_refl _⟩
  | succ k ih =>
      obtain ⟨hlen, hle, hiff⟩ := ih fun i hi => h i (Nat.lt_succ_of_lt hi)
      obtain ⟨hlen', hstep⟩ := nReadTime_noBlock (h k (Nat.lt_succ_self k))
      rw [← Nat.add_assoc, ← Nat.add_assoc]
      refine ⟨hlen'.trans hlen, by omega, ?_⟩
      rw [Nat.forall_lt_succ_right, ← hiff]
      rcases hstep with ⟨hbad, htime⟩ | ⟨hbad, htime⟩
      · simp only [hbad, and_true]
        omega
      · simp only [hbad, and_false, iff_false]
        omega

/-- Rounds without a block that the loop performs to their end begin with a count of zero, where no shorter ones end
the loop. -/
theorem nReadTime_barren (hstops : ∀ m, Barren c rounds m → BlocksOver (blocksAfter c rounds (m + maxRetryTime / 2)))
    (hbarren : Barren c rounds n) : (blocksAfter c rounds n).nReadTime = 0 := by
  cases n with
  | zero => rfl
  | succ n =>
      by_contra hcount
      have hnone : ∀ length, outcomeAt c rounds n ≠ .block length := fun length hblock =>
        hcount (nReadTime_block hblock).2
      -- one round earlier there are as many, and the loop goes on behind them
      have hearlier : Barren c rounds n := by
        intro i hi
        cases i with
        | zero => exact ⟨(hbarren 0 hi).1.le (Nat.le_succ n), hnone⟩
        | succ i =>
            have hnext := hbarren i (Nat.lt_of_succ_lt hi)
            rwa [Nat.add_right_comm] at hnext
      have hlast := (hbarren (maxRetryTime / 2 - 1) (by decide)).1
      exact hlast (n + maxRetryTime / 2) (Nat.le_of_eq (by rw [maxRetryTime])) (hstops n hearlier)

/-- A round that does not take `nReadLen` past 32 bits never makes it smaller, and a block makes it larger. -/
theorem nReadLen_step (hblock : outcomeAt c rounds n ≠ .block 0)
    (hfits : ∀ length, outcomeAt c rounds n = .block length → (blocksAfter c rounds n).nReadLen + length < 2 ^ 32) :
    (blocksAfter c rounds n).nReadLen ≤ (blocksAfter c rounds (n + 1)).nReadLen ∧
      ((∃ length, outcomeAt c rounds n = .block length) →
        (blocksAfter c rounds n).nReadLen < (blocksAfter c rounds (n + 1)).nReadLen) := by
  by_cases hsome : ∃ length, outcomeAt c rounds n = .block length
  · obtain ⟨length, hlength⟩ := hsome
    have hpos : length ≠ 0 := by
      rintro rfl
      exact hblock hlength
    have hlen := (nReadTime_block hlength).1
    rw [Nat.mod_eq_of_lt (hfits length hlength)] at hlen
    exact ⟨by omega, fun _ => by omega⟩
  · exact ⟨(nReadTime_noBlock fun length h => hsome ⟨length, h⟩).1.ge, fun h => absurd h hsome⟩

/-- The loop ends if every so many rounds bring a block that counts. -/
theorem ends_of_counted (hblocks : ∀ n, Performed c rounds n → outcomeAt c rounds n ≠ .block 0)
    (hstops : ∀ n, Barren c rounds n → BlocksOver (blocksAfter c rounds (n + maxRetryTime / 2)))
    (hfits : ∃ N, ∀ n ≥ N, Performed c rounds n → ∀ length, outcomeAt c rounds n = .block length →
      (blocksAfter c rounds n).nReadLen + length < 2 ^ 32) :
    Ends blockRound BlocksOver rounds (firstRequest c []) := by
  by_contra hnever
  have hgoing : ∀ n, ¬ BlocksOver (blocksAfter c rounds n) := fun n hn => hnever ⟨n, hn⟩
  have hperformed : ∀ n, Performed c rounds n := fun n k _ => hgoing k
  obtain ⟨N, hN⟩ := hfits
  have hstep : ∀ n ≥ N, (blocksAfter c rounds n).nReadLen ≤ (blocksAfter c rounds (n + 1)).nReadLen ∧
      ((∃ length, outcomeAt c rounds n = .block length) →
        (blocksAfter c rounds n).nReadLen < (blocksAfter c rounds (n + 1)).nReadLen) :=
    fun n hn => nReadLen_step (hblocks n (hperformed n)) (hN n hn (hperformed n))
  have hmono : ∀ n ≥ N, ∀ k, (blocksAfter c rounds n).nReadLen ≤ (blocksAfter c rounds (n + k)).nReadLen := by
    intro n hn k
    induction k with
    | zero => exact Nat.le_refl _
    | succ k ih => exact ih.trans (hstep (n + k) (hn.trans (Nat.le_add_right n k))).1
  have hends : Ends blockRound BlocksOver (fun k => rounds (N + k)) (blocksAfter c rounds N) := by
    let left : Dumping → Nat := fun d => d.cell.readLen - d.nReadLen
    refine ends_of_falls (m := left) (maxRetryTime / 2) fun n _ => ?_
    rw [blocksAfter, ← afterRounds_add, ← afterRounds_add, ← Nat.add_assoc]
    show (blocksAfter c rounds (N + n + maxRetryTime / 2)).cell.readLen -
        (blocksAfter c rounds (N + n + maxRetryTime / 2)).nReadLen <
      (blocksAfter c rounds (N + n)).cell.readLen - (blocksAfter c rounds (N + n)).nReadLen
    -- one of the rounds brings a block, since the loop goes on behind them
    have hsome : ∃ i < maxRetryTime / 2, ∃ length, outcomeAt c rounds (N + n + i) = .block length := by
      by_contra hnone
      refine hgoing (N + n + maxRetryTime / 2) (hstops (N + n) fun i hi => ⟨hperformed _, fun length h => ?_⟩)
      exact hnone ⟨i, hi, length, h⟩
    obtain ⟨i, hi, hblock⟩ := hsome
    obtain ⟨k, hk⟩ := Nat.exists_eq_add_of_le (Nat.succ_le_of_lt hi)
    have hbefore := hmono (N + n) (Nat.le_add_right N n) i
    have hat := (hstep (N + n + i) (by omega)).2 hblock
    have hbehind := hmono (N + n + i + 1) (by omega) k
    rw [show N + n + i + 1 + k = N + n + maxRetryTime / 2 by omega] at hbehind
    have hlast := (not_not.mp (hgoing (N + n + maxRetryTime / 2))).1
    rw [blocksAfter_cell] at hlast ⊢
    rw [blocksAfter_cell]
    omega
  obtain ⟨n, hn⟩ := hends
  rw [blocksAfter, ← afterRounds_add] at hn
  exact hgoing (N + n) hn

end Rounds

theorem getDumpDataRet_eq_neg_one (bFinish : Bool) (finishSends : List (Nat → Bool)) (d : Dumping) :
    getDumpDataRet bFinish finishSends d = -1 ↔ maxRetryTime / 2 ≤ d.nReadTime := by
  rw [getDumpDataRet]
  split
  · next h => exact iff_of_true rfl h
  · next h =>
      refine iff_of_false ?_ h
      cases bFinish <;> cases sendAll finishSends <;> decide

/-- **When the reader gives up**: exactly if, wherever many rounds in a row bring no block, all of them bring answers
with check sums that do not match, and no endless number of blocks passes over 32 bits. -/
theorem getDumpData_givesUp_iff (c : ReadDataReqCell) (bFinish : Bool) (finishSends : List (Nat → Bool))
    (rounds : Nat → BlockRound) (hblocks : ∀ n, Performed c rounds n → outcomeAt c rounds n ≠ .block 0) :
    GivesUp c bFinish finishSends rounds ↔ Counted c rounds := by
  constructor
  · intro h
    refine ⟨fun n hbarren => ?_, ?_⟩
    · have hzero := nReadTime_barren (fun m hm => (h.stops m hm).1) hbarren
      have hret := (getDumpDataRet_eq_neg_one _ _ _).mp (h.stops n hbarren).2
      refine (nReadTime_noBlocks (maxRetryTime / 2) fun i hi => (hbarren i hi).2).2.2.mp ?_
      rwa [hzero, Nat.zero_add]
    · obtain ⟨N, hN⟩ := h.ends
      exact ⟨N, fun n hn hperformed => absurd hN (hperformed N hn)⟩
  · intro h
    have hcount : ∀ n, Barren c rounds n →
        maxRetryTime / 2 ≤ (blocksAfter c rounds (n + maxRetryTime / 2)).nReadTime := by
      intro n hbarren
      have hall := (nReadTime_noBlocks (maxRetryTime / 2) fun i hi => (hbarren i hi).2).2.2.mpr (h.badFcs n hbarren)
      exact (Nat.le_add_left _ _).trans hall
    have hover : ∀ n, Barren c rounds n → BlocksOver (blocksAfter c rounds (n + maxRetryTime / 2)) :=
      fun n hbarren hgoing => Nat.not_lt.mpr (hcount n hbarren) hgoing.2.2
    exact ⟨fun n hbarren => ⟨hover n hbarren, (getDumpDataRet_eq_neg_one _ _ _).mpr (hcount n hbarren)⟩,
      ends_of_counted hblocks hover h.fits⟩

/-- A device that takes every request and never answers. -/
def silentRound : BlockRound := ⟨fun _ => true, fun _ => true, fun _ => true, fun _ => []⟩

theorem receiveLoop_silent (fuel : Nat) {d : Dumping} (h : d.ok = false ∨ 0 < fuel) :
    (receiveLoop fuel (fun _ => []) d).ok = false := by
  induction fuel generalizing d with
  | zero => exact h.resolve_right (Nat.lt_irrefl 0)
  | succ fuel ih =>
      have hok : (receive d []).ok = false := rfl
      rw [receiveLoop]
      split
      · exact hok
      · exact ih (Or.inl hok)

theorem blockOutcome_silent (d : Dumping) : blockOutcome d silentRound = .noAnswer := by
  have hfuel : 0 < receiveFuel (requesting d) :=
    Nat.add_pos_left (Nat.lt_of_lt_of_le (by decide) (Nat.le_add_left 12 d.newReadData.readLen)) _
  have hok : (waited d silentRound).ok = false := receiveLoop_silent _ (Or.inr hfuel)
  have hsent : sendAll [silentRound.sentRequest, silentRound.sentCell, silentRound.sentFcs] = true := by decide
  rw [blockOutcome, if_neg (by rw [hsent]; exact Bool.noConfusion), if_pos (Or.inl hok)]

theorem blocksAfter_silent (c : ReadDataReqCell) (n : Nat) :
    (blocksAfter c (fun _ => silentRound) n).nReadLen = 0 ∧ (blocksAfter c (fun _ => silentRound) n).nReadTime = 0 := by
  induction n with
  | zero => exact ⟨rfl, rfl⟩
  | succ n ih =>
      have houtcome : outcomeAt c (fun _ => silentRound) n = .noAnswer := blockOutcome_silent _
      have hnone : ∀ length, outcomeAt c (fun _ => silentRound) n ≠ .block length := fun length hblock => by
        rw [houtcome] at hblock
        cases hblock
      obtain ⟨hlen, ⟨hbad, -⟩ | ⟨-, htime⟩⟩ := nReadTime_noBlock hnone
      · rw [houtcome] at hbad
        cases hbad
      · exact ⟨hlen.trans ih.1, htime.trans ih.2⟩

theorem getDumpData_givesUp_silent :
    GivesUp ⟨0, 4⟩ true [] (fun _ => silentRound) ↔ Counted ⟨0, 4⟩ (fun _ => silentRound) :=
  getDumpData_givesUp_iff ⟨0, 4⟩ true [] (fun _ => silentRound) fun n _ h => by
    rw [outcomeAt, blockOutcome_silent] at h
    cases h

/-- A device that has gone silent is asked for ever. -/
theorem not_getDumpData_givesUp :
    ¬ ∀ (c : ReadDataReqCell) (bFinish : Bool) (finishSends : List (Nat → Bool)) (rounds : Nat → BlockRound),
      (∀ n, Performed c rounds n → outcomeAt c rounds n ≠ .block 0) → GivesUp c bFinish finishSends rounds := by
  intro h
  have hnone : ∀ n length, outcomeAt ⟨0, 4⟩ (fun _ => silentRound) n ≠ .block length := fun n length hblock => by
    rw [outcomeAt, blockOutcome_silent] at hblock
    cases hblock
  obtain ⟨n, hn⟩ := (h ⟨0, 4⟩ true [] (fun _ => silentRound) fun n _ => hnone n 0).ends
  obtain ⟨hlen, htime⟩ := blocksAfter_silent ⟨0, 4⟩ n
  have hgoing : ¬ BlocksOver (blocksAfter ⟨0, 4⟩ (fun _ => silentRound) n) := by
    rw [BlocksOver, hlen, htime, blocksAfter_cell]
    decide
  exact hgoing hn

end QLog.Eigen
