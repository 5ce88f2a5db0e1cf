import QLog.Eigen.GetDumpData
import QLog.Eigen.GetInfo

/-! # Where answers are put together

Both `SendGetInfoUsb` and `GetDumpDataUsb` copy what they read to the end of what they have in `message`, an array of
65535 bytes, and then look for the check sum behind the announced length. The copies are compared with nothing, and
so a read may go past the end of the array. And the length may be one whose bytes have not come: `GetDumpDataUsb` stops
to wait for a length that it has not asked for, and `SendGetInfoUsb` takes what it has after its last wait. -/

namespace QLog.Eigen

open Library

/-- What is done with the bytes of an answer. -/
inductive Access
  /-- `memcpy(message + nPktIndex, messageBuf, nMsgDataLen)` -/
  | copy (nPktIndex nMsgDataLen : Nat)
  /-- The data and the check sum of an announced length are taken, of so many bytes that have come. -/
  | check (length nPktIndex : Nat)

/-- An access to bytes of the array, or to bytes of the answer. -/
def Access.InBounds : Access → Prop
  | .copy nPktIndex nMsgDataLen => nPktIndex + nMsgDataLen ≤ 65535
  | .check length nPktIndex => nRspHeaderCount + length + 4 ≤ nPktIndex

instance : (a : Access) → Decidable a.InBounds
  | .copy _ _ => inferInstanceAs (Decidable (_ ≤ _))
  | .check _ _ => inferInstanceAs (Decidable (_ ≤ _))

/-! ## `GetDumpDataUsb` -/

/-- The copies of the receive loop. -/
def receiveAccesses : Nat → (Nat → List UInt8) → Dumping → List Access
  | 0, _, _ => []
  | fuel + 1, reads, d =>
      (if reads 0 = [] then [] else [.copy d.nPktIndex (reads 0).length]) ++
        if Leaves (receive d (reads 0)) (reads 0) then []
        else receiveAccesses fuel (fun i => reads (i + 1)) (receive d (reads 0))

/-- The accesses of a round. -/
def blockAccesses (d : Dumping) (r : BlockRound) : List Access :=
  let copies := receiveAccesses (receiveFuel (requesting d)) r.reads (requesting d)
  match blockOutcome d r with
  | .sendFailed => []
  | .noAnswer => copies
  | _ => copies ++ [.check (rspLength (waited d r).message) (waited d r).nPktIndex]

/-- The reads of a round have room in the array, and a length that has not been asked for comes with its bytes. -/
structure BlockFits (d : Dumping) (r : BlockRound) : Prop where
  room : blockOutcome d r ≠ .sendFailed → (waited d r).nPktIndex ≤ 65535
  whole : blockOutcome d r ≠ .sendFailed → blockOutcome d r ≠ .noAnswer →
    rspLength (waited d r).message ≤ d.newReadData.readLen ∨
      rspLength (waited d r).message + 12 ≤ (waited d r).nPktIndex

section Block

variable {d : Dumping} {r : BlockRound}

theorem receive_nPktIndex (d : Dumping) (chunk : List UInt8) :
    (receive d chunk).nPktIndex = d.nPktIndex + chunk.length := by
  rw [receive]
  split
  · next h => rw [h]; rfl
  · rfl

theorem receiveLoop_nPktIndex_le (fuel : Nat) (reads : Nat → List UInt8) (d : Dumping) :
    d.nPktIndex ≤ (receiveLoop fuel reads d).nPktIndex := by
  induction fuel generalizing reads d with
  | zero => exact Nat.le_refl _
  | succ fuel ih =>
      have hstep : d.nPktIndex ≤ (receive d (reads 0)).nPktIndex := by
        rw [receive_nPktIndex]
        exact Nat.le_add_right _ _
      rw [receiveLoop]
      split
      · exact hstep
      · exact hstep.trans (ih _ _)

/-- The copies stay inside the array exactly if all that is read has room in it. -/
theorem receiveAccesses_inBounds_iff (fuel : Nat) (reads : Nat → List UInt8) (hidx : d.nPktIndex ≤ 65535) :
    (∀ a ∈ receiveAccesses fuel reads d, a.InBounds) ↔ (receiveLoop fuel reads d).nPktIndex ≤ 65535 := by
  induction fuel generalizing reads d with
  | zero => exact iff_of_true (fun a ha => absurd ha List.not_mem_nil) hidx
  | succ fuel ih =>
      have hcopy : (∀ a ∈ (if reads 0 = [] then [] else [Access.copy d.nPktIndex (reads 0).length]), a.InBounds) ↔
          (receive d (reads 0)).nPktIndex ≤ 65535 := by
        rw [receive_nPktIndex]
        split
        · next hnil => simpa [hnil] using hidx
        · simp [Access.InBounds]
      rw [receiveAccesses, receiveLoop, List.forall_mem_append, hcopy]
      split
      · simp
      · constructor
        · rintro ⟨hroom, hrest⟩
          exact (ih _ hroom).mp hrest
        · intro hall
          have hroom := (receiveLoop_nPktIndex_le fuel _ _).trans hall
          exact ⟨hroom, (ih _ hroom).mpr hall⟩

theorem receiveLoop_newReadData (fuel : Nat) (reads : Nat → List UInt8) (d : Dumping) :
    (receiveLoop fuel reads d).newReadData = d.newReadData := by
  induction fuel generalizing reads d with
  | zero => rfl
  | succ fuel ih =>
      rw [receiveLoop]
      split
      · exact receive_newReadData d (reads 0)
      · exact (ih _ _).trans (receive_newReadData d (reads 0))

/-- With fuel enough the receive loop is left. -/
theorem receiveLoop_leaves (fuel : Nat) (reads : Nat → List UInt8) (hfuel : receiveFuel d ≤ fuel) (hpos : 0 < fuel) :
    ∃ chunk, Leaves (receiveLoop fuel reads d) chunk := by
  induction fuel generalizing reads d with
  | zero => exact absurd hpos (Nat.lt_irrefl 0)
  | succ fuel ih =>
      rw [receiveLoop]
      split
      · next hleaves => exact ⟨reads 0, hleaves⟩
      · next hstay =>
          obtain ⟨hleft, hless⟩ := receiveFuel_receive hstay
          exact ih _ (by omega) (by omega)

/-- An answer that is checked is whole, or announces more than has been asked for. -/
theorem waited_whole (hanswer : ¬ ((waited d r).ok = false ∨ maxRetryTime / 4 ≤ (waited d r).nRetry)) :
    d.newReadData.readLen < rspLength (waited d r).message ∨
      d.newReadData.readLen + 12 ≤ (waited d r).nPktIndex := by
  have hfuel : 0 < receiveFuel (requesting d) :=
    Nat.add_pos_left (Nat.lt_of_lt_of_le (by decide) (Nat.le_add_left 12 d.newReadData.readLen)) _
  have hasked : (waited d r).newReadData = d.newReadData := receiveLoop_newReadData _ _ _
  obtain ⟨chunk, ⟨-, hlarge⟩ | hover⟩ := receiveLoop_leaves (d := requesting d) _ r.reads (Nat.le_refl _) hfuel
  · exact Or.inl (hasked ▸ hlarge)
  · change ¬ ((waited d r).nPktIndex < (waited d r).newReadData.readLen + 12 ∧ (waited d r).nRetry < _) at hover
    rw [hasked] at hover
    exact Or.inr (by omega)

/-- The accesses of a round whose answer is checked. -/
theorem blockAccesses_checked (hsent : blockOutcome d r ≠ .sendFailed) (hanswer : blockOutcome d r ≠ .noAnswer) :
    ¬ ((waited d r).ok = false ∨ maxRetryTime / 4 ≤ (waited d r).nRetry) ∧
      blockAccesses d r = receiveAccesses (receiveFuel (requesting d)) r.reads (requesting d) ++
        [.check (rspLength (waited d r).message) (waited d r).nPktIndex] := by
  constructor
  · intro hnone
    rw [blockOutcome] at hsent hanswer
    split at hanswer
    · next hfailed => exact hsent (if_pos hfailed)
    · exact hanswer rfl
  · rw [blockAccesses]
    cases houtcome : blockOutcome d r with
    | sendFailed => exact absurd houtcome hsent
    | noAnswer => exact absurd houtcome hanswer
    | badFcs => rfl
    | block length => rfl

/-- Where the accesses of a round stay. -/
theorem blockAccesses_inBounds_iff (d : Dumping) (r : BlockRound) :
    (∀ a ∈ blockAccesses d r, a.InBounds) ↔ BlockFits d r := by
  have hcopies : (∀ a ∈ receiveAccesses (receiveFuel (requesting d)) r.reads (requesting d), a.InBounds) ↔
      (waited d r).nPktIndex ≤ 65535 :=
    receiveAccesses_inBounds_iff (d := requesting d) _ r.reads (Nat.zero_le _)
  by_cases hsent : blockOutcome d r = .sendFailed
  · rw [blockAccesses, hsent]
    exact iff_of_true (fun a ha => absurd ha List.not_mem_nil) ⟨fun h => absurd hsent h, fun h => absurd hsent h⟩
  by_cases hanswer : blockOutcome d r = .noAnswer
  · rw [blockAccesses, hanswer]
    exact hcopies.trans ⟨fun h => ⟨fun _ => h, fun _ hnot => absurd hanswer hnot⟩, fun h => h.room hsent⟩
  -- a checked answer is whole unless its length has not been asked for
  obtain ⟨hchecked, haccesses⟩ := blockAccesses_checked hsent hanswer
  have hwhole := waited_whole hchecked
  rw [haccesses, List.forall_mem_append, hcopies, List.forall_mem_singleton, Access.InBounds, nRspHeaderCount]
  constructor
  · rintro ⟨hroom, hcheck⟩
    exact ⟨fun _ => hroom, fun _ _ => Or.inr (by omega)⟩
  · intro h
    have hlength := h.whole hsent hanswer
    exact ⟨h.room hsent, by omega⟩

end Block

/-! ## `SendGetInfoUsb` -/

/-- The copies of the inner loop. -/
def waitAccesses : InfoWait → List (List UInt8) → List Access
  | _, [] => []
  | w, chunk :: reads =>
      (if (infoWait w chunk).ok then [.copy w.nPktIndex chunk.length] else []) ++
        if (infoWait w chunk).Complete then [] else waitAccesses (infoWait w chunk) reads

/-- The accesses of a try whose request has been sent. -/
def tryAccesses (w : InfoWait) (t : InfoTry) : List Access :=
  waitAccesses { w with nPktIndex := 0, ok := true } ((List.range maxRetryTime).map t.reads) ++
    if (infoAnswer w t).ok then [.check (rspLength (infoAnswer w t).message) (infoAnswer w t).nPktIndex] else []

/-- The tries whose requests have been sent, with the variables that they begin with. -/
def sentTries : InfoWait → List InfoTry → List (InfoWait × InfoTry)
  | _, [] => []
  | w, t :: ts =>
      if t.sentData && t.sentFcs then
        (w, t) ::
          if (infoAnswer w t).ok = true ∧ InfoFcsMatches (infoAnswer w t).message then []
          else sentTries (infoAnswer w t) ts
      else sentTries w ts

/-- The variables after `n` waits, if the answer does not end them. -/
def waitsAfter (w : InfoWait) (t : InfoTry) (n : Nat) : InfoWait :=
  (((List.range maxRetryTime).map t.reads).take n).foldl infoWait { w with nPktIndex := 0, ok := true }

/-- The reads of a try have room in the array, and if the last wait brings something, the answer is whole by then. -/
structure InfoFits (w : InfoWait) (t : InfoTry) : Prop where
  room : (infoAnswer w t).nPktIndex ≤ 65535
  whole : (waitsAfter w t maxRetryTime).ok = true → ∃ n, 0 < n ∧ n ≤ maxRetryTime ∧ (waitsAfter w t n).Complete

section Info

variable {w : InfoWait} {t : InfoTry}

theorem infoWait_nPktIndex (w : InfoWait) (chunk : List UInt8) :
    (infoWait w chunk).nPktIndex = w.nPktIndex + if (infoWait w chunk).ok then chunk.length else 0 := by
  rw [infoWait]
  split
  · rfl
  · dsimp only
    split <;> rfl

theorem infoWaits_nPktIndex_le (w : InfoWait) (reads : List (List UInt8)) :
    w.nPktIndex ≤ (infoWaits w reads).nPktIndex := by
  induction reads generalizing w with
  | nil => exact Nat.le_refl _
  | cons chunk reads ih =>
      have hstep : w.nPktIndex ≤ (infoWait w chunk).nPktIndex := by
        rw [infoWait_nPktIndex]
        exact Nat.le_add_right _ _
      rw [infoWaits]
      split
      · exact hstep
      · exact hstep.trans (ih _)

/-- The copies stay inside the array exactly if all that is read has room in it. -/
theorem waitAccesses_inBounds_iff (reads : List (List UInt8)) (hidx : w.nPktIndex ≤ 65535) :
    (∀ a ∈ waitAccesses w reads, a.InBounds) ↔ (infoWaits w reads).nPktIndex ≤ 65535 := by
  induction reads generalizing w with
  | nil => exact iff_of_true (fun a ha => absurd ha List.not_mem_nil) hidx
  | cons chunk reads ih =>
      have hcopy : (∀ a ∈ (if (infoWait w chunk).ok then [Access.copy w.nPktIndex chunk.length] else []), a.InBounds) ↔
          (infoWait w chunk).nPktIndex ≤ 65535 := by
        rw [infoWait_nPktIndex]
        split
        · simp [Access.InBounds]
        · simpa using hidx
      rw [waitAccesses, infoWaits, List.forall_mem_append, hcopy]
      split
      · simp
      · constructor
        · rintro ⟨hroom, hrest⟩
          exact (ih hroom).mp hrest
        · intro hall
          have hroom := (infoWaits_nPktIndex_le _ _).trans hall
          exact ⟨hroom, (ih hroom).mpr hall⟩

/-- The inner loop ends with the first wait that makes the answer whole, or with the last one. -/
theorem infoWaits_cases (w : InfoWait) (reads : List (List UInt8)) :
    (∃ n, 0 < n ∧ n ≤ reads.length ∧ infoWaits w reads = (reads.take n).foldl infoWait w ∧
        ((reads.take n).foldl infoWait w).Complete) ∨
      ((∀ n, 0 < n → n ≤ reads.length → ¬ ((reads.take n).foldl infoWait w).Complete) ∧
        infoWaits w reads = reads.foldl infoWait w) := by
  induction reads generalizing w with
  | nil => exact Or.inr ⟨fun n hpos hn => absurd hn (Nat.not_le.mpr hpos), rfl⟩
  | cons chunk reads ih =>
      rw [infoWaits]
      by_cases hcomplete : (infoWait w chunk).Complete
      · rw [if_pos hcomplete]
        exact Or.inl ⟨1, Nat.one_pos, Nat.succ_le_succ (Nat.zero_le _), rfl, hcomplete⟩
      · rw [if_neg hcomplete]
        rcases ih (infoWait w chunk) with ⟨n, -, hn, heq, hlater⟩ | ⟨hnever, heq⟩
        · exact Or.inl ⟨n + 1, Nat.succ_pos n, Nat.succ_le_succ hn, heq, hlater⟩
        · refine Or.inr ⟨fun n hpos hn => ?_, heq⟩
          cases n with
          | zero => exact absurd hpos (Nat.lt_irrefl 0)
          | succ n =>
              cases n with
              | zero => exact hcomplete
              | succ n => exact hnever (n + 1) (Nat.succ_pos n) (Nat.le_of_succ_le_succ hn)

/-- Where the accesses of a try stay. -/
theorem tryAccesses_inBounds_iff (w : InfoWait) (t : InfoTry) :
    (∀ a ∈ tryAccesses w t, a.InBounds) ↔ InfoFits w t := by
  have hcopies := waitAccesses_inBounds_iff (w := { w with nPktIndex := 0, ok := true })
    ((List.range maxRetryTime).map t.reads) (Nat.zero_le _)
  have hlength : ((List.range maxRetryTime).map t.reads).length = maxRetryTime := by
    rw [List.length_map, List.length_range]
  have hlast : waitsAfter w t maxRetryTime =
      ((List.range maxRetryTime).map t.reads).foldl infoWait { w with nPktIndex := 0, ok := true } := by
    rw [waitsAfter, List.take_of_length_le hlength.le]
  have hcheck : (∀ a ∈ (if (infoAnswer w t).ok then
        [Access.check (rspLength (infoAnswer w t).message) (infoAnswer w t).nPktIndex] else []), a.InBounds) ↔
      ((waitsAfter w t maxRetryTime).ok = true → ∃ n, 0 < n ∧ n ≤ maxRetryTime ∧ (waitsAfter w t n).Complete) := by
    have hsum : ∀ w' : InfoWait, nRspHeaderCount + rspLength w'.message + 4 ≤ w'.nPktIndex ↔
        rspLength w'.message + 12 ≤ w'.nPktIndex := fun w' => by
      rw [nRspHeaderCount]
      omega
    rcases infoWaits_cases { w with nPktIndex := 0, ok := true } ((List.range maxRetryTime).map t.reads) with
      ⟨n, hpos, hn, heq, hcomplete⟩ | ⟨hnever, heq⟩
    · rw [hlength] at hn
      refine iff_of_true ?_ fun _ => ⟨n, hpos, hn, hcomplete⟩
      rw [infoAnswer, heq, if_pos hcomplete.1, List.forall_mem_singleton]
      exact (hsum _).mpr hcomplete.2
    · rw [infoAnswer, heq, ← hlast]
      rw [hlength] at hnever
      have hnone : ¬ ∃ n, 0 < n ∧ n ≤ maxRetryTime ∧ (waitsAfter w t n).Complete := by
        rintro ⟨n, hpos, hn, hcomplete⟩
        exact hnever n hpos hn hcomplete
      by_cases hok : (waitsAfter w t maxRetryTime).ok = true
      · rw [if_pos hok, List.forall_mem_singleton]
        refine iff_of_false (fun hcheck => ?_) fun h => hnone (h hok)
        exact hnone ⟨maxRetryTime, by decide, Nat.le_refl _, hok, (hsum _).mp hcheck⟩
      · rw [if_neg hok]
        exact iff_of_true (fun a ha => absurd ha List.not_mem_nil) fun h => absurd h hok
  rw [tryAccesses, List.forall_mem_append, hcopies, hcheck]
  exact ⟨fun h => ⟨h.1, h.2⟩, fun h => ⟨h.room, h.whole⟩⟩

end Info

/-! ## Both -/

/-- The copies and the checks of both functions stay where they should. -/
structure Reassembles (tries : Nat → InfoTry) (c : ReadDataReqCell) (rounds : Nat → BlockRound) : Prop where
  info : ∀ p ∈ sentTries infoStart ((List.range maxRetryTime).map tries), ∀ a ∈ tryAccesses p.1 p.2, a.InBounds
  block : ∀ n, Performed c rounds n → ∀ a ∈ blockAccesses (blocksAfter c rounds n) (rounds n), a.InBounds

/-- **When answers are put together in bounds**: exactly if the reads of each have room in the array, and its announced
length has come where the loops stop to wait. -/
theorem reassembles_iff (tries : Nat → InfoTry) (c : ReadDataReqCell) (rounds : Nat → BlockRound) :
    Reassembles tries c rounds ↔
      (∀ p ∈ sentTries infoStart ((List.range maxRetryTime).map tries), InfoFits p.1 p.2) ∧
        ∀ n, Performed c rounds n → BlockFits (blocksAfter c rounds n) (rounds n) := by
  have hinfo : ∀ p ∈ sentTries infoStart ((List.range maxRetryTime).map tries),
      ((∀ a ∈ tryAccesses p.1 p.2, a.InBounds) ↔ InfoFits p.1 p.2) := fun p _ => tryAccesses_inBounds_iff p.1 p.2
  have hblock : ∀ n, ((∀ a ∈ blockAccesses (blocksAfter c rounds n) (rounds n), a.InBounds) ↔
      BlockFits (blocksAfter c rounds n) (rounds n)) := fun n => blockAccesses_inBounds_iff _ _
  constructor
  · exact fun h => ⟨fun p hp => (hinfo p hp).mp (h.info p hp), fun n hn => (hblock n).mp (h.block n hn)⟩
  · exact fun h => ⟨fun p hp => (hinfo p hp).mpr (h.1 p hp), fun n hn => (hblock n).mpr (h.2 n hn)⟩

/-- A device that answers with one byte first, and with as many as a read can bring then. -/
def longTries : Nat → InfoTry :=
  fun _ => ⟨true, true, fun i => if i = 0 then [0] else List.replicate 65535 0⟩

/-- A text that begins with a zero is empty. -/
theorem not_hasDump_zero (messageBuf chunk : List UInt8) : ¬ HasDump (overwrite messageBuf 0 (0 :: chunk)) := by
  rw [HasDump, overwrite_zero, List.cons_append, List.takeWhile_cons_of_neg (by decide)]
  decide

/-- The second read goes past the end of the array. -/
theorem not_reassembles :
    ¬ ∀ (tries : Nat → InfoTry) (c : ReadDataReqCell) (rounds : Nat → BlockRound),
      (∀ n i, ((tries n).reads i).length ≤ 65535) → (∀ n i, ((rounds n).reads i).length ≤ 65535) →
        Reassembles tries c rounds := by
  intro h
  have hlong : ∀ n i, ((longTries n).reads i).length ≤ 65535 := by
    intro n i
    show (if i = 0 then [(0 : UInt8)] else List.replicate 65535 0).length ≤ 65535
    split
    · decide
    · rw [List.length_replicate]
  have hinfo := (h longTries ⟨0, 0⟩ (fun _ => silentRound) hlong fun _ _ => Nat.zero_le _).info
  have hfirst : (infoStart, longTries 0) ∈ sentTries infoStart ((List.range maxRetryTime).map longTries) :=
    List.mem_cons_self
  obtain ⟨reads, hreads⟩ : ∃ reads, (List.range maxRetryTime).map (longTries 0).reads =
      [0] :: (0 :: List.replicate 65534 0) :: reads := ⟨_, rfl⟩
  have hone : (infoWait { infoStart with nPktIndex := 0, ok := true } [0]).nPktIndex = 1 ∧
      ¬ (infoWait { infoStart with nPktIndex := 0, ok := true } [0]).Complete := by
    rw [infoWait_data (List.cons_ne_nil _ _) (not_hasDump_zero _ _)]
    refine ⟨rfl, fun hcomplete => ?_⟩
    exact absurd hcomplete.2 (Nat.not_le.mpr (Nat.lt_of_lt_of_le (by decide) (Nat.le_add_left 12 _)))
  have hcopy : Access.copy 1 65535 ∈ tryAccesses infoStart (longTries 0) := by
    rw [tryAccesses, hreads, waitAccesses, if_neg hone.2, waitAccesses]
    refine List.mem_append_left _ (List.mem_append_right _ (List.mem_append_left _ ?_))
    set w := infoWait { infoStart with nPktIndex := 0, ok := true } [0]
    have hok : (infoWait w (0 :: List.replicate 65534 0)).ok = true := by
      rw [infoWait_data (List.cons_ne_nil _ _) (not_hasDump_zero _ _)]
    rw [if_pos hok, hone.1, List.length_cons, List.length_replicate]
    exact List.mem_singleton_self _
  exact absurd (hinfo _ hfirst _ hcopy) (by decide)

end QLog.Eigen
